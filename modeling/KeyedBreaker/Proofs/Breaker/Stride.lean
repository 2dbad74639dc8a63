import KeyedBreaker.Proofs.Breaker.Weathered
import KeyedBreaker.Proofs.Scene.Ensures
import KeyedBreaker.Throng.Basic

namespace KeyedBreaker

open Act

namespace Breaker

/-- How far a call or an overwrite has come. -/
inductive Stance where
  | fresh
  | loaded (r : Record)
  /-- Tells of a transition that was saved before the function. -/
  | announcing (r : Record)
  | admitted (r : Record)
  | running (o : Opening)
  | settled (r : Record) (result : Except Failure Json)
  /-- Tells of a transition that is to be saved after the function. -/
  | owing (r : Record) (result : Except Failure Json)
  | due (r : Record) (result : Except Failure Json)
  /-- Has met a conflicting write, which needs a fault. -/
  | retrying
  | parting (answer : Except Failure Answer)

namespace Stance

def Tells : Stance → Prop
  | .announcing _ | .owing .. | .parting _ => True
  | _ => False

/-- The store can be read where it has been read before, and a record that was just loaded is of the
version that it holds. -/
def Placed (key : String) (s : Scene) : Stance → Prop
  | .fresh | .retrying | .parting _ => True
  | .loaded r => ∃ x, s.store.lookup key = .ok x ∧ r.version = Record.versionOf x
  | _ => ∃ x, s.store.lookup key = .ok x

def IsOfCall : Stance → Prop
  | .fresh | .loaded _ | .retrying | .parting _ => False
  | _ => True

def IsEarly : Stance → Prop
  | .fresh | .loaded _ | .announcing _ | .admitted _ => True
  | _ => False

end Stance

/-- All that a call, or an overwrite to a target, can do at one time. -/
inductive Stride (b : Breaker) (key : String) (target? : Option Status) (polite : Prop) :
    Stance → Scene → Stance → Scene → Prop
  | ticks {p s t} : t.reaches s.now = .ok true →
      Stride b key target? polite p s p { s with now := t }
  | talks {p s es} : (∀ e ∈ es, e.Plain ∧ ∀ k, e.transition? k = none) →
      Stride b key target? polite p s p (s.seeing es)
  | unloaded {s f} : b.loaded s.now (s.store.lookup key) = .error f →
      Stride b key target? polite .fresh s (.parting (.error f)) s
  | loads {s r} : b.loaded s.now (s.store.lookup key) = .ok r →
      Stride b key target? polite .fresh s (.loaded r) s
  | unforced {s r target err} : target? = some target → b.forced target s.now r = .error err →
      Stride b key target? polite (.loaded r) s (.parting (.error (.time err))) s
  | forces {s s' r e target} : target? = some target → b.forced target s.now r = .ok e →
      s.Weathers key [e.next] (if r.status = target then [] else [(r.status, target)]) s' →
      Stride b key target? polite (.loaded r) s (.parting (.ok (.record (some e.next)))) s'
  | unadvanced {s r f} : target? = none → b.change s.now r = .error f →
      Stride b key target? polite (.loaded r) s (.parting (.error f)) s
  | stays {s r} : target? = none → b.change s.now r = .ok none →
      Stride b key target? polite (.loaded r) s (.admitted r) s
  | moves {s s' r e target} : target? = none → b.change s.now r = .ok (some (target, e)) →
      s.Weathers key [e.next] [(r.status, target)] s' →
      Stride b key target? polite (.loaded r) s (.announcing e.next) s'
  | announced {s r} : Stride b key target? polite (.announcing r) s (.admitted r) s
  | starts {s r} : (Record.permit b.config r.status key s.now r).2 = .ok () →
      Stride b key target? polite (.admitted r) s (.running (b.opening key s.now s.monotonic r))
        (s.seeing [.started key])
  | rejects {s r f} : (Record.permit b.config r.status key s.now r).2 = .error f →
      Stride b key target? polite (.admitted r) s
        (.settled (Record.permit b.config r.status key s.now r).1 (.error f)) s
  | discards {s r f} : f.isOrdinary = false →
      Stride b key target? polite (.settled r (.error f)) s (.parting (.error f)) s
  | unrenewed {s r result f} : b.change s.now r = .error f →
      Stride b key target? polite (.settled r result) s (.parting (.error f)) s
  | rests {s r result} : b.change s.now r = .ok none →
      Stride b key target? polite (.settled r result) s (.due r result) s
  | owes {s s' r e target result} : b.change s.now r = .ok (some (target, e)) →
      s.Weathers key [] [(r.status, target)] s' →
      Stride b key target? polite (.settled r result) s (.owing e result) s'
  | told {s r result} : Stride b key target? polite (.owing r result) s (.due r result) s
  | saves {s s' r result x} : s.store.lookup key = .ok x → r.version = Record.versionOf x →
      s.Weathers key [r.next] [] s' →
      Stride b key target? polite (.due r result) s (.parting (result.map .value)) s'
  | drops {s s' r result x} : s.store.lookup key = .ok x → r.version ≠ Record.versionOf x →
      s.Weathers key [] [] s' →
      Stride b key target? polite (.due r result) s (.parting (result.map .value)) s'
  | interrupted {p s f} : p.Tells → ¬ polite → f.isOrdinary = false →
      Stride b key target? polite p s (.parting (.error f)) s

def Strides (b : Breaker) (key : String) (target? : Option Status) (polite : Prop)
    (p : Stance) (s : Scene) (p' : Stance) (s' : Scene) : Prop :=
  Relation.ReflTransGen
    (fun u v : Stance × Scene => b.Stride key target? polite u.1 u.2 v.1 v.2) (p, s) (p', s')

/-- The course of a call, or of an overwrite, over a store whose accesses meet no faults. Listeners
raise ordinary failures at most, if they are polite. -/
def course (b : Breaker) (key : String) (target? : Option Status) (polite : Prop) :
    Course Stance where
  leads p s p' s' := b.Strides key target? polite p s p' s' ∧ s'.Quiet ∧ p'.Placed key s'
  waits := Stance.Tells
  resumes p s := s.Quiet ∧ p.Placed key s
  answers r := polite → ∀ f, r = .error f → f.isOrdinary = true

end Breaker

namespace Act

theorem atomic_nextFault (a : Access) : (nextFault a).Atomic := by
  refine atomic_get.bind fun s => ?_
  split
  · exact atomic_pure _
  · exact (atomic_modify _).bind fun _ => atomic_pure _

theorem atomic_meetClient (access : Access) (key operation : String) :
    (meetClient access key operation).Atomic := by
  refine (atomic_nextFault access).bind fun fault => ?_
  split
  · exact atomic_throw _
  · exact atomic_pure _

theorem atomic_fetch (key : String) : (fetch key).Atomic := by
  refine atomic_get.bind fun s => ?_
  split
  · exact atomic_pure _
  · refine (atomic_emit _).bind fun _ => (atomic_meetClient _ _ _).bind fun _ => ?_
    split
    · exact atomic_pure _
    · split
      · exact atomic_pure _
      · exact atomic_throw _

theorem atomic_keep (key : String) (r : Record) : (keep key r).Atomic := by
  refine atomic_get.bind fun s => ?_
  split
  · exact atomic_modify _
  · exact (atomic_emit _).bind fun _ => (atomic_meetClient _ _ _).bind fun _ => atomic_modify _

theorem atomic_readRecord (key : String) : (readRecord key).Atomic := by
  refine (atomic_emit _).bind fun _ => (atomic_nextFault _).bind fun fault => ?_
  split
  · exact atomic_throw _
  · exact atomic_fetch key

theorem atomic_writeRecord (key : String) (r : Record) : (writeRecord key r).Atomic := by
  refine (atomic_emit _).bind fun _ => (atomic_nextFault _).bind fun fault => ?_
  split
  · refine (atomic_fetch key).bind fun x => ?_
    dsimp only
    split
    · exact (atomic_keep key _).bind fun _ => atomic_pure _
    · exact atomic_throw _
  · exact atomic_throw _
  · exact atomic_throw _

end Act

namespace Breaker

theorem atomic_write (key : String) (r : Record) : (write key r).Atomic :=
  (atomic_writeRecord key r).tryCatch fun _ => atomic_throw _

theorem atomic_save (b : Breaker) (key : String) (r : Record) : (b.save key r).Atomic := by
  refine (atomic_write key r).tryCatch fun f => ?_
  split
  · exact (atomic_emit _).bind fun _ => atomic_pure _
  · exact atomic_throw _

theorem atomic_persist (b : Breaker) (key : String) (r : Record) (called : Option Failure) :
    (b.persist key r called).Atomic := by
  refine Atomic.tryCatch ((b.atomic_save key r).bind fun _ => atomic_pure _) fun f => ?_
  split
  · split
    · exact atomic_throw _
    · exact atomic_throw _
  · exact atomic_throw _

section Strides

variable {b : Breaker} {key : String} {target? : Option Status} {polite : Prop} {p p' : Stance}
  {s s' : Scene}

/-- A stride keeps one record of the key at most, and the clock does not go back. -/
theorem Stride.grows (h : b.Stride key target? polite p s p' s') :
    s'.now.reaches s.now = .ok true ∧ ∃ rs, s.store.Grows key rs s'.store := by
  cases h with
  | ticks ht => exact ⟨ht, [], .refl⟩
  | forces _ _ hw | moves _ _ hw | owes _ hw | saves _ _ hw | drops _ _ hw =>
      exact ⟨hw.now ▸ Instant.reaches_self _, _, hw.store⟩
  | _ => exact ⟨Instant.reaches_self _, [], .refl⟩

theorem Stride.ne_retrying (h : b.Stride key target? polite p s p' s') (hp : p ≠ .retrying) :
    p' ≠ .retrying := by
  cases h <;> first | exact hp | exact nofun

/-- What holds at first and is kept by strides holds in the end. -/
theorem Strides.invariant {I : Stance → Scene → Prop} (h : b.Strides key target? polite p s p' s')
    (hI : I p s)
    (hstep : ∀ {q t q' t'}, b.Strides key target? polite q' t' p' s' → I q t →
      b.Stride key target? polite q t q' t' → I q' t') : I p' s' := by
  have hall : ∀ {u : Stance × Scene}, Relation.ReflTransGen
      (fun u v : Stance × Scene => b.Stride key target? polite u.1 u.2 v.1 v.2) u (p', s') →
      I u.1 u.2 → I p' s' := by
    intro u hu
    induction hu using Relation.ReflTransGen.head_induction_on with
    | refl => exact id
    | head hs hrest ih => exact fun hI => ih (hstep hrest hI hs)
  exact hall h hI

theorem Strides.grows (h : b.Strides key target? polite p s p' s') :
    s'.now.reaches s.now = .ok true ∧ ∃ rs, s.store.Grows key rs s'.store := by
  refine h.invariant (I := fun _ t => t.now.reaches s.now = .ok true ∧
    ∃ rs, s.store.Grows key rs t.store) ⟨Instant.reaches_self _, [], .refl⟩ ?_
  rintro q t q' t' - ⟨hnow, rs, hg⟩ hs
  obtain ⟨hnow', rs', hg'⟩ := hs.grows
  exact ⟨Instant.reaches_trans hnow' hnow, _, hg.trans hg'⟩

theorem Strides.ne_retrying (h : b.Strides key target? polite p s p' s') (hp : p ≠ .retrying) :
    p' ≠ .retrying :=
  h.invariant (I := fun q _ => q ≠ .retrying) hp fun _ hq hs => hs.ne_retrying hq

theorem Stride.starts_cases (h : b.Stride key target? polite p s p' s') :
    s'.starts = s.starts ∨ s'.starts = key :: s.starts ∧ ∃ r o, p = .admitted r ∧ p' = .running o := by
  cases h with
  | talks hes => exact .inl (Scene.starts_seeing fun e he => (hes e he).1)
  | forces _ _ hw | moves _ _ hw | owes _ hw | saves _ _ hw | drops _ _ hw => exact .inl hw.starts
  | starts => exact .inr ⟨rfl, _, _, rfl, rfl⟩
  | _ => exact .inl rfl

theorem Strides.isOfCall (h : b.Strides key target? polite p s p' s')
    (hp : p.IsOfCall → target? = none) : p'.IsOfCall → target? = none := by
  refine h.invariant (I := fun q _ => q.IsOfCall → target? = none) hp ?_
  rintro q t q' t' - hq hstride
  cases hstride with
  | unloaded | loads | unforced | forces | unadvanced | discards | unrenewed | saves | drops
  | interrupted => exact False.elim
  | stays ht | moves ht => exact fun _ => ht
  | ticks | talks => exact hq
  | _ => exact fun _ => hq trivial

theorem Strides.isEarly (h : b.Strides key target? polite p s p' s') (hp' : p'.IsEarly) :
    p.IsEarly := by
  by_contra hp
  refine h.invariant (I := fun q _ => ¬ q.IsEarly) hp ?_ hp'
  rintro q t q' t' - hq hstride
  cases hstride with
  | ticks | talks => exact hq
  | loads | stays | moves | announced => exact absurd trivial hq
  | _ => exact id

def Yielded (polite : Prop) (given answer : Except Failure Answer) : Prop :=
  given = answer ∨ ¬ polite ∧ ∃ f, given = .error f ∧ f.isOrdinary = false

theorem Yielded.trans {x y z : Except Failure Answer} (h : Yielded polite x y)
    (h' : Yielded polite y z) : Yielded polite x z := by
  rcases h with rfl | h
  · exact h'
  · exact .inr h

/-- Whoever only parts writes nothing and starts nothing. -/
theorem Stride.of_parting {answer : Except Failure Answer}
    (h : b.Stride key target? polite (.parting answer) s p' s') :
    (∃ given, p' = .parting given ∧ Yielded polite given answer) ∧ s'.store = s.store ∧
      s'.starts = s.starts := by
  cases h with
  | ticks => exact ⟨⟨_, rfl, .inl rfl⟩, rfl, rfl⟩
  | talks hes =>
      exact ⟨⟨_, rfl, .inl rfl⟩, rfl, Scene.starts_seeing fun e he => (hes e he).1⟩
  | interrupted _ hp hf => exact ⟨⟨_, rfl, .inr ⟨hp, _, rfl, hf⟩⟩, rfl, rfl⟩

theorem Strides.of_parting {answer : Except Failure Answer}
    (h : b.Strides key target? polite (.parting answer) s p' s') :
    (∃ given, p' = .parting given ∧ Yielded polite given answer) ∧ s'.store = s.store ∧
      s'.starts = s.starts := by
  refine h.invariant (I := fun q t => (∃ given, q = .parting given ∧
    Yielded polite given answer) ∧ t.store = s.store ∧ t.starts = s.starts)
    ⟨⟨_, rfl, .inl rfl⟩, rfl, rfl⟩ ?_
  rintro q t q' t' - ⟨⟨given, rfl, hy⟩, hstore, hstarts⟩ hs
  obtain ⟨⟨given', rfl, hy'⟩, hstore', hstarts'⟩ := hs.of_parting
  exact ⟨⟨given', rfl, hy'.trans hy⟩, hstore'.trans hstore, hstarts'.trans hstarts⟩

end Strides

end Breaker

end KeyedBreaker
