import KeyedBreaker.Proofs.Breaker.Call
import KeyedBreaker.Proofs.Breaker.Control

namespace KeyedBreaker

open Act

namespace Act

variable {α β : Type} {R : Scene → Scene → Prop} {a a' : Act α}

def Matches (R : Scene → Scene → Prop) (a a' : Act α) : Prop :=
  ∀ s τ, R s τ → (a'.play τ).1 = (a.play s).1 ∧ R (a.play s).2 (a'.play τ).2

/-- In related scenes the action comes to the same, and the scenes after it are related again. -/
def Respects (R : Scene → Scene → Prop) (a : Act α) : Prop :=
  ∀ s τ, R s τ → (a.play τ).1 = (a.play s).1 ∧ R (a.play s).2 (a.play τ).2

theorem Respects.matches (ha : a.Respects R) : a.Matches R a := ha

theorem Matches.bind {g g' : α → Act β} (ha : a.Matches R a') (hg : ∀ x, (g x).Matches R (g' x)) :
    (a >>= g).Matches R (a' >>= g') := by
  intro s τ h
  obtain ⟨hout, hrel⟩ := ha s τ h
  rw [play_bind, play_bind]
  rcases hs : a.play s with ⟨x, s'⟩
  rcases hτ : a'.play τ with ⟨y, τ'⟩
  rw [hs, hτ] at hout hrel
  obtain rfl : y = x := hout
  cases y with
  | error f => exact ⟨rfl, hrel⟩
  | ok x => exact hg x s' τ' hrel

theorem Matches.tryCatch {g g' : Failure → Act α} (ha : a.Matches R a')
    (hg : ∀ f, (g f).Matches R (g' f)) : (tryCatch a g).Matches R (tryCatch a' g') := by
  intro s τ h
  obtain ⟨hout, hrel⟩ := ha s τ h
  rw [play_tryCatch, play_tryCatch]
  rcases hs : a.play s with ⟨x, s'⟩
  rcases hτ : a'.play τ with ⟨y, τ'⟩
  rw [hs, hτ] at hout hrel
  obtain rfl : y = x := hout
  cases y with
  | error f => exact hg f s' τ' hrel
  | ok x => exact ⟨rfl, hrel⟩

theorem Matches.map (ha : a.Matches R a') (g : α → β) : (g <$> a).Matches R (g <$> a') := by
  intro s τ h
  obtain ⟨hout, hrel⟩ := ha s τ h
  rw [play_map, play_map, hout]
  exact ⟨rfl, hrel⟩

theorem Matches.discard (ha : a.Matches R a') :
    (discard a : Act Unit).Matches R (Functor.discard a') := ha.map _

theorem Matches.observing (ha : a.Matches R a') : (observing a).Matches R (observing a') := by
  intro s τ h
  obtain ⟨hout, hrel⟩ := ha s τ h
  rw [play_observing, play_observing]
  exact ⟨congrArg Except.ok hout, hrel⟩

theorem Respects.bind {g : α → Act β} (ha : a.Respects R) (hg : ∀ x, (g x).Respects R) :
    (a >>= g).Respects R := Matches.bind ha hg

theorem Respects.map (ha : a.Respects R) (g : α → β) : (g <$> a).Respects R := Matches.map ha g

theorem Respects.discard (ha : a.Respects R) : (discard a : Act Unit).Respects R := ha.map _

theorem respects_of_still {out : Scene → Except Failure α} (hplay : ∀ s, a.play s = (out s, s))
    (hout : ∀ s τ, R s τ → out τ = out s) : a.Respects R := by
  intro s τ h
  rw [hplay, hplay]
  exact ⟨hout s τ h, h⟩

theorem respects_pure (x : α) : (pure x : Act α).Respects R :=
  respects_of_still (fun _ => rfl) fun _ _ _ => rfl

theorem respects_throw (f : Failure) : (throw f : Act α).Respects R :=
  respects_of_still (fun _ => rfl) fun _ _ _ => rfl

theorem respects_ofExcept (x : Except Failure α) : (ofExcept x : Act α).Respects R :=
  respects_of_still (play_ofExcept · x) fun _ _ _ => rfl

theorem respects_ofTime (x : Except TimeError α) : (ofTime x).Respects R := respects_ofExcept _

end Act

def Event.isOfListeners : Event → Bool
  | .heard .. | .noted (.listener ..) _ | .noted (.breaker _) (.listenerFailed ..) => true
  | _ => false

def Notice.key : Notice → String
  | .transition key .. | .listenerFailed key _ | .writeConflict key .. | .overwriteConflict key ..
  | .stateChanged key .. | .callRejected key _ | .callFailed key .. => key

theorem Occurrence.key_ofFailure {key : String} {status : Status} {f : Failure} {elapsed : Binary64} :
    (ofFailure key status f elapsed).key = key := by
  unfold ofFailure
  split <;> rfl

def Event.key? : Event → Option String
  | .storeRead key | .storeWrite key _ | .started key => some key
  | .noted _ n => some n.key
  | .heard _ _ o => some o.key
  | .clientRead _ | .clientWrite _ | .inner _ | .paused _ => none

/-- A relation between scenes that show the same clocks, and in which accesses to the records of a key
come to the same. Nothing is said of what listeners make known. -/
structure Accord (key : String) (R : Scene → Scene → Prop) : Prop where
  now : ∀ {s τ}, R s τ → τ.now = s.now
  monotonic : ∀ {s τ}, R s τ → τ.monotonic = s.monotonic
  emit : ∀ e : Event, e.isOfListeners = false → (∀ k ∈ e.key?, k = key) → (Act.emit e).Respects R
  read : (readRecord key).Respects R
  write : ∀ r, (writeRecord key r).Respects R

structure Clockwise (R : Scene → Scene → Prop) : Prop where
  setNow : ∀ {s τ}, R s τ → ∀ t, R { s with now := t } { τ with now := t }
  setMonotonic : ∀ {s τ}, R s τ → ∀ x, R { s with monotonic := x } { τ with monotonic := x }

theorem Clockwise.setClock {R : Scene → Scene → Prop} (hC : Clockwise R) (t : Instant) :
    (Act.setClock t).Respects R := fun _ _ h => ⟨rfl, hC.setNow h t⟩

/-- Two breakers that differ in their listeners at most, where telling these of a key comes to the same. -/
structure Breaker.Twins (key : String) (R : Scene → Scene → Prop) (b b' : Breaker) : Prop where
  number : b'.number = b.number
  config : b'.config = b.config
  policy : b'.policy = b.policy
  fraction : b'.fraction = b.fraction
  tell : ∀ o, o.key = key → (b.tell o).Matches R (b'.tell o)

namespace Accord

variable {α : Type} {key : String} {R : Scene → Scene → Prop} {b b' : Breaker}

theorem playNow (hR : Accord key R) : Act.now.Respects R :=
  respects_of_still play_now fun _ _ h => congrArg Except.ok (hR.now h)

theorem playMonotonic (hR : Accord key R) : Act.monotonic.Respects R :=
  respects_of_still play_monotonic fun _ _ h => congrArg Except.ok (hR.monotonic h)

theorem advanceClock (hR : Accord key R) (hC : Clockwise R) (seconds : Binary64) :
    (advanceClock seconds).Respects R :=
  hR.playNow.bind fun _ => (respects_ofTime _).bind fun t _ _ h => ⟨rfl, hC.setNow h t⟩

theorem advanceMonotonic (hR : Accord key R) (hC : Clockwise R) (seconds : Binary64) :
    (advanceMonotonic seconds).Respects R := by
  intro s τ h
  refine ⟨rfl, ?_⟩
  change R { s with monotonic := s.monotonic + seconds } { τ with monotonic := τ.monotonic + seconds }
  rw [hR.monotonic h]
  exact hC.setMonotonic h _

theorem started (hR : Accord key R) : (Act.emit (.started key)).Respects R :=
  hR.emit _ rfl fun _ hk => (Option.some.inj hk).symm

theorem start (hR : Accord key R) (hC : Clockwise R) (w : Work) : (w.start key).Respects R := by
  unfold Work.start
  refine hR.started.bind fun _ => ?_
  cases w.advance with
  | none =>
      cases w.monotonic with
      | none => exact respects_pure ()
      | some seconds => exact hR.advanceMonotonic hC seconds
  | some seconds =>
      refine (hR.advanceClock hC seconds).bind fun _ => ?_
      cases w.monotonic with
      | none => exact respects_pure ()
      | some seconds => exact hR.advanceMonotonic hC seconds

theorem start_still (hR : Accord key R) {w : Work} (hw : w.advance = none ∧ w.monotonic = none) :
    (w.start key).Respects R := by
  unfold Work.start
  rw [hw.1, hw.2]
  exact hR.started.bind fun _ => respects_pure ()

theorem log (hR : Accord key R) (hb : b.Twins key R b') {n : Notice}
    (hn : (Event.noted (.breaker b.number) n).isOfListeners = false) (hkey : n.key = key) :
    (b.log n).Matches R (b'.log n) := by
  unfold Breaker.log
  rw [hb.number]
  exact hR.emit _ hn fun _ hk => (Option.some.inj hk).symm.trans hkey

theorem asStoreFailure {operation : String} {a : Act α} (ha : a.Respects R) :
    (Breaker.asStoreFailure key operation a).Respects R :=
  Matches.tryCatch ha fun _ => respects_throw _

theorem load (hR : Accord key R) (hb : b.Twins key R b') : (b.load key).Matches R (b'.load key) := by
  refine (asStoreFailure hR.read).matches.bind fun x => ?_
  cases x with
  | some r => exact respects_pure _
  | none =>
      dsimp only
      rw [hb.config]
      exact hR.playNow.bind fun _ => respects_ofTime _

theorem writing (hR : Accord key R) (r : Record) : (Breaker.write key r).Respects R :=
  asStoreFailure (hR.write r)

theorem save (hR : Accord key R) (hb : b.Twins key R b') (r : Record) :
    (b.save key r).Matches R (b'.save key r) := by
  refine (hR.writing r).matches.tryCatch fun f => ?_
  split
  · exact (hR.log hb rfl rfl).bind fun _ => respects_pure _
  · exact respects_throw _

theorem persist (hR : Accord key R) (hb : b.Twins key R b') (r : Record) (called : Option Failure) :
    (b.persist key r called).Matches R (b'.persist key r called) := by
  refine (hR.save hb r).discard.tryCatch fun f => ?_
  split
  · split <;> exact respects_throw _
  · exact respects_throw _

theorem status (hR : Accord key R) (hb : b.Twins key R b') : (b.status key).Matches R (b'.status key) :=
  (hR.load hb).bind fun _ => respects_pure _

theorem resetIn (hR : Accord key R) (hb : b.Twins key R b') :
    (b.resetIn key).Matches R (b'.resetIn key) :=
  (hR.load hb).bind fun _ => hR.playNow.bind fun _ => respects_ofTime _

theorem enter_eq (hb : b.Twins key R b') (target : Status) (t : Instant) (r : Record) :
    b'.enter target t r = b.enter target t r := by
  rw [Breaker.enter, Breaker.enter, hb.config]

theorem overwriteOnce (hR : Accord key R) (hb : b.Twins key R b') (target : Status) :
    (b.overwriteOnce key target).Matches R (b'.overwriteOnce key target) := by
  refine (hR.load hb).bind fun r => hR.playNow.matches.bind fun t => ?_
  rw [enter_eq hb]
  exact (respects_ofTime _).bind fun e => (hR.writing _).bind fun _ => respects_pure _

theorem announce (hR : Accord key R) (hb : b.Twins key R b') (old new : Status) :
    (b.announce key old new).Matches R (b'.announce key old new) :=
  (hR.log hb rfl rfl).bind fun _ => hb.tell _ rfl

theorem confirm (hR : Accord key R) (hb : b.Twins key R b') (target previous : Status) :
    (b.confirm key target previous).Matches R (b'.confirm key target previous) := by
  unfold Breaker.confirm
  split
  · exact respects_pure _
  · exact hR.announce hb _ _

theorem backOff (hR : Accord key R) (hb : b.Twins key R b') (target : Status) (attempt : Nat) :
    (b.backOff key target attempt).Matches R (b'.backOff key target attempt) := by
  refine (hR.log hb rfl rfl).bind fun _ => ?_
  rw [hb.policy, hb.fraction]
  exact hR.emit _ rfl fun _ hk => by cases hk

theorem advance (hR : Accord key R) (hb : b.Twins key R b') (r : Record) (saving : Bool) :
    (b.advance key r saving).Matches R (b'.advance key r saving) := by
  refine hR.playNow.matches.bind fun t => ?_
  rw [hb.config]
  refine (respects_ofExcept _).matches.bind fun due => ?_
  split
  · exact respects_pure _
  · rename_i target
    rw [enter_eq hb]
    refine (respects_ofTime _).matches.bind fun e => ?_
    have htail : ∀ e : Record, (do b.announce key r.status target; pure e : Act Record).Matches R
        (do b'.announce key r.status target; pure e) :=
      fun e => (hR.announce hb _ _).bind fun _ => respects_pure e
    split
    · exact (hR.save hb _).bind htail
    · exact (respects_pure _).matches.bind htail

theorem begin (hR : Accord key R) (hb : b.Twins key R b') : (b.begin key).Matches R (b'.begin key) := by
  refine (hR.load hb).bind fun r => (hR.advance hb r true).bind fun r => ?_
  rw [hb.config]
  exact hR.playMonotonic.bind fun _ => hR.playNow.bind fun _ => respects_pure _

theorem finish (hR : Accord key R) (hb : b.Twins key R b') (o : Breaker.Opening)
    (result : Except Failure Json) : (b.finish key o result).Matches R (b'.finish key o result) := by
  have htail : ∀ (called : Option Failure) {occurrence : Binary64 → Occurrence}
      (answer : Except Failure Json), (∀ x, (occurrence x).key = key) → (do
        let elapsed ← o.elapsed
        let r ← b.advance key o.record false
        b.persist key r called
        b.tell (occurrence elapsed)
        ofExcept answer : Act Json).Matches R (do
        let elapsed ← o.elapsed
        let r ← b'.advance key o.record false
        b'.persist key r called
        b'.tell (occurrence elapsed)
        ofExcept answer) := by
    intro called occurrence answer hkey
    refine (hR.playMonotonic.bind fun _ => respects_pure _).matches.bind fun elapsed => ?_
    refine (hR.advance hb o.record false).bind fun r => ?_
    exact (hR.persist hb r called).bind fun _ => (hb.tell _ (hkey _)).bind fun _ => respects_ofExcept _
  cases result with
  | ok v => exact htail none (.ok v) fun _ => rfl
  | error f =>
      rw [Breaker.finish, Breaker.finish]
      cases hf : f.isOrdinary with
      | true =>
          simp only [if_true]
          exact htail (some f) (.error f) fun x => Occurrence.key_ofFailure
      | false =>
          simp only
          exact respects_throw f

theorem conclude (hR : Accord key R) (hb : b.Twins key R b') (o : Breaker.Opening)
    (result : Except Failure Json) :
    (b.conclude key o result).Matches R (b'.conclude key o result) := by
  rw [Breaker.conclude_eq, Breaker.conclude_eq, hb.config]
  exact hR.finish hb _ _

theorem enterCall (hR : Accord key R) (hb : b.Twins key R b') {w : Work}
    (hstart : (w.start key).Respects R) : (b.enterCall key w).Matches R (b'.enterCall key w) := by
  refine (hR.begin hb).bind fun p => ?_
  obtain ⟨o, permitted⟩ := p
  cases permitted with
  | error f => exact (hR.finish hb o _).bind fun _ => respects_pure _
  | ok u =>
      refine hstart.matches.observing.bind fun result => ?_
      cases result with
      | error f => exact (hR.conclude hb o _).bind fun _ => respects_pure _
      | ok u => exact respects_pure _

end Accord

structure Likeness (key : String) (R : Scene → Scene → Prop) : Prop where
  now : ∀ {s τ}, R s τ → τ.now = s.now
  monotonic : ∀ {s τ}, R s τ → τ.monotonic = s.monotonic
  setNow : ∀ {s τ}, R s τ → ∀ t, R { s with now := t } { τ with now := t }
  setMonotonic : ∀ {s τ}, R s τ → ∀ x, R { s with monotonic := x } { τ with monotonic := x }
  seeing : ∀ {s τ}, R s τ → ∀ es, R (s.seeing es) (τ.seeing es)
  read : (readRecord key).Respects R
  write : ∀ r, (writeRecord key r).Respects R

namespace Likeness

variable {key : String} {R : Scene → Scene → Prop}

theorem utters {α : Type} {a : Act α} {out : Except Failure α} {es : List Event}
    (hR : Likeness key R) (ha : a.Utters out es) : a.Respects R := by
  intro s τ h
  rw [ha s, ha τ]
  exact ⟨rfl, hR.seeing h es⟩

theorem accord (hR : Likeness key R) : Accord key R :=
  { hR with emit := fun e _ _ => hR.utters (utters_emit e) }

theorem clockwise (hR : Likeness key R) : Clockwise R := { hR with }

theorem twins (hR : Likeness key R) (b : Breaker) : b.Twins key R b := by
  refine ⟨rfl, rfl, rfl, rfl, fun o _ => ?_⟩
  obtain ⟨out, es, hu, -⟩ := b.tell_utters o
  exact hR.utters hu

theorem advanceClock (hR : Likeness key R) (seconds : Binary64) : (advanceClock seconds).Respects R :=
  hR.accord.advanceClock hR.clockwise seconds

theorem setClock (hR : Likeness key R) (t : Instant) : (setClock t).Respects R :=
  hR.clockwise.setClock t

theorem load (hR : Likeness key R) (b : Breaker) : (b.load key).Respects R :=
  hR.accord.load (hR.twins b)

theorem status (hR : Likeness key R) (b : Breaker) : (b.status key).Respects R :=
  hR.accord.status (hR.twins b)

theorem resetIn (hR : Likeness key R) (b : Breaker) : (b.resetIn key).Respects R :=
  hR.accord.resetIn (hR.twins b)

theorem overwriteOnce (hR : Likeness key R) (b : Breaker) (target : Status) :
    (b.overwriteOnce key target).Respects R := hR.accord.overwriteOnce (hR.twins b) target

theorem confirm (hR : Likeness key R) (b : Breaker) (target previous : Status) :
    (b.confirm key target previous).Respects R := hR.accord.confirm (hR.twins b) target previous

theorem backOff (hR : Likeness key R) (b : Breaker) (target : Status) (attempt : Nat) :
    (b.backOff key target attempt).Respects R := hR.accord.backOff (hR.twins b) target attempt

theorem conclude (hR : Likeness key R) (b : Breaker) (o : Breaker.Opening)
    (result : Except Failure Json) : (b.conclude key o result).Respects R :=
  hR.accord.conclude (hR.twins b) o result

theorem enterCall (hR : Likeness key R) (b : Breaker) (w : Work) : (b.enterCall key w).Respects R :=
  hR.accord.enterCall (hR.twins b) (hR.accord.start hR.clockwise w)

end Likeness

end KeyedBreaker
