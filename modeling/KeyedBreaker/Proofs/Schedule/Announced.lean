import KeyedBreaker.Proofs.Schedule.Unopposed
import KeyedBreaker.Throng.Basic

namespace KeyedBreaker

open Act

mutual

theorem Step.Everywhere.mono {p q : Step → Prop} (hpq : ∀ step, p step → q step) :
    ∀ {step : Step}, step.Everywhere p → step.Everywhere q
  | .call .., h => ⟨hpq _ h.1, Step.EverywhereIn.mono hpq h.2⟩
  | .force .., h | .status .., h | .snapshot .., h | .resetIn .., h | .advance _, h
  | .setClock _, h | .addFaults .., h | .overwrite .., h | .getRecord _, h | .setRecord .., h
  | .release _, h | .cancel _, h => hpq _ h

theorem Step.EverywhereIn.mono {p q : Step → Prop} (hpq : ∀ step, p step → q step) :
    ∀ {steps : List Step}, Step.EverywhereIn p steps → Step.EverywhereIn q steps
  | [], _ => trivial
  | _ :: _, h => ⟨Step.Everywhere.mono hpq h.1, Step.EverywhereIn.mono hpq h.2⟩

end

theorem Step.Undisturbed.mono {p q : Breaker → Prop} {step : Step} (hpq : ∀ b, p b → q b)
    (h : step.Undisturbed p) : step.Undisturbed q := by
  refine ⟨?_, h.2⟩
  cases step with
  | call => exact hpq _ h.1
  | force => exact ⟨hpq _ h.1.1, h.1.2⟩
  | overwrite | setRecord => exact h.1.elim
  | _ => trivial

namespace Breaker

variable {key : String} (b : Breaker)

theorem transitions_tidings (old new : Status) :
    (b.tidings key old new).filterMap (Event.transition? key) = [(old, new)] := by
  have hresponses : (b.listeners.mapIdx fun j l =>
      l.response b.number j key old new).reverse.filterMap (Event.transition? key) = [] := by
    refine List.filterMap_eq_nil_iff.2 fun e he => ?_
    obtain ⟨j, hj, rfl⟩ := List.mem_mapIdx.1 (List.mem_reverse.1 he)
    cases b.listeners[j] <;> rfl
  rw [tidings, List.filterMap_append, hresponses, List.nil_append]
  simp [Event.transition?]

theorem transitions_tidingsOf (ts : List (Status × Status)) :
    (b.tidingsOf key ts).filterMap (Event.transition? key) = ts := by
  induction ts with
  | nil => rfl
  | cons p ts ih =>
      rw [tidingsOf, List.flatMap_cons, List.filterMap_append, transitions_tidings]
      exact congrArg (p :: ·) ih

theorem newsKey?_of_mem_tidingsOf {ts : List (Status × Status)} {e : Event}
    (h : e ∈ b.tidingsOf key ts) : e.newsKey? = some key := by
  obtain ⟨p, -, he⟩ := List.mem_flatMap.1 h
  exact newsKey?_of_mem_tidings he

end Breaker

def Stand.actor? (st : Stand) : Option Breaker :=
  match st.place, st.frames with
  | .acting op, _ => some op.breaker
  | .working, f :: _ | .atGate _, f :: _ => some f.breaker
  | _, _ => none

namespace Turn

variable {σ σ' : Scene} {st st' : Stand}

/-- A turn stores and announces nothing, or what its breaker stores and announces for its key. -/
theorem silent_or_speaks (h : Turn σ st σ' st') (hq : σ.Quiet) (hm : σ.store.hasLocks = true)
    (hst : st.Grounded Breaker.Polite σ) (hcurrent : ∀ f ∈ st.frames, f.Current σ) :
    (σ'.news = σ.news ∧ σ'.store = σ.store) ∨ ∃ b key x ts rs, st.actor? = some b ∧
      σ.store.lookup key = .ok x ∧ b.Speaks key x σ ts rs σ' := by
  have hcalls : ∀ {b key w inner fs}, st = ⟨.acting (.call b key w inner), fs⟩ → b.Polite := by
    rintro b key w inner fs rfl
    have hb : Step.Everywhere (Step.Undisturbed Breaker.Polite) (.call b key w inner) :=
      hst.obeys.operating (.inr (.inr rfl))
    exact hb.self.1
  cases h with
  | plays ha =>
      have hstep := (hst.obeys.starting rfl).self
      have hnews := Step.act?_keeps sameNews_steady.toAccessSteady (fun _ _ => rfl) (fun _ _ => rfl) ha
      exact .inl ⟨hnews σ, (Step.act?_isIdle ha hstep σ hq).store⟩
  | @opens _ b k w inner fs _ hp | @ends _ b k w inner fs _ hp | @breaks _ b k w inner fs _ hp =>
      obtain ⟨x, hx⟩ := Store.lookup_of_hasLocks hm k
      obtain ⟨ts, rs, hs⟩ := Breaker.enterCall_speaks (hcalls rfl) hq hx hp
      exact .inr ⟨b, k, x, ts, rs, rfl, hx, hs⟩
  | @forces σ₁ b k target attempt fs previous r hp =>
      obtain ⟨x, ts, rs, hx, hs⟩ :=
        Breaker.force_speaks (hst.obeys.operating (.inr (.inr rfl))).1.1 hq hp
      exact .inr ⟨b, k, x, ts, rs, rfl, hx, hs⟩
  | retries hp hf =>
      cases Breaker.overwritten_of_play hq hp with
      | failed hf' => rw [hf'] at hf; cases hf
  | @fails _ b k target attempt fs f hp =>
      have hn := b.keeps_overwriteOnce k sameNews_steady.toAccessSteady target σ
      rw [hp] at hn
      cases Breaker.overwritten_of_play hq hp with
      | failed _ hl => exact .inl ⟨hn, hl.store.lookup_nil⟩
  | @concludes p f fs result hends =>
      obtain ⟨x, hx, hc, hmark⟩ := hcurrent f List.mem_cons_self
      obtain ⟨ts, rs, hs⟩ := Breaker.conclude_speaks (hst.breakers f List.mem_cons_self) hq hx
        hc.version hmark rfl
      refine .inr ⟨f.breaker, f.key, x, ts, rs, ?_, hx, hs⟩
      obtain ⟨rfl, -⟩ | ⟨⟨gate, rfl⟩, -⟩ := hends <;> rfl
  | resumes => exact .inl ⟨σ.news_seeing_of_not_news rfl, rfl⟩
  | _ => exact .inl ⟨rfl, rfl⟩

end Turn

/-- The mark that transitions leave, the latest of which stands first. -/
def markAfter : List (Status × Status) → Option Status × Status
  | [] => (none, .closed)
  | (old, new) :: _ => (some old, new)

/-- Every transition goes on from where the one before it has led, the first from closed, and leads
somewhere else. -/
def Chained : List (Status × Status) → Prop
  | [] => True
  | (old, new) :: ts => old = (markAfter ts).2 ∧ old ≠ new ∧ Chained ts

theorem Path.chained {us ts : List (Status × Status)} {m m' : Option Status × Status}
    (h : Path m ts m') (hm : m = markAfter us) (hus : Chained us) :
    Chained (ts ++ us) ∧ m' = markAfter (ts ++ us) := by
  induction h with
  | refl => exact ⟨hus, hm⟩
  | @step ts previous old new _ hne ih =>
      obtain ⟨hchained, hmark⟩ := ih
      exact ⟨⟨congrArg Prod.snd hmark, hne, hchained⟩, rfl⟩

namespace Schedule

variable {key : String} {s : Schedule} {ts : List (Breaker × Status × Status)}

def actor? (s : Schedule) : Option Breaker := do
  let i ← s.ready.head?
  let st ← s.stands[i]?
  st.actor?

/-- The transitions of the key that are logged in the next turn, latest first, each with the breaker
that makes it. -/
def making (key : String) (s : Schedule) : List (Breaker × Status × Status) :=
  match s.actor? with
  | some b =>
    ((s.tick.scene.logged key).take
      ((s.tick.scene.logged key).length - (s.scene.logged key).length)).map fun p => (b, p)
  | none => []

/-- The transitions of the key that are logged in a run, on top of earlier ones. -/
def made (key : String) (s : Schedule) :
    List Move → List (Breaker × Status × Status) → List (Breaker × Status × Status)
  | [], ts => ts
  | .submit step :: ms, ts => (s.add step).made key ms ts
  | .turn :: ms, ts => s.tick.made key ms (s.making key ++ ts)

/-- What is announced for a key is what is stored. -/
structure Announced (key : String) (s : Schedule) (ts : List (Breaker × Status × Status)) : Prop where
  logged : s.scene.logged key = ts.map (·.2)
  /-- Every transition is made known once, by the log of its breaker and to each of its listeners. -/
  told : s.scene.newsOf key = ts.flatMap fun a => a.1.tidings key a.2.1 a.2.2
  chained : Chained (ts.map (·.2))
  /-- The record tells of the latest transition; without one it is closed, if it is there. -/
  stored : ∃ x, s.scene.store.lookup key = .ok x ∧ Record.markOf x = markAfter (ts.map (·.2))

theorem making_of_actor {b : Breaker} {us : List (Status × Status)} (hb : s.actor? = some b)
    (h : s.tick.scene.logged key = us ++ s.scene.logged key) :
    s.making key = us.map fun p => (b, p) := by
  unfold making
  rw [hb, h, List.length_append, Nat.add_sub_cancel, List.take_left]

theorem making_of_silent (h : s.tick.scene.logged key = s.scene.logged key) :
    s.making key = [] := by
  unfold making
  rw [h, Nat.sub_self, List.take_zero]
  split <;> rfl

namespace Announced

theorem tick_of_silent (h : s.Announced key ts) (hnews : s.tick.scene.newsOf key = s.scene.newsOf key)
    (hstore : s.tick.scene.store.lookup key = s.scene.store.lookup key) :
    s.tick.Announced key (s.making key ++ ts) := by
  have hlogged : s.tick.scene.logged key = s.scene.logged key := by
    rw [Scene.logged_eq, hnews, ← Scene.logged_eq]
  rw [making_of_silent hlogged, List.nil_append]
  exact ⟨hlogged.trans h.logged, hnews.trans h.told, h.chained, hstore ▸ h.stored⟩

theorem tick_of_speaks {b : Breaker} {x : Option Record} {us : List (Status × Status)} {rs : List Record}
    (h : s.Announced key ts) (hb : s.actor? = some b) (hx : s.scene.store.lookup key = .ok x)
    (hs : b.Speaks key x s.scene us rs s.tick.scene) : s.tick.Announced key (s.making key ++ ts) := by
  have hnews : s.tick.scene.newsOf key = b.tidingsOf key us ++ s.scene.newsOf key :=
    Scene.newsOf_of_news (fun e he => b.newsKey?_of_mem_tidingsOf he) hs.news
  have hlogged : s.tick.scene.logged key = us ++ s.scene.logged key := by
    rw [Scene.logged_eq, hnews, List.filterMap_append, b.transitions_tidingsOf, ← Scene.logged_eq]
  have hmaking := making_of_actor hb hlogged
  have hmap : (s.making key ++ ts).map (·.2) = us ++ ts.map (·.2) := by
    rw [hmaking, List.map_append, List.map_map]
    exact congrArg (· ++ _) (List.map_id us)
  obtain ⟨y, hy, hm⟩ := h.stored
  rw [hx] at hy
  cases hy
  obtain ⟨hchained, hmark⟩ := hs.path.chained hm h.chained
  refine ⟨?_, ?_, ?_, _, hs.gains.store.lookup hx, ?_⟩
  · rw [hlogged, h.logged, hmap]
  · rw [hnews, h.told, hmaking, List.flatMap_append, List.flatMap_map, Breaker.tidingsOf]
  · rw [hmap]
    exact hchained
  · rw [hmap]
    exact hmark

theorem tick (h : s.Announced key ts) (hs : s.Unopposed) (hg : s.Grounded Breaker.Polite) :
    s.tick.Announced key (s.making key ++ ts) := by
  rcases s.tick_moves with ⟨hscene, -, -⟩ | ⟨i, st, hi, hst, st', hturn, -⟩
  · exact h.tick_of_silent (by rw [hscene]) (by rw [hscene])
  · have hmem := List.mem_of_getElem? hst
    rcases hturn.silent_or_speaks hg.scene hs.hasLocks (hg.stands st hmem) (hs.current st hmem) with
      ⟨hnews, hstore⟩ | ⟨b, k, x, us, rs, hb, hx, hspeaks⟩
    · exact h.tick_of_silent (by rw [Scene.newsOf, hnews, ← Scene.newsOf]) (by rw [hstore])
    · by_cases hk : k = key
      · subst hk
        refine h.tick_of_speaks ?_ hx hspeaks
        unfold actor?
        rw [hi, Option.bind_eq_bind, Option.bind_some, hst]
        exact hb
      · refine h.tick_of_silent ?_ (hspeaks.gains.store.lookup_of_ne (Ne.symm hk))
        rw [Scene.newsOf, hspeaks.news, List.filter_append, List.filter_eq_nil_iff.2 fun e he => ?_]
        · rfl
        · rw [b.newsKey?_of_mem_tidingsOf he, decide_eq_true_eq]
          exact fun he => hk (Option.some.inj he)

theorem after (h : s.Announced key ts) (hs : s.Unopposed) (hg : s.Grounded Breaker.Polite)
    {ms : List Move}
    (hsteps : ∀ step, .submit step ∈ ms → step.Everywhere (Step.Undisturbed Breaker.Polite)) :
    (s.after ms).Announced key (s.made key ms ts) := by
  induction ms generalizing s ts with
  | nil => exact h
  | cons m ms ih =>
      have hms : ∀ step, .submit step ∈ ms → step.Everywhere (Step.Undisturbed Breaker.Polite) :=
        fun step hs => hsteps step (List.mem_cons_of_mem _ hs)
      have hm : ∀ step, m = .submit step → step.Everywhere (Step.Undisturbed Breaker.Polite) :=
        fun step hm => hsteps step (hm ▸ List.mem_cons_self)
      have hs' : (s.after [m]).Unopposed := hs.after fun step hin =>
        (hm step (List.mem_singleton.1 hin).symm).mono fun _ hstep => hstep.mono fun _ _ => trivial
      cases m with
      | submit step => exact ih ⟨h.logged, h.told, h.chained, h.stored⟩ hs' (hg.move hm) hms
      | turn => exact ih (h.tick hs hg) hs' (hg.move hm) hms

end Announced

/-- Over a store in memory that starts empty, whatever the schedule and the clocks: for every key the
transitions that breakers log form a chain that starts from closed, every one of them is told once to
every listener of its breaker, and the stored record tells of the last. Listeners come back at once,
with ordinary failures at most. -/
theorem transitions_announced (t : Instant) {ms : List Move}
    (hsteps : ∀ step, .submit step ∈ ms → step.Everywhere (Step.Undisturbed Breaker.Polite))
    (key : String) :
    ((atRest t (.memory [])).after ms).Announced key
      ((atRest t (.memory [])).made key ms []) := by
  have hstart : (atRest t (.memory [])).Announced key [] :=
    ⟨rfl, rfl, trivial, none, rfl, rfl⟩
  exact hstart.after (unopposed_atRest t) (grounded_of_no_tasks rfl fun _ => rfl) hsteps

def tripAndProbe : List Move :=
  [.submit (.force { listeners := [.logging] } "k" .open)] ++ List.replicate 4 .turn ++
    [.submit (.advance (Binary64.ofInt 30))] ++ List.replicate 2 .turn ++
    [.submit (.call { number := 1 } "k" {} [])] ++ List.replicate 5 .turn

theorem transitions_announced_of_tripAndProbe :
    (∀ step, .submit step ∈ tripAndProbe → step.Everywhere (Step.Undisturbed Breaker.Polite)) ∧
      (((atRest beginning (.memory [])).made "k" tripAndProbe []).map fun a =>
        (a.1.number, a.2)) = [(1, .open, .halfOpen), (0, .closed, .open)] ∧
      ((atRest beginning (.memory [])).after tripAndProbe).Announced "k"
        ((atRest beginning (.memory [])).made "k" tripAndProbe []) := by
  have hsteps : ∀ step, .submit step ∈ tripAndProbe →
      step.Everywhere (Step.Undisturbed Breaker.Polite) := by
    simp [tripAndProbe, Step.Everywhere, Step.EverywhereIn, Step.Undisturbed, Step.ByBreakers,
      Step.Faultless, Breaker.Polite, Listener.Polite]
  exact ⟨hsteps, by decide +kernel, transitions_announced beginning hsteps "k"⟩

end Schedule

namespace Throng

def brittle : Breaker :=
  { config := { failureThreshold := 1 }, listeners := [.recording none []] }

/-- A call that fails, until its listener is told what follows from that. -/
def failedCall (i : Nat) : List Move :=
  [.join (.call brittle "k"), .go i .enter [],
    .go i (.conclude (.error (.plain .value (some "bad")))) []]

def toldFirst : Throng :=
  ({ scene := { now := Schedule.beginning, store := .memory [] } } : Throng).after (failedCall 0)

def isBlocked (s : Throng) : Bool :=
  s.parties.all fun p =>
    match p.standing with
    | .waiting _ | .over _ => true
    | _ => false

/-- A transition at the end of a call is announced before it is stored: it is not stored as long as a
listener keeps the call waiting, nor when the call is cancelled there, and the next call announces it
again. -/
theorem announced_before_stored :
    (toldFirst.isBlocked = true ∧ toldFirst.scene.logged "k" = [(.closed, .open)] ∧
      (toldFirst.scene.store.lookup "k").toOption = some none) ∧
    let cancelled := toldFirst.after (.go 0 (.answer (.error .cancellation)) [] :: failedCall 1)
    cancelled.isBlocked = true ∧ cancelled.scene.logged "k" = [(.closed, .open), (.closed, .open)] ∧
      (cancelled.scene.store.lookup "k").toOption = some none := by
  decide +kernel

end Throng

end KeyedBreaker
