import KeyedBreaker.Proofs.Breaker.Calm
import KeyedBreaker.Proofs.Schedule.Weathered

namespace KeyedBreaker

open Act

def Failure.Counts (c : Config) (f : Failure) : Prop := f.isOrdinary = true ∧ c.counts f = .ok true

/-- The task, if it is its turn, trips the key, or takes up a function of a call of the key that has ended
with a failure that counts, or one that ends so as it starts. -/
inductive Stand.ToBlame (c : Config) (key : String) (σ : Scene) : Stand → Prop
  | trips {b attempt fs} : ToBlame c key σ ⟨.acting (.force b key .open attempt), fs⟩
  | starts {b w inner fs f} : ((w.start key).play σ).1 = .error f → f.Counts c →
      ToBlame c key σ ⟨.acting (.call b key w inner), fs⟩
  | ends {p f fs g} : f.key = key → p = .working ∧ f.inner = [] ∨ (∃ gate, p = .atGate gate) →
      f.result = .error g → g.Counts c → ToBlame c key σ ⟨p, f :: fs⟩

structure Frame.Tolerable (c : Config) (f : Frame) : Prop where
  config : f.breaker.config = c
  record : f.opening.record.Tolerable c
  runs : f.opening.record.status.rejects = false

variable {c : Config} {σ σ' : Scene} {st st' : Stand} {key : String}

theorem Record.uncounted_of_not_counts {α : Type} {result : Except Failure α}
    (h : ∀ f, result = .error f → ¬ f.Counts c) : Uncounted c result :=
  fun f hf hordinary hcounts => h f hf ⟨hordinary, hcounts⟩

namespace Turn

variable (hc : c.check = .ok ()) (hσ : σ.AllCalm c)

include hc hσ

theorem Course.calm (h : Course (·.config = c) σ st σ') (hframes : ∀ f ∈ st.frames, f.Tolerable c) :
    ∃ k rs, σ.store.Grows k rs σ'.store ∧ ∀ r ∈ rs, r.Calm c σ.now := by
  cases h with
  | idle hstore => exact ⟨"", [], hstore ▸ .refl, fun _ hr => by cases hr⟩
  | calls _ hb _ hcalled =>
      subst hb
      obtain ⟨⟨rs, hg, hrs⟩, -⟩ := hcalled.calm hc hσ
      exact ⟨_, rs, hg, hrs⟩
  | forces _ hb _ hforced hw _ =>
      obtain ⟨rfl, -⟩ := hb
      refine ⟨_, _, hw.store, ?_⟩
      cases hforced with
      | failed => exact fun _ hr => by cases hr
      | kept _ _ he => exact List.forall_mem_singleton.2 (Breaker.calm_of_forced hc he).next
  | concludes hfs _ _ hended hw =>
      obtain ⟨rfl, hrecord, -⟩ := hframes _ (hfs ▸ List.mem_cons_self)
      exact ⟨_, _, hw.store, hended.calm hc (hrecord.counted.settle _)⟩

/-- A turn opens no circuit that lets calls through, unless its task is to blame. -/
theorem Course.transits (h : Course (·.config = c) σ st σ')
    (hframes : ∀ f ∈ st.frames, f.Tolerable c) (hblame : ¬ st.ToBlame c key σ) :
    σ.Transits key Harmless σ' := by
  obtain ⟨place, fs⟩ := st
  cases h with
  | idle hstore _ hlogged =>
      have hn : σ.Noted key [] [] σ' := Scene.noted_of_same hstore hlogged
      exact hn.transits (fun _ hp => by cases hp) (fun _ _ _ hr => by cases hr) key
  | @calls b k w inner out hp hb _ hcalled =>
      obtain rfl : place = .acting (.call b k w inner) := hp
      subst hb
      by_cases hk : key = k
      · subst hk
        refine hcalled.transits hc hσ (Record.uncounted_of_not_counts fun f hf hcounts => ?_) key
        exact hblame (.starts hf hcounts)
      · obtain ⟨rs, ts, hn⟩ := hcalled.noted
        exact hn.transits_of_ne hk
  | @forces b k target attempt out σ₁ rs ts hp hb _ hforced hw hts =>
      obtain rfl : place = .acting (.force b k target attempt) := hp
      by_cases hk : key = k
      · subst hk
        have ht : target ≠ .open := by
          rintro rfl
          exact hblame .trips
        refine hw.noted.transits (fun p hp _ => hts p hp ▸ ht) (fun x _ r hr => .inr fun _ => ?_) key
        cases hforced with
        | failed => cases hr
        | kept _ _ he =>
            obtain ⟨entered, hent, rfl⟩ := Breaker.forced_eq_ok he
            rw [List.mem_singleton.1 hr]
            exact fun ho => ht (hent.status.symm.trans ho)
      · exact hw.noted.transits_of_ne hk
  | @concludes f fs result rs ts hfs hplace hresult hended hw =>
      obtain ⟨rfl, hrecord, hruns⟩ := hframes f (hfs ▸ List.mem_cons_self)
      by_cases hk : key = f.key
      · subst hk
        have huncounted : Record.Uncounted f.breaker.config result := by
          refine Record.uncounted_of_not_counts fun g hg hcounts => ?_
          rcases hresult with rfl | rfl
          · obtain rfl : _ = f :: fs := hfs
            exact hblame (.ends rfl hplace hg hcounts)
          · cases hg
            exact Bool.false_ne_true hcounts.1
        obtain ⟨hrs, hts⟩ := hended.harmless (hrecord.settle huncounted)
        refine hw.noted.transits (fun p hp _ => hts p hp) (fun x _ r hr => .inr fun _ ho => ?_) f.key
        have hst := hrs r hr ho
        rw [Record.status_settle] at hst
        rw [hst] at hruns
        cases hruns
      · exact hw.noted.transits_of_ne hk

theorem tolerable (h : Turn σ st σ' st') (hst : st.Obeys (Step.ByBreakers (·.config = c)))
    (hframes : ∀ f ∈ st.frames, f.Tolerable c) : ∀ f ∈ st'.frames, f.Tolerable c := by
  intro f' hf'
  rcases h.mem_frames hf' with ⟨f, hf, inner, rfl⟩ | ⟨b, key, w, inner, o, hplace, hp, rfl⟩
  · exact ⟨(hframes f hf).config, (hframes f hf).record, (hframes f hf).runs⟩
  · have hb : b.config = c := (hst.operating (.inr (.inr hplace))).self
    subst hb
    obtain ⟨-, hrunning⟩ := (Breaker.called_of_play hp).calm hc hσ
    exact ⟨rfl, (hrunning o rfl).1, (hrunning o rfl).2⟩

end Turn

namespace Schedule

variable {s : Schedule} {ms : List Move}

def ToBlame (c : Config) (key : String) (s : Schedule) : Prop :=
  ∃ i st, s.ready.head? = some i ∧ s.stands[i]? = some st ∧ st.ToBlame c key s.scene

/-- The invariant of a run: every record is calm, and every function that is running started with one
that opens no circuit. -/
def Calm (c : Config) (s : Schedule) : Prop :=
  s.Holds (·.AllCalm c) fun _ st =>
    st.Obeys (Step.ByBreakers (·.config = c)) ∧ ∀ f ∈ st.frames, f.Tolerable c

theorem Calm.move (h : s.Calm c) (hc : c.check = .ok ()) {m : Move}
    (hm : ∀ step, m = .submit step → step.Everywhere (Step.ByBreakers (·.config = c)))
    (ht : (s.move m).scene.now.reaches s.scene.now = .ok true) : (s.move m).Calm c := by
  cases m with
  | submit step => exact h.add ⟨Stand.obeys_starting (hm step rfl), fun _ hf => absurd hf List.not_mem_nil⟩
  | turn =>
      refine h.tick fun st st' hst hturn => ?_
      obtain ⟨k, rs, hg, hrs⟩ := (hturn.course hst.1).calm hc h.scene hst.2
      refine ⟨?_, ⟨hturn.obeys hst.1, hturn.tolerable hc h.scene hst.1 hst.2⟩, fun _ => id⟩
      exact h.scene.grows (Record.thresholds_of_check hc).2 hg hrs ht

theorem Calm.after (h : s.Calm c) (hc : c.check = .ok ())
    (hsteps : ∀ step, .submit step ∈ ms → step.Everywhere (Step.ByBreakers (·.config = c)))
    (hforward : s.Forward ms) : (s.after ms).Calm c := by
  induction ms generalizing s with
  | nil => exact h
  | cons m ms ih =>
      obtain ⟨ht, hforward⟩ := hforward
      exact ih (h.move hc (fun step hm => hsteps step (hm ▸ List.mem_cons_self)) ht)
        (fun step hs => hsteps step (List.mem_cons_of_mem _ hs)) hforward

theorem calm_of_empty (htasks : s.tasks = []) (hempty : s.scene.store.writes = []) : s.Calm c := by
  refine holds_of_no_tasks htasks fun key r hr => ?_
  have hmem := Store.mem_writes_of_lookup hr
  rw [hempty] at hmem
  exact absurd hmem List.not_mem_nil

/-- A turn opens no circuit that lets calls through, unless its task is to blame. -/
theorem Calm.transits (h : s.Calm c) (hc : c.check = .ok ()) (hblame : ¬ s.ToBlame c key) :
    s.scene.Transits key Harmless s.tick.scene := by
  rcases s.tick_moves with ⟨hscene, -, -⟩ | ⟨i, st, hi, hst, st', hturn, -⟩
  · rw [hscene]
    refine ⟨⟨[], rfl, fun _ hp => by cases hp⟩, fun x y hx hy => .inl ?_⟩
    rw [hx] at hy
    cases hy
    rfl
  · obtain ⟨hobeys, hframes⟩ := h.stands st (List.mem_of_getElem? hst)
    exact (hturn.course hobeys).transits hc h.scene hframes fun hb => hblame ⟨i, st, hi, hst, hb⟩

/-- Over a store that starts empty, only a trip, or a call of the key whose function ended with a failure
that counts, takes the circuit of a key from closed or half open to open; and what any call does before
its function takes it from open to half open at most. This holds for breakers with one accepted
configuration, whatever the counters, the interleaving, the faults of the store and the functions are, as
long as the clock does not go backwards. -/
theorem opened_by_failure (hc : c.check = .ok ()) (htasks : s.tasks = [])
    (hempty : s.scene.store.writes = [])
    (hsteps : ∀ step, .submit step ∈ ms → step.Everywhere (Step.ByBreakers (·.config = c)))
    (hforward : s.Forward ms) :
    (∀ key, ¬ (s.after ms).ToBlame c key →
        (s.after ms).scene.Transits key (fun old new => old.rejects = false → new ≠ .open)
          (s.after ms).tick.scene) ∧
      ∀ (b : Breaker) key other, b.config = c →
        (s.after ms).scene.Transits other (fun old new => old = .open ∧ new = .halfOpen)
          ((b.begin key).play (s.after ms).scene).2 := by
  have hcalm : (s.after ms).Calm c := (calm_of_empty htasks hempty).after hc hsteps hforward
  refine ⟨fun key => hcalm.transits hc, fun b key other hb => ?_⟩
  subst hb
  exact Breaker.begin_transits hc hcalm.scene key other

def touchy : Breaker := { config := { failureThreshold := 1, failureRatio := Binary64.ofInt 1 } }

def succeedAfterFailure : List Move :=
  [.submit (.call touchy "k" {} []), .turn, .turn, .turn, .turn, .turn,
    .submit (.call touchy "k" { result := .error (.plain .value none) } []), .turn, .turn, .turn,
    .turn, .turn,
    .submit (.call touchy "k" {} []), .turn, .turn, .turn]

theorem opened_by_failure_succeedAfterFailure :
    ((atRest beginning (.memory [])).after succeedAfterFailure).scene.Transits "k"
        (fun old new => old.rejects = false → new ≠ .open)
        ((atRest beginning (.memory [])).after succeedAfterFailure).tick.scene ∧
      ((atRest beginning (.memory [])).after succeedAfterFailure).stands.map (·.frames.length) =
        [0, 0, 1] := by
  have hsteps : ∀ step, .submit step ∈ succeedAfterFailure →
      step.Everywhere (Step.ByBreakers (·.config = touchy.config)) := by
    simp [succeedAfterFailure, Step.Everywhere, Step.EverywhereIn, Step.ByBreakers]
  have hforward : (atRest beginning (.memory [])).Forward succeedAfterFailure := by
    simp only [succeedAfterFailure, Forward]
    decide +kernel
  -- the task whose turn it is ends a function with a value
  have hhead : ((atRest beginning (.memory [])).after succeedAfterFailure).ready.head? = some 2 := by
    decide +kernel
  have hends : ((atRest beginning (.memory [])).after succeedAfterFailure).stands[2]?.all (fun st =>
      st.place.weight ≤ 1 && st.frames.all (·.result.isOk)) = true := by
    decide +kernel
  have hblame : ¬ ((atRest beginning (.memory [])).after succeedAfterFailure).ToBlame touchy.config "k" := by
    rintro ⟨i, st, hi, hst, hb⟩
    rw [hhead] at hi
    cases hi
    rw [hst, Option.all_some, Bool.and_eq_true, decide_eq_true_eq] at hends
    obtain ⟨hweight, hok⟩ := hends
    cases hb with
    | trips | starts =>
        simp only [Place.weight, Operation.weight] at hweight
        omega
    | @ends p f fs g hk hp hr =>
        rw [List.all_cons, hr] at hok
        cases hok
  exact ⟨(opened_by_failure (by decide +kernel) rfl rfl hsteps hforward).1 "k" hblame, by decide +kernel⟩

end Schedule

end KeyedBreaker
