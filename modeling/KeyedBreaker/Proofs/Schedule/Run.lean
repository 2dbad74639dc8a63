import KeyedBreaker.Proofs.Schedule.Turn
import KeyedBreaker.Schedule.Run

namespace KeyedBreaker

/-- A new task, or a bit of progress of the task that is first in line. -/
inductive Move where
  | submit (step : Step)
  | turn

namespace Move

def step? : Move → Option Step
  | .submit step => some step
  | .turn => none

end Move

mutual

/-- The step and all steps that are made from inside it satisfy a condition. -/
def Step.Everywhere (p : Step → Prop) : Step → Prop
  | .call b key work inner => p (.call b key work inner) ∧ Step.EverywhereIn p inner
  | step => p step

def Step.EverywhereIn (p : Step → Prop) : List Step → Prop
  | [] => True
  | step :: steps => step.Everywhere p ∧ Step.EverywhereIn p steps

end

theorem Step.Everywhere.self {p : Step → Prop} {step : Step} (h : step.Everywhere p) : p step := by
  cases step with
  | call => exact h.1
  | _ => exact h

namespace Operation

def step : Operation → Step
  | .call b key work inner => .call b key work inner
  | .force b key target _ => .force b key target

end Operation

/-- All steps that a task makes or has still to make satisfy a condition. -/
structure Stand.Obeys (p : Step → Prop) (st : Stand) : Prop where
  starting : ∀ {step}, st.place = .starting step → step.Everywhere p
  operating : ∀ {op}, st.place = .requesting op ∨ st.place = .queued op ∨ st.place = .acting op →
    op.step.Everywhere p
  frames : ∀ f ∈ st.frames, Step.EverywhereIn p f.inner

theorem Stand.obeys_starting {p : Step → Prop} {step : Step} (h : step.Everywhere p) :
    Stand.Obeys p ⟨.starting step, []⟩ where
  starting he := by
    cases he
    exact h
  operating he := by rcases he with he | he | he <;> cases he
  frames _ hf := absurd hf List.not_mem_nil

namespace Turn

variable {σ σ' : Scene} {st st' : Stand} {p : Step → Prop}

theorem obeys_of_place {q : Place} {fs : List Frame}
    (hq : (∀ step, q ≠ .starting step) ∧ ∀ op, q ≠ .requesting op ∧ q ≠ .queued op ∧ q ≠ .acting op)
    (hf : ∀ f ∈ fs, Step.EverywhereIn p f.inner) : Stand.Obeys p ⟨q, fs⟩ where
  starting h := absurd h (hq.1 _)
  operating h := by
    obtain ⟨h₁, h₂, h₃⟩ := hq.2 ‹_›
    rcases h with h | h | h
    · exact absurd h h₁
    · exact absurd h h₂
    · exact absurd h h₃
  frames := hf

theorem everywhere_operation {step : Step} {op : Operation} (h : step.operation? = some op)
    (hs : step.Everywhere p) : op.step.Everywhere p := by
  cases step <;> cases h <;> exact hs

theorem obeys_of_operation {q : Place} {op : Operation} {fs : List Frame}
    (hq : q = .requesting op ∨ q = .queued op ∨ q = .acting op) (ho : op.step.Everywhere p)
    (hf : ∀ f ∈ fs, Step.EverywhereIn p f.inner) : Stand.Obeys p ⟨q, fs⟩ where
  starting h := by rcases hq with rfl | rfl | rfl <;> cases h
  operating h := by
    rcases hq with rfl | rfl | rfl <;> rcases h with h | h | h <;> cases h <;> exact ho
  frames := hf

theorem obeys (h : Turn σ st σ' st') (hst : st.Obeys p) : st'.Obeys p := by
  have hf := hst.frames
  cases h with
  | asks ho =>
      exact obeys_of_operation (.inl rfl) (everywhere_operation ho (hst.starting rfl)) hf
  | waits => exact obeys_of_operation (.inr (.inl rfl)) (hst.operating (.inl rfl)) hf
  | enters => exact obeys_of_operation (.inr (.inr rfl)) (hst.operating (.inl rfl)) hf
  | wakes => exact obeys_of_operation (.inr (.inr rfl)) (hst.operating (.inr (.inl rfl))) hf
  | retries =>
      have ho := hst.operating (.inr (.inr rfl))
      exact obeys_of_operation (.inl rfl) ho hf
  | opens =>
      refine obeys_of_place (by simp) ?_
      have ho : Step.Everywhere p (.call _ _ _ _) := hst.operating (.inr (.inr rfl))
      rw [Step.Everywhere] at ho
      exact List.forall_mem_cons.2 ⟨ho.2, hf⟩
  | nests hi =>
      have hin := hf _ List.mem_cons_self
      rw [hi, Step.EverywhereIn] at hin
      refine ⟨fun h => ?_, fun h => ?_, ?_⟩
      · cases h
        exact hin.1
      · rcases h with h | h | h <;> cases h
      · exact List.forall_mem_cons.2 ⟨hin.2, fun f hm => hf f (List.mem_cons_of_mem _ hm)⟩
  | concludes => exact obeys_of_place (by simp) fun f hm => hf f (List.mem_cons_of_mem _ hm)
  | _ => exact obeys_of_place (by simp) hf

theorem mem_frames (h : Turn σ st σ' st') {f' : Frame} (hf : f' ∈ st'.frames) :
    (∃ f ∈ st.frames, ∃ inner, f' = { f with inner }) ∨
      ∃ b key w inner o, st.place = .acting (.call b key w inner) ∧
        (b.enterCall key w).play σ = (.ok (.running o), σ') ∧
        f' = ⟨b, key, o, inner, w.gate, w.result⟩ := by
  cases h with
  | opens he =>
      rcases List.mem_cons.1 hf with rfl | hf
      · exact .inr ⟨_, _, _, _, _, rfl, he, rfl⟩
      · exact .inl ⟨f', hf, f'.inner, rfl⟩
  | nests hi =>
      rcases List.mem_cons.1 hf with rfl | hf
      · exact .inl ⟨_, List.mem_cons_self, _, rfl⟩
      · exact .inl ⟨f', List.mem_cons_of_mem _ hf, f'.inner, rfl⟩
  | concludes => exact .inl ⟨f', List.mem_cons_of_mem _ hf, f'.inner, rfl⟩
  | _ => exact .inl ⟨f', hf, f'.inner, rfl⟩

end Turn

namespace Schedule

variable {s : Schedule} {I : Scene → Prop} {J : Scene → Stand → Prop}

/-- The first instant of a clock without an offset. -/
def beginning : Instant := ⟨0, none, by decide⟩

/-- Nothing is going on yet over a store. -/
def atRest (t : Instant) (store : Store) : Schedule := { scene := { now := t, store } }

def move (s : Schedule) : Move → Schedule
  | .submit step => s.add step
  | .turn => s.tick

def after (s : Schedule) (ms : List Move) : Schedule := ms.foldl move s

@[simp] theorem after_nil : s.after [] = s := rfl

@[simp] theorem after_cons (m : Move) (ms : List Move) :
    s.after (m :: ms) = (s.move m).after ms := rfl

theorem after_append (ms ms' : List Move) : s.after (ms ++ ms') = (s.after ms).after ms' :=
  List.foldl_append

theorem after_concat (ms : List Move) (m : Move) :
    s.after (ms ++ [m]) = (s.after ms).move m := by
  rw [after_append]
  rfl

/-- What every move keeps holds at the end of a run. -/
theorem after_induction {P : Schedule → Prop} {Q : Step → Prop}
    (hmove : ∀ s m, P s → (∀ step, m = .submit step → Q step) → P (s.move m)) (h : P s)
    {ms : List Move} (hsteps : ∀ step, .submit step ∈ ms → Q step) : P (s.after ms) := by
  induction ms generalizing s with
  | nil => exact h
  | cons m ms ih =>
      exact ih (hmove s m h fun step hm => hsteps step (hm ▸ List.mem_cons_self))
        fun step hs => hsteps step (List.mem_cons_of_mem _ hs)

/-- The clock never goes backwards in a run. -/
def Forward (s : Schedule) : List Move → Prop
  | [] => True
  | m :: ms => (s.move m).scene.now.reaches s.scene.now = .ok true ∧ (s.move m).Forward ms

theorem after_induction_forward {P : Schedule → Prop} {Q : Step → Prop}
    (hmove : ∀ s m, P s → (∀ step, m = .submit step → Q step) →
      (s.move m).scene.now.reaches s.scene.now = .ok true → P (s.move m)) (h : P s)
    {ms : List Move} (hsteps : ∀ step, .submit step ∈ ms → Q step) (hforward : s.Forward ms) :
    P (s.after ms) := by
  induction ms generalizing s with
  | nil => exact h
  | cons m ms ih =>
      refine ih (hmove s m h (fun step hm => hsteps step (hm ▸ List.mem_cons_self)) hforward.1)
        (fun step hs => hsteps step (List.mem_cons_of_mem _ hs)) hforward.2

/-- A condition holds whenever a turn is taken in a run. -/
def AtTurns (p : Schedule → Prop) (s : Schedule) : List Move → Prop
  | [] => True
  | .submit step :: ms => (s.add step).AtTurns p ms
  | .turn :: ms => p s ∧ s.tick.AtTurns p ms

theorem stands_add (step : Step) : (s.add step).stands = s.stands ++ [⟨.starting step, []⟩] := by
  rw [stands, add, List.map_append, stands]
  rfl

/-- The next turn opens the call, whose function then runs. -/
structure Opens (s : Schedule) (i : Nat) (f : Frame) (w : Work) : Prop where
  head : s.ready.head? = some i
  acting : ∃ inner fs, s.stands[i]? = some ⟨.acting (.call f.breaker f.key w inner), fs⟩
  plays : (f.breaker.enterCall f.key w).play s.scene = (.ok (.running f.opening), s.tick.scene)
  gate : f.gate = w.gate
  result : f.result = w.result

theorem exists_opens (htasks : s.tasks = []) {ms : List Move} {i : Nat} {st : Stand} {f : Frame}
    (hst : (s.after ms).stands[i]? = some st) (hf : f ∈ st.frames) :
    ∃ before later w, ms = before ++ .turn :: later ∧ (s.after before).Opens i f w := by
  induction ms using List.reverseRecOn generalizing i st f with
  | nil =>
      rw [after_nil, stands, htasks] at hst
      cases hst
  | append_singleton ms m ih =>
      -- a call that was running before was opened before, whatever its function has still to do
      have hkept : ∀ {j : Nat} {st : Stand} {g : Frame}, (s.after ms).stands[j]? = some st →
          g ∈ st.frames → ∀ inner, ∃ before later w, ms ++ [m] = before ++ .turn :: later ∧
            (s.after before).Opens j { g with inner } w := by
        intro j st g hst hg inner
        obtain ⟨before, later, w, rfl, hopens⟩ := ih hst hg
        refine ⟨before, later ++ [m], w, by rw [List.append_assoc, List.cons_append], ?_⟩
        exact ⟨hopens.head, hopens.acting, hopens.plays, hopens.gate, hopens.result⟩
      rw [after_concat] at hst
      cases m with
      | submit step =>
          rw [move, stands_add] at hst
          rcases Nat.lt_or_ge i (s.after ms).stands.length with hlt | hge
          · rw [List.getElem?_append_left hlt] at hst
            exact hkept hst hf f.inner
          · rw [List.getElem?_append_right hge] at hst
            rw [List.mem_singleton.1 (List.mem_of_getElem? hst)] at hf
            exact absurd hf List.not_mem_nil
      | turn =>
          rw [move] at hst
          rcases (s.after ms).tick_moves with ⟨-, hstands, -⟩ | ⟨j, st₀, hj, hst₀, st', hturn, hstands⟩ <;>
            rw [hstands] at hst
          · exact hkept hst hf f.inner
          · by_cases hij : j = i
            · subst hij
              rw [List.getElem?_set_self (List.getElem?_eq_some_iff.1 hst₀).1] at hst
              cases hst
              rcases hturn.mem_frames hf with ⟨g, hg, inner, rfl⟩ | ⟨b, k, w, inner, o, hp, he, rfl⟩
              · exact hkept hst₀ hg inner
              · obtain ⟨place, fs⟩ := st₀
                cases hp
                exact ⟨ms, [], w, rfl, hj, ⟨inner, fs, hst₀⟩, he, rfl, rfl⟩
            · rw [List.getElem?_set_ne hij] at hst
              exact hkept hst hf f.inner

theorem runFor_eq_after (n : Nat) (s : Schedule) :
    ∃ k, s.runFor n = s.after (List.replicate k .turn) := by
  induction n generalizing s with
  | zero => exact ⟨0, rfl⟩
  | succ n ih =>
      rw [runFor]
      split
      · exact ⟨0, rfl⟩
      · obtain ⟨k, hk⟩ := ih s.tick
        exact ⟨k + 1, hk⟩

theorem submit_eq_after (s : Schedule) (step : Step) :
    ∃ k, s.submit step = s.after (.submit step :: List.replicate k .turn) :=
  runFor_eq_after _ (s.add step)

theorem submitAll_eq_after (s : Schedule) (steps : List Step) :
    ∃ ms, (s.submitAll steps).2 = s.after ms ∧ ms.filterMap Move.step? = steps := by
  induction steps generalizing s with
  | nil => exact ⟨[], rfl, rfl⟩
  | cons step steps ih =>
      obtain ⟨k, hk⟩ := s.submit_eq_after step
      obtain ⟨ms, hms, hsteps⟩ := ih (s.submit step)
      refine ⟨.submit step :: List.replicate k .turn ++ ms, ?_, ?_⟩
      · rw [after_append, ← hk]
        exact hms
      · have hturns : (List.replicate k Move.turn).filterMap Move.step? = [] :=
          List.filterMap_eq_nil_iff.2 fun m hm => by rw [List.eq_of_mem_replicate hm]; rfl
        rw [List.cons_append, List.filterMap_cons, List.filterMap_append, hturns, hsteps]
        rfl

structure Holds (I : Scene → Prop) (J : Scene → Stand → Prop) (s : Schedule) : Prop where
  scene : I s.scene
  stands : ∀ st ∈ s.stands, J s.scene st

theorem holds_of_no_tasks (htasks : s.tasks = []) (h : I s.scene) : s.Holds I J := by
  refine ⟨h, fun st hst => ?_⟩
  rw [stands, htasks] at hst
  exact absurd hst List.not_mem_nil

theorem Holds.add (h : s.Holds I J) {step : Step} (hj : J s.scene ⟨.starting step, []⟩) :
    (s.add step).Holds I J := by
  refine ⟨h.scene, fun st hst => ?_⟩
  rw [stands_add] at hst
  rcases List.mem_append.1 hst with hst | hst
  · exact h.stands st hst
  · rw [List.mem_singleton.1 hst]
    exact hj

/-- A turn that keeps the conditions for the scene, for its own task and for any other keeps them for
all. -/
theorem Holds.tick (h : s.Holds I J)
    (hturn : ∀ st st', J s.scene st → Turn s.scene st s.tick.scene st' →
      I s.tick.scene ∧ J s.tick.scene st' ∧ ∀ other, J s.scene other → J s.tick.scene other) :
    s.tick.Holds I J := by
  rcases s.tick_moves with ⟨hscene, hstands, -⟩ | ⟨i, st, -, hst, st', ht, hstands⟩
  · refine ⟨hscene ▸ h.scene, ?_⟩
    rw [hstands, hscene]
    exact h.stands
  · obtain ⟨hI, hJ, hother⟩ := hturn st st' (h.stands st (List.mem_of_getElem? hst)) ht
    refine ⟨hI, fun other hmem => ?_⟩
    rw [hstands] at hmem
    rcases List.mem_or_eq_of_mem_set hmem with hmem | rfl
    · exact hother other (h.stands other hmem)
    · exact hJ

theorem obeys_after {p : Step → Prop} (htasks : s.tasks = []) {ms : List Move}
    (hsteps : ∀ step, .submit step ∈ ms → step.Everywhere p) : ∀ st ∈ (s.after ms).stands, st.Obeys p := by
  have hstart : s.Holds (fun _ => True) fun _ st => st.Obeys p := holds_of_no_tasks htasks trivial
  refine (after_induction (fun s m h hm => ?_) hstart hsteps).stands
  cases m with
  | submit step => exact h.add (Stand.obeys_starting (hm step rfl))
  | turn => exact h.tick fun st st' hst hturn => ⟨trivial, hturn.obeys hst, fun _ => id⟩

end Schedule

end KeyedBreaker
