import KeyedBreaker.Schedule.Basic
import KeyedBreaker.Proofs.Scene.Play

namespace KeyedBreaker

/-- Where a task stands, with the calls whose functions are running, innermost first. -/
structure Stand where
  place : Place
  frames : List Frame

def Task.stand (t : Task) : Stand := ⟨t.place, t.frames⟩

def Step.operation? : Step → Option Operation
  | .call b key work inner => some (.call b key work inner)
  | .force b key target => some (.force b key target 1)
  | _ => none

inductive Stand.Halted : Stand → Prop
  | done {fs} : Halted ⟨.done, fs⟩
  | idle : Halted ⟨.working, []⟩
  | atGate {gate} : Halted ⟨.atGate gate, []⟩

/-- The class of the failure with which a step has ended. -/
def Stand.failureClass? (st : Stand) : Option FailureClass :=
  match st.place with
  | .returning (.error f) => some f.cls
  | _ => none

def Stand.completes (key : String) (target : Status) (σ : Scene) (st : Stand) : Bool :=
  match st.place with
  | .acting (.force b k status _) =>
    k = key && status = target && ((b.overwriteOnce k status).play σ).1.isOk
  | _ => false

theorem Stand.completes_iff {key : String} {target : Status} {σ : Scene} {st : Stand} :
    st.completes key target σ = true ↔ ∃ b attempt v σ', st.place = .acting (.force b key target attempt) ∧
      (b.overwriteOnce key target).play σ = (.ok v, σ') := by
  obtain ⟨place, fs⟩ := st
  constructor
  · intro h
    unfold completes at h
    split at h
    · rename_i b k status attempt hp
      simp only [Bool.and_eq_true, decide_eq_true_eq] at h
      obtain ⟨⟨rfl, rfl⟩, hok⟩ := h
      cases hplay : (b.overwriteOnce k status).play σ with
      | mk out σ' =>
          rw [hplay] at hok
          cases out with
          | error f => cases hok
          | ok v => exact ⟨b, attempt, v, σ', hp, hplay⟩
    · cases h
  · rintro ⟨b, attempt, v, σ', hp, hplay⟩
    unfold completes
    rw [hp]
    dsimp only
    rw [hplay]
    simp [Except.isOk, Except.toBool]

open Act

/-- A turn of a task. -/
inductive Turn : Scene → Stand → Scene → Stand → Prop
  | asks {σ step op fs} : step.operation? = some op →
      Turn σ ⟨.starting step, fs⟩ σ ⟨.requesting op, fs⟩
  | plays {σ step a fs} : step.act? = some a →
      Turn σ ⟨.starting step, fs⟩ (a.play σ).2 ⟨.returning (a.play σ).1, fs⟩
  /-- Gates are opened and tasks cancelled, or the task was cancelled itself. -/
  | signals {σ step fs result} : (step.operation?.isSome → result = .error .cancellation) →
      Turn σ ⟨.starting step, fs⟩ σ ⟨.returning result, fs⟩
  | waits {σ op fs} : Turn σ ⟨.requesting op, fs⟩ σ ⟨.queued op, fs⟩
  | enters {σ op fs} : Turn σ ⟨.requesting op, fs⟩ σ ⟨.acting op, fs⟩
  | wakes {σ op fs} : Turn σ ⟨.queued op, fs⟩ σ ⟨.acting op, fs⟩
  | leaves {σ op fs} : Turn σ ⟨.queued op, fs⟩ σ ⟨.returning (.error .cancellation), fs⟩
  | opens {σ σ' b key w inner fs o} : (b.enterCall key w).play σ = (.ok (.running o), σ') →
      Turn σ ⟨.acting (.call b key w inner), fs⟩
        σ' ⟨.working, ⟨b, key, o, inner, w.gate, w.result⟩ :: fs⟩
  | ends {σ σ' b key w inner fs v} : (b.enterCall key w).play σ = (.ok (.ended v), σ') →
      Turn σ ⟨.acting (.call b key w inner), fs⟩ σ' ⟨.returning (.ok (.value v)), fs⟩
  | breaks {σ σ' b key w inner fs f} : (b.enterCall key w).play σ = (.error f, σ') →
      Turn σ ⟨.acting (.call b key w inner), fs⟩ σ' ⟨.returning (.error f), fs⟩
  | forces {σ σ' b key target attempt fs previous r} :
      (b.overwriteOnce key target).play σ = (.ok (previous, r), σ') →
      Turn σ ⟨.acting (.force b key target attempt), fs⟩
        ((b.confirm key target previous).play σ').2
        ⟨.returning (((b.confirm key target previous).play σ').1.map fun _ => .record (some r)), fs⟩
  | retries {σ σ'} {b : Breaker} {key target} {attempt : Nat} {fs f} :
      (b.overwriteOnce key target).play σ = (.error f, σ') → f.isA .stale = true →
      attempt < b.policy.attempts →
      Turn σ ⟨.acting (.force b key target attempt), fs⟩
        ((b.backOff key target attempt).play σ').2
        ⟨.requesting (.force b key target (attempt + 1)), fs⟩
  | fails {σ σ'} {b : Breaker} {key target} {attempt : Nat} {fs f} :
      (b.overwriteOnce key target).play σ = (.error f, σ') →
      (f.isA .stale = true → b.policy.attempts ≤ attempt) →
      Turn σ ⟨.acting (.force b key target attempt), fs⟩ σ' ⟨.returning (.error f), fs⟩
  | nests {σ f fs step inner} : f.inner = step :: inner →
      Turn σ ⟨.working, f :: fs⟩ σ ⟨.starting step, { f with inner } :: fs⟩
  | pauses {σ f fs gate} : Turn σ ⟨.working, f :: fs⟩ σ ⟨.atGate gate, f :: fs⟩
  | concludes {σ p f fs result} :
      p = .working ∧ f.inner = [] ∧ result = f.result ∨
        (∃ gate, p = .atGate gate) ∧ (result = f.result ∨ result = .error .cancellation) →
      Turn σ ⟨p, f :: fs⟩ ((f.breaker.conclude f.key f.opening result).play σ).2
        ⟨.returning (((f.breaker.conclude f.key f.opening result).play σ).1.map .value), fs⟩
  | finishes {σ result} : Turn σ ⟨.returning result, []⟩ σ ⟨.done, []⟩
  | resumes {σ result f fs} :
      Turn σ ⟨.returning result, f :: fs⟩ (σ.seeing [.inner result]) ⟨.working, f :: fs⟩

namespace Schedule

def stands (s : Schedule) : List Stand := s.tasks.map Task.stand

variable {s : Schedule} {i : Nat} {st : Stand} {t : Task} {fs : List Frame}

theorem stands_modifyTask {f : Task → Task} {g : Stand → Stand}
    (h : ∀ t : Task, (f t).stand = g t.stand) (hi : s.stands[i]? = some st) :
    (s.modifyTask i f).stands = s.stands.set i (g st) := by
  have hlt := (List.getElem?_eq_some_iff.1 hi).1
  apply List.ext_getElem?
  intro j
  by_cases hj : i = j
  · subst hj
    rw [List.getElem?_set_self hlt, stands, modifyTask, List.getElem?_map,
      List.getElem?_modify_eq]
    rw [stands, List.getElem?_map] at hi
    obtain ⟨t, ht, rfl⟩ := Option.map_eq_some_iff.1 hi
    rw [ht, Option.map_eq_map, Option.map_some, Option.map_some, h]
  · rw [List.getElem?_set_ne hj, stands, modifyTask, List.getElem?_map,
      List.getElem?_modify_ne _ _ hj, stands, List.getElem?_map]

theorem stands_of_task {t : Task} (ht : s.tasks[i]? = some t) : s.stands[i]? = some t.stand := by
  rw [stands, List.getElem?_map, ht]
  rfl

theorem task_of_stands (hi : s.stands[i]? = some st) : ∃ t, s.tasks[i]? = some t ∧ t.stand = st :=
  Option.map_eq_some_iff.1 ((List.getElem?_map ..).symm.trans hi)

theorem stands_modifyTask_self {f : Task → Task} (h : ∀ t : Task, (f t).stand = t.stand) :
    (s.modifyTask i f).stands = s.stands := by
  apply List.ext_getElem?
  intro j
  rw [stands, modifyTask, stands, List.getElem?_map, List.getElem?_map, List.getElem?_modify]
  cases s.tasks[j]? with
  | none => rfl
  | some t =>
      rw [Option.map_eq_map, Option.map_some, Option.map_some, Option.map_some]
      split
      · rw [h]
      · rfl

/-- A turn of one task, where it stands before. -/
def Moves (s : Schedule) (i : Nat) (st : Stand) (s' : Schedule) : Prop :=
  ∃ st', Turn s.scene st s'.scene st' ∧ s'.stands = s.stands.set i st'

theorem stands_goTo {p q : Place} (hi : s.stands[i]? = some ⟨p, fs⟩) :
    (s.goTo i q).stands = s.stands.set i ⟨q, fs⟩ :=
  stands_modifyTask (g := fun st => { st with place := q }) (fun _ => rfl) hi

theorem tasks_unlock (key : String) : (s.unlock key).tasks = s.tasks := by
  unfold unlock
  split <;> rfl

theorem scene_unlock (key : String) : (s.unlock key).scene = s.scene := by
  unfold unlock
  split <;> rfl

theorem stands_unlock (key : String) : (s.unlock key).stands = s.stands := by
  rw [stands, tasks_unlock, stands]

theorem cancel_unseen (s : Schedule) (j : Nat) :
    (s.cancel j).2.stands = s.stands ∧ (s.cancel j).2.scene = s.scene := by
  have hflag : (s.modifyTask j fun t => { t with cancelRequested := true }).stands = s.stands :=
    stands_modifyTask_self fun _ => rfl
  unfold cancel
  split
  · exact ⟨rfl, rfl⟩
  · split
    · exact ⟨rfl, rfl⟩
    · dsimp only
      split
      · exact ⟨rfl, rfl⟩
      · exact ⟨hflag, rfl⟩
    · dsimp only
      split
      · exact ⟨rfl, rfl⟩
      · exact ⟨hflag, rfl⟩
    · exact ⟨hflag, rfl⟩

theorem start_moves {step : Step} (hi : s.stands[i]? = some ⟨.starting step, fs⟩) :
    s.Moves i ⟨.starting step, fs⟩ (s.start i step) := by
  have hplay : ∀ a, step.act? = some a →
      s.Moves i ⟨.starting step, fs⟩ ((s.play a).2.returnWith i (s.play a).1) :=
    fun a ha => ⟨_, .plays ha, stands_goTo hi⟩
  cases step with
  | call b key w inner => exact ⟨_, .asks rfl, stands_goTo hi⟩
  | force b key target => exact ⟨_, .asks rfl, stands_goTo hi⟩
  | release gate => exact ⟨_, .signals fun h => (by cases h), stands_goTo hi⟩
  | cancel j =>
      obtain ⟨hs, hscene⟩ := s.cancel_unseen j
      change s.Moves i _ ((s.cancel j).2.returnWith i (.ok (.flag (s.cancel j).1)))
      refine ⟨⟨.returning (.ok (.flag (s.cancel j).1)), fs⟩, ?_, ?_⟩
      · rw [returnWith, goTo, modifyTask, hscene]
        exact .signals fun h => by cases h
      · rw [returnWith, stands_goTo (hs ▸ hi), hs]
  | _ =>
      have h := hplay _ rfl
      exact h

theorem giveUp_stands {p : Place} (hi : s.stands[i]? = some ⟨p, fs⟩) :
    (s.giveUp i).stands = s.stands.set i ⟨.returning (.error .cancellation), fs⟩ :=
  stands_modifyTask (g := fun st => { st with place := .returning (.error .cancellation) })
    (fun _ => rfl) hi

theorem begin_moves {step : Step} (hi : s.stands[i]? = some ⟨.starting step, fs⟩) :
    s.Moves i ⟨.starting step, fs⟩ (s.begin t i step) := by
  unfold begin
  split
  · exact ⟨_, .signals fun _ => rfl, giveUp_stands hi⟩
  · exact start_moves hi

theorem suspend_stands {p q : Place} (hi : s.stands[i]? = some ⟨p, fs⟩) :
    (s.suspend t i q).stands = s.stands.set i ⟨q, fs⟩ :=
  stands_modifyTask (s := { s with ready := s.ready.tail ++ if t.cancelRequested then [i] else [] })
    (g := fun st => { st with place := q }) (fun _ => rfl) hi

theorem request_moves {op : Operation} (hi : s.stands[i]? = some ⟨.requesting op, fs⟩) :
    s.Moves i ⟨.requesting op, fs⟩ (s.request t i op) := by
  unfold request
  dsimp only
  split
  · exact ⟨_, .enters, stands_goTo hi⟩
  · split
    · exact ⟨_, .enters, stands_goTo hi⟩
    · exact ⟨_, .waits, suspend_stands hi⟩

theorem leaveQueue_moves {op : Operation} (hi : s.stands[i]? = some ⟨.queued op, fs⟩) :
    s.Moves i ⟨.queued op, fs⟩ (s.leaveQueue t i op) := by
  unfold leaveQueue
  dsimp only
  split
  · exact ⟨_, .leaves, giveUp_stands hi⟩
  · exact ⟨_, .wakes, stands_goTo hi⟩

theorem unlock_returns {p : Place} {σ : Scene} {key : String} {result : Except Failure Answer}
    (hi : s.stands[i]? = some ⟨p, fs⟩) (h : Turn s.scene ⟨p, fs⟩ σ ⟨.returning result, fs⟩) :
    s.Moves i ⟨p, fs⟩ ((({ s with scene := σ } : Schedule).unlock key).returnWith i result) := by
  let s' : Schedule := { s with scene := σ }
  have hu : (s'.unlock key).stands = s.stands := stands_unlock key
  refine ⟨⟨.returning result, fs⟩, ?_, ?_⟩
  · rw [returnWith, goTo, modifyTask, scene_unlock]
    exact h
  · rw [returnWith, stands_goTo (hu ▸ hi), hu]

theorem play_eq {α : Type} {a : Act α} {out : Except Failure α} {σ : Scene}
    (h : a.play s.scene = (out, σ)) : s.play a = (out, { s with scene := σ }) := by
  rw [play, h]

theorem play_unlock {α : Type} (a : Act α) (key : String) :
    (s.unlock key).play a =
      ((a.play s.scene).1, { s.unlock key with scene := (a.play s.scene).2 }) := by
  rw [play, scene_unlock]

theorem unlock_goes {p q : Place} {σ σ' : Scene} {key : String}
    (hi : s.stands[i]? = some ⟨p, fs⟩) (h : Turn s.scene ⟨p, fs⟩ σ' ⟨q, fs⟩) :
    s.Moves i ⟨p, fs⟩ (({ ({ s with scene := σ } : Schedule).unlock key with
      scene := σ' } : Schedule).goTo i q) := by
  let s' : Schedule := { s with scene := σ }
  have hu : (s'.unlock key).stands = s.stands := stands_unlock key
  refine ⟨⟨q, fs⟩, h, ?_⟩
  rw [stands_goTo (s := { s'.unlock key with scene := σ' }) (p := p) (hu ▸ hi), ← hu]
  rfl

theorem act_moves {op : Operation} (hi : s.stands[i]? = some ⟨.acting op, fs⟩) :
    s.Moves i ⟨.acting op, fs⟩ (s.act i op) := by
  cases op with
  | call b key w inner =>
      unfold act
      dsimp only
      cases hp : (b.enterCall key w).play s.scene with
      | mk out σ =>
          rw [play_eq hp]
          cases out with
          | error f => exact unlock_returns hi (.breaks hp)
          | ok stage =>
              cases stage with
              | ended v => exact unlock_returns hi (.ends hp)
              | running o =>
                  exact ⟨_, .opens hp, stands_modifyTask (s := { s with scene := σ })
                    (g := fun st => ⟨.working, ⟨b, key, o, inner, w.gate, w.result⟩ :: st.frames⟩)
                    (fun _ => rfl) hi⟩
  | force b key target attempt =>
      unfold act
      dsimp only
      cases hp : (b.overwriteOnce key target).play s.scene with
      | mk out σ =>
          rw [play_eq hp]
          cases out with
          | error f =>
              dsimp only
              split
              · rename_i hf
                rw [Bool.and_eq_true, decide_eq_true_eq] at hf
                rw [play_unlock]
                exact unlock_goes hi (.retries hp hf.1 hf.2)
              · rename_i hf
                refine unlock_returns hi (.fails hp fun hstale => ?_)
                rw [hstale, Bool.true_and, decide_eq_true_eq] at hf
                exact Int.not_lt.1 hf
          | ok stored =>
              obtain ⟨previous, r⟩ := stored
              dsimp only
              rw [play_unlock]
              exact unlock_goes hi (.forces hp)

theorem conclude_seen {p : Place} {f : Frame} (hi : s.stands[i]? = some ⟨p, f :: fs⟩)
    (result : Except Failure Json) :
    (s.conclude i f result).scene = ((f.breaker.conclude f.key f.opening result).play s.scene).2 ∧
      (s.conclude i f result).stands = s.stands.set i
        ⟨.returning (((f.breaker.conclude f.key f.opening result).play s.scene).1.map .value), fs⟩ := by
  unfold conclude
  dsimp only
  cases hp : (f.breaker.conclude f.key f.opening result).play s.scene with
  | mk out σ =>
      let s' : Schedule := { s with scene := σ }
      have hu : (s'.unlock f.key).stands = s.stands := stands_unlock f.key
      rw [play_eq hp]
      refine ⟨?_, ?_⟩
      · rw [modifyTask, scene_unlock]
      · dsimp only
        rw [stands_modifyTask (s := s'.unlock f.key)
          (g := fun st => ⟨.returning (out.map .value), st.frames.tail⟩) (fun _ => rfl) (hu ▸ hi), hu]
        rfl

theorem conclude_moves {p : Place} {f : Frame} {result : Except Failure Json}
    (hi : s.stands[i]? = some ⟨p, f :: fs⟩)
    (h : p = .working ∧ f.inner = [] ∧ result = f.result ∨
        (∃ gate, p = .atGate gate) ∧ (result = f.result ∨ result = .error .cancellation)) :
    s.Moves i ⟨p, f :: fs⟩ (s.conclude i f result) := by
  obtain ⟨hscene, hstands⟩ := conclude_seen hi result
  refine ⟨_, ?_, hstands⟩
  rw [hscene]
  exact .concludes h

theorem work_moves {f : Frame} (hi : s.stands[i]? = some ⟨.working, f :: fs⟩) :
    s.Moves i ⟨.working, f :: fs⟩ (s.work t i f) := by
  have hconclude : f.inner = [] → s.Moves i ⟨.working, f :: fs⟩ (s.conclude i f f.result) :=
    fun h => conclude_moves hi (.inl ⟨rfl, h, rfl⟩)
  unfold work
  split
  · rename_i step inner h
    exact ⟨_, .nests h, stands_modifyTask
      (g := fun st => ⟨.starting step, { f with inner } :: st.frames.tail⟩) (fun _ => rfl) hi⟩
  · exact hconclude ‹_›
  · dsimp only
    split
    · exact hconclude ‹_›
    · exact ⟨_, .pauses, suspend_stands hi⟩

theorem leaveGate_moves {f : Frame} {gate : String}
    (hi : s.stands[i]? = some ⟨.atGate gate, f :: fs⟩) :
    s.Moves i ⟨.atGate gate, f :: fs⟩ (s.leaveGate t i f gate) := by
  unfold leaveGate
  dsimp only
  split
  · have hs : ((s.setGate gate ((s.gates gate).leave i)).modifyTask i fun t =>
        { t with cancelRequested := false }).stands = s.stands := stands_modifyTask_self fun _ => rfl
    obtain ⟨st', ht, hst⟩ := conclude_moves (hs ▸ hi) (.inr ⟨⟨gate, rfl⟩, .inr rfl⟩)
    exact ⟨st', ht, hst.trans (by rw [hs])⟩
  · exact conclude_moves (s := s.setGate gate ((s.gates gate).leave i)) hi
      (.inr ⟨⟨gate, rfl⟩, .inl rfl⟩)

theorem comeBack_moves {result : Except Failure Answer}
    (hi : s.stands[i]? = some ⟨.returning result, fs⟩) (ht : t.frames = fs) :
    s.Moves i ⟨.returning result, fs⟩ (s.comeBack t i result) := by
  unfold comeBack
  split
  · rename_i h
    rw [← ht, h] at hi ⊢
    exact ⟨_, .finishes, stands_goTo (s := { s with
      ready := s.ready.tail, finished := (i, result) :: s.finished }) hi⟩
  · rename_i f rest h
    rw [← ht, h] at hi ⊢
    exact ⟨_, .resumes, stands_goTo (s := (s.play (Act.emit (.inner result))).2) hi⟩

theorem tick_of_nil (h : s.ready = []) : s.tick = s := by
  unfold tick
  rw [h]

theorem tick_of_unknown (hi : s.ready.head? = some i) (h : s.tasks[i]? = none) :
    s.tick = { s with ready := s.ready.tail } := by
  obtain ⟨rest, hready⟩ := List.head?_eq_some_iff.1 hi
  unfold tick
  rw [hready]
  dsimp only
  rw [h]
  rfl

theorem tick_eq_proceed {t : Task} (hi : s.ready.head? = some i) (ht : s.tasks[i]? = some t) :
    s.tick = s.proceed t i := by
  obtain ⟨rest, hready⟩ := List.head?_eq_some_iff.1 hi
  unfold tick
  rw [hready]
  dsimp only
  rw [ht]

theorem tick_cases (s : Schedule) :
    s.ready = [] ∧ s.tick = s ∨ ∃ i, s.ready.head? = some i ∧
      (s.tasks[i]? = none ∧ s.tick = { s with ready := s.ready.tail } ∨
        ∃ t, s.tasks[i]? = some t ∧ s.tick = s.proceed t i) := by
  cases hi : s.ready.head? with
  | none =>
      have hready := List.head?_eq_none_iff.1 hi
      exact .inl ⟨hready, tick_of_nil hready⟩
  | some i =>
      refine .inr ⟨i, rfl, ?_⟩
      cases ht : s.tasks[i]? with
      | none => exact .inl ⟨rfl, tick_of_unknown hi ht⟩
      | some t => exact .inr ⟨t, rfl, tick_eq_proceed hi ht⟩

/-- A bit of progress is a turn of the task that is first in line, or changes nothing that matters
because that task has nothing to do. -/
theorem tick_moves (s : Schedule) :
    (s.tick.scene = s.scene ∧ s.tick.stands = s.stands ∧
      ∀ i st, s.ready.head? = some i → s.stands[i]? = some st → st.Halted) ∨
      ∃ i st, s.ready.head? = some i ∧ s.stands[i]? = some st ∧ s.Moves i st s.tick := by
  obtain ⟨hready, h⟩ | ⟨i, hhead, ⟨hnone, h⟩ | ⟨t, ht, h⟩⟩ := s.tick_cases <;> rw [h]
  · exact .inl ⟨rfl, rfl, fun i st hi _ => by rw [hready] at hi; cases hi⟩
  · refine .inl ⟨rfl, rfl, fun j st hj hst => ?_⟩
    obtain ⟨t, ht, -⟩ := task_of_stands hst
    rw [hhead] at hj
    cases hj
    rw [hnone] at ht
    cases ht
  · obtain ⟨place, frames, flag⟩ := t
    have hi : s.stands[i]? = some ⟨place, frames⟩ := stands_of_task ht
    have hturn : ∀ {s'}, s.Moves i ⟨place, frames⟩ s' → (s'.scene = s.scene ∧
        s'.stands = s.stands ∧ ∀ j st, s.ready.head? = some j → s.stands[j]? = some st → st.Halted) ∨
          ∃ j st, s.ready.head? = some j ∧ s.stands[j]? = some st ∧ s.Moves j st s' :=
      fun h => .inr ⟨i, _, hhead, hi, h⟩
    have hidle : Stand.Halted ⟨place, frames⟩ →
        ∀ j st, s.ready.head? = some j → s.stands[j]? = some st → st.Halted := by
      intro h j st hj hst
      rw [hhead] at hj
      cases hj
      rw [hi] at hst
      cases hst
      exact h
    cases place with
    | starting step =>
        cases frames with
        | nil => exact hturn (begin_moves hi)
        | cons f fs => exact hturn (start_moves hi)
    | requesting op => exact hturn (request_moves hi)
    | queued op => exact hturn (leaveQueue_moves hi)
    | acting op => exact hturn (act_moves hi)
    | working =>
        cases frames with
        | nil => exact .inl ⟨rfl, rfl, hidle .idle⟩
        | cons f fs => exact hturn (work_moves hi)
    | atGate gate =>
        cases frames with
        | nil => exact .inl ⟨rfl, rfl, hidle .atGate⟩
        | cons f fs => exact hturn (leaveGate_moves hi)
    | returning result => exact hturn (comeBack_moves hi rfl)
    | done => exact .inl ⟨rfl, rfl, hidle .done⟩

theorem tick_of_head (hi : s.ready.head? = some i) (hst : s.stands[i]? = some st)
    (h : ¬ st.Halted) : s.Moves i st s.tick := by
  rcases s.tick_moves with ⟨-, -, hidle⟩ | ⟨j, st', hj, hst', hm⟩
  · exact absurd (hidle i st hi hst) h
  · rw [hi] at hj
    cases hj
    rw [hst] at hst'
    cases hst'
    exact hm

end Schedule

end KeyedBreaker
