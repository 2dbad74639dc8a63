import KeyedBreaker.Proofs.Breaker.Audience
import KeyedBreaker.Proofs.Schedule.Run

namespace KeyedBreaker

variable (A : Nat → List Listener)

mutual

/-- The step as it is made by breakers that have the listeners assigned to their numbers. -/
def Step.staffed : Step → Step
  | .call b key work inner => .call (b.staffed A) key work (Step.staffedIn inner)
  | .force b key target => .force (b.staffed A) key target
  | .status b key => .status (b.staffed A) key
  | .snapshot b key => .snapshot (b.staffed A) key
  | .resetIn b key => .resetIn (b.staffed A) key
  | step => step

def Step.staffedIn : List Step → List Step
  | [] => []
  | step :: steps => step.staffed :: Step.staffedIn steps

end

def Operation.staffed : Operation → Operation
  | .call b key work inner => .call (b.staffed A) key work (Step.staffedIn A inner)
  | .force b key target attempt => .force (b.staffed A) key target attempt

def Frame.staffed (f : Frame) : Frame :=
  { f with breaker := f.breaker.staffed A, inner := Step.staffedIn A f.inner }

def Place.staffed : Place → Place
  | .starting step => .starting (step.staffed A)
  | .requesting op => .requesting (op.staffed A)
  | .queued op => .queued (op.staffed A)
  | .acting op => .acting (op.staffed A)
  | p => p

def Task.staffed (t : Task) : Task :=
  { t with place := t.place.staffed A, frames := t.frames.map (Frame.staffed A) }

def Move.staffed : Move → Move
  | .submit step => .submit (step.staffed A)
  | .turn => .turn

theorem Operation.key_staffed (op : Operation) : (op.staffed A).key = op.key := by cases op <;> rfl

variable {A} {A' : Nat → List Listener}

theorem modify_map {α β : Type} {F : α → β} {f : β → β} {g : α → α} (h : ∀ x, f (F x) = F (g x))
    (l : List α) (i : Nat) : (l.map F).modify i f = (l.modify i g).map F := by
  apply List.ext_getElem?
  intro j
  rw [List.getElem?_modify, List.getElem?_map, List.getElem?_map, List.getElem?_modify]
  cases l[j]? with
  | none => rfl
  | some x =>
      simp only [Option.map_eq_map, Option.map_some]
      split
      · rw [h]
      · rfl

open Act

theorem Step.act?_echoes (hA : ∀ i, ∀ l ∈ A i, l.Polite) (hA' : ∀ i, ∀ l ∈ A' i, l.Polite)
    {step : Step} {a : Act Answer} (h : (step.staffed A).act? = some a) :
    ∃ a', (step.staffed A').act? = some a' ∧ a.Matches (Scene.Echoes A A') a' := by
  have hsame : ∀ {a : Act Answer}, a.Respects (Scene.Echoes A A') →
      ∃ a', some a = some a' ∧ a.Matches (Scene.Echoes A A') a' := fun ha => ⟨_, rfl, ha⟩
  cases step with
  | status b key =>
      cases h
      exact ⟨_, rfl, ((echoes_accord key).status (echoes_twins hA hA' b)).map _⟩
  | snapshot b key =>
      cases h
      exact ⟨_, rfl, ((echoes_accord key).load (echoes_twins hA hA' b)).map _⟩
  | resetIn b key =>
      cases h
      exact ⟨_, rfl, ((echoes_accord key).resetIn (echoes_twins hA hA' b)).map _⟩
  | advance seconds =>
      cases h
      exact hsame (((echoes_accord "").advanceClock echoes_clockwise seconds).map _)
  | setClock t =>
      cases h
      exact hsame ((echoes_clockwise.setClock t).map _)
  | addFaults access faults =>
      cases h
      refine hsame (Respects.map (fun s τ h => ?_) _)
      refine ⟨rfl, h.now, h.monotonic, h.store, ?_, h.unheard, h.told⟩
      exact congrArg (fun g b => if b = access then g b ++ faults else g b) h.faults
  | overwrite name content =>
      cases h
      exact hsame (Respects.map (echoes_setStore fun s τ h => congrArg (·.overwrite name content) h.store) _)
  | getRecord key =>
      cases h
      exact hsame ((echoes_readRecord key).map _)
  | setRecord key r =>
      cases h
      exact hsame ((echoes_writeRecord key r).map _)
  | call | force | release | cancel => cases h

namespace Schedule

/-- Two schedules in scenes that echo each other. The same tasks are under way in both, made by breakers
under the one assignment and under the other. -/
structure Echoes (A A' : Nat → List Listener) (s u : Schedule) : Prop where
  scene : s.scene.Echoes A A' u.scene
  tasks : ∃ ts : List Task, s.tasks = ts.map (Task.staffed A) ∧ u.tasks = ts.map (Task.staffed A')
  ready : u.ready = s.ready
  locks : u.locks = s.locks
  gates : u.gates = s.gates
  finished : u.finished = s.finished

namespace Echoes

variable {α : Type} {s u : Schedule} {i : Nat} {t : Task}

theorem task (h : s.Echoes A A' u) (i : Nat) : s.tasks[i]? = none ∧ u.tasks[i]? = none ∨
    ∃ t : Task, s.tasks[i]? = some (t.staffed A) ∧ u.tasks[i]? = some (t.staffed A') := by
  obtain ⟨ts, hs, hu⟩ := h.tasks
  rw [hs, hu, List.getElem?_map, List.getElem?_map]
  cases ts[i]? with
  | none => exact .inl ⟨rfl, rfl⟩
  | some t => exact .inr ⟨t, rfl, rfl⟩

theorem modifyTask (h : s.Echoes A A' u) (i : Nat) {f f' : Task → Task} (g : Task → Task)
    (hf : ∀ t, f (t.staffed A) = (g t).staffed A) (hf' : ∀ t, f' (t.staffed A') = (g t).staffed A') :
    (s.modifyTask i f).Echoes A A' (u.modifyTask i f') := by
  obtain ⟨ts, hs, hu⟩ := h.tasks
  refine ⟨h.scene, ⟨ts.modify i g, ?_, ?_⟩, h.ready, h.locks, h.gates, h.finished⟩
  · rw [Schedule.modifyTask, hs, modify_map hf]
  · rw [Schedule.modifyTask, hu, modify_map hf']

theorem goTo (h : s.Echoes A A' u) (i : Nat) (p : Place) :
    (s.goTo i (p.staffed A)).Echoes A A' (u.goTo i (p.staffed A')) :=
  h.modifyTask i (fun t => { t with place := p }) (fun _ => rfl) fun _ => rfl

theorem flag (h : s.Echoes A A' u) (i : Nat) (c : Bool) :
    (s.modifyTask i fun t => { t with cancelRequested := c }).Echoes A A'
      (u.modifyTask i fun t => { t with cancelRequested := c }) :=
  h.modifyTask i (fun t => { t with cancelRequested := c }) (fun _ => rfl) fun _ => rfl

theorem setReady (h : s.Echoes A A' u) (ready : List Nat) :
    ({ s with ready } : Schedule).Echoes A A' { u with ready } :=
  ⟨h.scene, h.tasks, rfl, h.locks, h.gates, h.finished⟩

theorem ready_tail (h : s.Echoes A A' u) :
    ({ s with ready := s.ready.tail } : Schedule).Echoes A A' { u with ready := u.ready.tail } := by
  rw [h.ready]
  exact h.setReady s.ready.tail

theorem wake (h : s.Echoes A A' u) (woken : List Nat) : (s.wake woken).Echoes A A' (u.wake woken) :=
  ⟨h.scene, h.tasks, congrArg (· ++ woken) h.ready, h.locks, h.gates, h.finished⟩

theorem setGate (h : s.Echoes A A' u) (gate : String) (g : Gate) :
    (s.setGate gate g).Echoes A A' (u.setGate gate g) := by
  unfold Schedule.setGate
  rw [h.gates]
  exact ⟨h.scene, h.tasks, h.ready, h.locks, rfl, h.finished⟩

theorem setLock (h : s.Echoes A A' u) (key : String) (l : Lock) :
    (s.setLock key l).Echoes A A' (u.setLock key l) := by
  unfold Schedule.setLock
  rw [h.locks]
  exact ⟨h.scene, h.tasks, h.ready, rfl, h.gates, h.finished⟩

theorem play (h : s.Echoes A A' u) {a a' : Act α} (ha : a.Matches (Scene.Echoes A A') a') :
    (u.play a').1 = (s.play a).1 ∧ (s.play a).2.Echoes A A' (u.play a').2 := by
  obtain ⟨hout, hscene⟩ := ha s.scene u.scene h.scene
  exact ⟨hout, hscene, h.tasks, h.ready, h.locks, h.gates, h.finished⟩

theorem unlock (h : s.Echoes A A' u) (key : String) : (s.unlock key).Echoes A A' (u.unlock key) := by
  unfold Schedule.unlock
  rw [h.scene.store, h.locks]
  split
  · exact (h.setLock key _).wake _
  · exact h

theorem suspend (h : s.Echoes A A' u) (t : Task) (i : Nat) (p : Place) :
    (s.suspend (t.staffed A) i (p.staffed A)).Echoes A A' (u.suspend (t.staffed A') i (p.staffed A')) := by
  unfold Schedule.suspend
  rw [h.ready]
  exact (h.setReady _).modifyTask i (fun t => { t with place := p, cancelRequested := false })
    (fun _ => rfl) fun _ => rfl

theorem giveUp (h : s.Echoes A A' u) (i : Nat) : (s.giveUp i).Echoes A A' (u.giveUp i) :=
  h.modifyTask i
    (fun t => { t with place := .returning (.error .cancellation), cancelRequested := false })
    (fun _ => rfl) fun _ => rfl

theorem ite {s' u' : Schedule} (c : Bool) (h : s.Echoes A A' u) (h' : s'.Echoes A A' u') :
    (if c then s else s').Echoes A A' (if c then u else u') := by
  cases c
  · exact h'
  · exact h

theorem cancel (h : s.Echoes A A' u) (j : Nat) :
    (u.cancel j).1 = (s.cancel j).1 ∧ (s.cancel j).2.Echoes A A' (u.cancel j).2 := by
  have hflag := h.flag j true
  unfold Schedule.cancel
  obtain ⟨hs, hu⟩ | ⟨t, hs, hu⟩ := h.task j <;> rw [hs, hu]
  · exact ⟨rfl, h⟩
  · obtain ⟨place, frames, flag⟩ := t
    cases place with
    | done => exact ⟨rfl, h⟩
    | queued op =>
        dsimp only [Task.staffed, Place.staffed]
        rw [Operation.key_staffed, Operation.key_staffed, h.locks]
        split
        · exact ⟨rfl, (h.setLock op.key _).wake [j]⟩
        · exact ⟨rfl, hflag⟩
    | atGate gate =>
        dsimp only [Task.staffed, Place.staffed]
        rw [h.gates]
        split
        · exact ⟨rfl, (h.setGate gate _).wake [j]⟩
        · exact ⟨rfl, hflag⟩
    | _ => exact ⟨rfl, hflag⟩

theorem request (h : s.Echoes A A' u) (t : Task) (i : Nat) (op : Operation) :
    (s.request (t.staffed A) i (op.staffed A)).Echoes A A'
      (u.request (t.staffed A') i (op.staffed A')) := by
  unfold Schedule.request
  rw [Operation.key_staffed, Operation.key_staffed, h.scene.store, h.locks]
  dsimp only
  split
  · exact h.goTo i (.acting op)
  · split
    · exact (h.setLock op.key _).goTo i (.acting op)
    · exact (h.setLock op.key _).suspend t i (.queued op)

theorem leaveQueue (h : s.Echoes A A' u) (t : Task) (i : Nat) (op : Operation) :
    (s.leaveQueue (t.staffed A) i (op.staffed A)).Echoes A A'
      (u.leaveQueue (t.staffed A') i (op.staffed A')) := by
  unfold Schedule.leaveQueue
  rw [Operation.key_staffed, Operation.key_staffed, h.locks]
  exact ite (t.cancelRequested || _) (((h.setLock op.key _).wake _).giveUp i)
    ((h.setLock op.key _).goTo i (.acting op))

theorem comeBack (h : s.Echoes A A' u) (t : Task) (i : Nat) (result : Except Failure Answer) :
    (s.comeBack (t.staffed A) i result).Echoes A A' (u.comeBack (t.staffed A') i result) := by
  obtain ⟨place, frames, flag⟩ := t
  cases frames with
  | nil =>
      have hm : ({ s with ready := s.ready.tail, finished := (i, result) :: s.finished } :
          Schedule).Echoes A A' { u with
            ready := u.ready.tail, finished := (i, result) :: u.finished } :=
        ⟨h.scene, h.tasks, congrArg List.tail h.ready, h.locks, h.gates, congrArg (_ :: ·) h.finished⟩
      exact hm.goTo i .done
  | cons f fs =>
      obtain ⟨-, hm⟩ := h.play (echoes_emit (e := .inner result) rfl)
      exact hm.goTo i .working

section Polite

variable (hA : ∀ i, ∀ l ∈ A i, l.Polite) (hA' : ∀ i, ∀ l ∈ A' i, l.Polite)

include hA hA'

theorem start (h : s.Echoes A A' u) (i : Nat) (step : Step) :
    (s.start i (step.staffed A)).Echoes A A' (u.start i (step.staffed A')) := by
  have hplay : ∀ a, (step.staffed A).act? = some a → ∃ a', (step.staffed A').act? = some a' ∧
      ((s.play a).2.returnWith i (s.play a).1).Echoes A A'
        ((u.play a').2.returnWith i (u.play a').1) := by
    intro a ha
    obtain ⟨a', ha', hmatch⟩ := Step.act?_echoes hA hA' ha
    obtain ⟨hout, hm⟩ := h.play hmatch
    refine ⟨a', ha', ?_⟩
    rw [hout]
    exact hm.goTo i (.returning _)
  cases step with
  | call b key work inner => exact h.goTo i (.requesting (.call b key work inner))
  | force b key target => exact h.goTo i (.requesting (.force b key target 1))
  | release gate =>
      unfold Step.staffed Schedule.start
      rw [h.gates]
      exact ((h.setGate gate _).wake _).goTo i (.returning _)
  | cancel j =>
      obtain ⟨hout, hm⟩ := h.cancel j
      unfold Step.staffed Schedule.start
      dsimp only
      rw [hout]
      exact hm.goTo i (.returning _)
  | _ =>
      obtain ⟨a', ha', hm⟩ := hplay _ rfl
      cases ha'
      exact hm

theorem begin (h : s.Echoes A A' u) (t : Task) (i : Nat) (step : Step) :
    (s.begin (t.staffed A) i (step.staffed A)).Echoes A A'
      (u.begin (t.staffed A') i (step.staffed A')) :=
  ite t.cancelRequested (h.giveUp i) (h.start hA hA' i step)

theorem act (h : s.Echoes A A' u) (i : Nat) (op : Operation) :
    (s.act i (op.staffed A)).Echoes A A' (u.act i (op.staffed A')) := by
  cases op with
  | call b key w inner =>
      obtain ⟨hout, hm⟩ := h.play ((echoes_accord key).enterCall (echoes_twins hA hA' b)
        ((echoes_accord key).start echoes_clockwise w))
      unfold Operation.staffed Schedule.act
      dsimp only
      rcases hs : s.play ((b.staffed A).enterCall key w) with ⟨out, s₁⟩
      rcases hu : u.play ((b.staffed A').enterCall key w) with ⟨out', u₁⟩
      rw [hs, hu] at hout hm
      obtain rfl : out' = out := hout
      cases out' with
      | error f => exact (hm.unlock key).goTo i (.returning _)
      | ok stage =>
          cases stage with
          | running o =>
              exact hm.modifyTask i (fun t => { t with
                place := .working
                frames := ⟨b, key, o, inner, w.gate, w.result⟩ :: t.frames }) (fun _ => rfl) fun _ => rfl
          | ended v => exact (hm.unlock key).goTo i (.returning _)
  | force b key target attempt =>
      obtain ⟨hout, hm⟩ := h.play ((echoes_accord key).overwriteOnce (echoes_twins hA hA' b) target)
      unfold Operation.staffed Schedule.act
      dsimp only
      rcases hs : s.play ((b.staffed A).overwriteOnce key target) with ⟨out, s₁⟩
      rcases hu : u.play ((b.staffed A').overwriteOnce key target) with ⟨out', u₁⟩
      rw [hs, hu] at hout hm
      obtain rfl : out' = out := hout
      cases out' with
      | ok stored =>
          obtain ⟨hout', hm'⟩ :=
            (hm.unlock key).play ((echoes_accord key).confirm (echoes_twins hA hA' b) target stored.1)
          dsimp only
          rw [hout']
          exact hm'.goTo i (.returning _)
      | error f =>
          obtain ⟨-, hm'⟩ := (hm.unlock key).play
            ((echoes_accord key).backOff (echoes_twins hA hA' b) target attempt)
          exact ite (f.isA .stale && attempt < b.policy.attempts)
            (hm'.goTo i (.requesting (.force b key target (attempt + 1))))
            ((hm.unlock key).goTo i (.returning _))

theorem conclude (h : s.Echoes A A' u) (i : Nat) (f : Frame) (result : Except Failure Json) :
    (s.conclude i (f.staffed A) result).Echoes A A' (u.conclude i (f.staffed A') result) := by
  obtain ⟨hout, hm⟩ := h.play
    ((echoes_accord f.key).conclude (echoes_twins hA hA' f.breaker) f.opening result)
  unfold Schedule.conclude
  dsimp only [Frame.staffed]
  rw [hout]
  generalize ((s.play ((f.breaker.staffed A).conclude f.key f.opening result)).1.map Answer.value) = answer
  refine (hm.unlock f.key).modifyTask i
    (fun t => { t with place := .returning answer, frames := t.frames.tail }) (fun t => ?_) fun t => ?_
  · simp [Task.staffed, Place.staffed]
  · simp [Task.staffed, Place.staffed]

theorem work (h : s.Echoes A A' u) (t : Task) (i : Nat) (f : Frame) :
    (s.work (t.staffed A) i (f.staffed A)).Echoes A A' (u.work (t.staffed A') i (f.staffed A')) := by
  obtain ⟨b, key, o, inner, gate, result⟩ := f
  cases inner with
  | cons step inner =>
      refine h.modifyTask i (fun t => { t with
        place := .starting step
        frames := ⟨b, key, o, inner, gate, result⟩ :: t.frames.tail }) (fun t => ?_) fun t => ?_
      · simp [Task.staffed, Place.staffed, Frame.staffed]
      · simp [Task.staffed, Place.staffed, Frame.staffed]
  | nil =>
      have hconclude := h.conclude hA hA' i ⟨b, key, o, [], gate, result⟩ result
      cases gate with
      | none => exact hconclude
      | some gate =>
          unfold Schedule.work
          dsimp only [Frame.staffed, Step.staffedIn]
          rw [h.gates]
          split
          · exact hconclude
          · exact (h.setGate gate _).suspend t i (.atGate gate)

theorem leaveGate (h : s.Echoes A A' u) (t : Task) (i : Nat) (f : Frame) (gate : String) :
    (s.leaveGate (t.staffed A) i (f.staffed A) gate).Echoes A A'
      (u.leaveGate (t.staffed A') i (f.staffed A') gate) := by
  unfold Schedule.leaveGate
  rw [h.gates]
  exact ite (t.cancelRequested || _) (((h.setGate gate _).flag i false).conclude hA hA' i f _)
    ((h.setGate gate _).conclude hA hA' i f _)

theorem proceed (h : s.Echoes A A' u) (t : Task) (i : Nat) :
    (s.proceed (t.staffed A) i).Echoes A A' (u.proceed (t.staffed A') i) := by
  obtain ⟨place, frames, flag⟩ := t
  cases place with
  | starting step =>
      cases frames with
      | nil => exact h.begin hA hA' _ i step
      | cons f fs => exact h.start hA hA' i step
  | requesting op => exact h.request _ i op
  | queued op => exact h.leaveQueue _ i op
  | acting op => exact h.act hA hA' i op
  | working =>
      cases frames with
      | nil => exact h.ready_tail
      | cons f fs => exact h.work hA hA' _ i f
  | atGate gate =>
      cases frames with
      | nil => exact h.ready_tail
      | cons f fs => exact h.leaveGate hA hA' _ i f gate
  | returning result => exact h.comeBack _ i result
  | done => exact h.ready_tail

theorem tick (h : s.Echoes A A' u) : s.tick.Echoes A A' u.tick := by
  obtain ⟨hready, htick⟩ | ⟨i, hhead, -⟩ := s.tick_cases
  · rw [htick, tick_of_nil (h.ready.trans hready)]
    exact h
  · obtain ⟨hs, hu⟩ | ⟨t, hs, hu⟩ := h.task i
    · rw [tick_of_unknown hhead hs, tick_of_unknown (h.ready ▸ hhead) hu]
      exact h.ready_tail
    · rw [tick_eq_proceed hhead hs, tick_eq_proceed (h.ready ▸ hhead) hu]
      exact h.proceed hA hA' t i

theorem move (h : s.Echoes A A' u) (m : Move) :
    (s.move (m.staffed A)).Echoes A A' (u.move (m.staffed A')) := by
  cases m with
  | turn => exact h.tick hA hA'
  | submit step =>
      obtain ⟨ts, hs, hu⟩ := h.tasks
      refine ⟨h.scene, ⟨ts ++ [{ place := .starting step }], ?_, ?_⟩, ?_, h.locks, h.gates, h.finished⟩
      · rw [List.map_append, ← hs]
        rfl
      · rw [List.map_append, ← hu]
        rfl
      · change u.ready ++ [u.tasks.length] = s.ready ++ [s.tasks.length]
        rw [h.ready, hs, hu, List.length_map, List.length_map]

theorem after (h : s.Echoes A A' u) (ms : List Move) :
    (s.after (ms.map (Move.staffed A))).Echoes A A' (u.after (ms.map (Move.staffed A'))) := by
  induction ms generalizing s u with
  | nil => exact h
  | cons m ms ih => exact ih (h.move hA hA' m)

end Polite

end Echoes

variable {s : Schedule}

/-- Whatever is submitted, and however the turns fall: under two assignments of listeners that raise ordinary
failures at most, a run comes to the same results in the same order, stores the same, and shows the same but
for what is about listeners; and in both runs all listeners of a breaker are told the same, whatever the
others raise. -/
theorem listeners_without_influence (htasks : s.tasks = []) (hevents : s.scene.events = [])
    (hA : ∀ i, ∀ l ∈ A i, l.Polite) (hA' : ∀ i, ∀ l ∈ A' i, l.Polite) (ms : List Move) :
    (s.after (ms.map (Move.staffed A'))).finished = (s.after (ms.map (Move.staffed A))).finished ∧
      (s.after (ms.map (Move.staffed A'))).scene.store =
        (s.after (ms.map (Move.staffed A))).scene.store ∧
      (s.after (ms.map (Move.staffed A'))).scene.unheard =
        (s.after (ms.map (Move.staffed A))).scene.unheard ∧
      ∃ told, (s.after (ms.map (Move.staffed A))).scene.Informs A told ∧
        (s.after (ms.map (Move.staffed A'))).scene.Informs A' told := by
  have hnothing : ∀ B : Nat → List Listener, s.scene.Informs B fun _ => [] := fun B i j l _ =>
    hevents ▸ Listener.told_of_silent fun e he => absurd he List.not_mem_nil
  have hstart : s.Echoes A A' s :=
    ⟨⟨rfl, rfl, rfl, rfl, rfl, _, hnothing A, hnothing A'⟩, ⟨[], htasks, htasks⟩, rfl, rfl, rfl, rfl⟩
  have hend := hstart.after hA hA' ms
  exact ⟨hend.finished, hend.scene.store, hend.scene.unheard, hend.scene.told⟩

def tripThenCall : List Move :=
  [.submit (.force {} "k" .open)] ++ List.replicate 4 .turn ++ [.submit (.call {} "k" {} [])] ++
    List.replicate 4 .turn

def unruly (i : Nat) : List Listener :=
  if i = 0 then [.recording (some (.plain .value none)) Hook.all, .logging] else []

theorem listeners_without_influence_of_unruly :
    ((atRest beginning (.memory [])).after (tripThenCall.map (Move.staffed unruly))).finished.map (·.1) =
        [1, 0] ∧
      ((atRest beginning (.memory [])).after (tripThenCall.map (Move.staffed fun _ => []))).finished =
        ((atRest beginning (.memory [])).after (tripThenCall.map (Move.staffed unruly))).finished ∧
      ∃ told, ((atRest beginning (.memory [])).after
        (tripThenCall.map (Move.staffed unruly))).scene.Informs unruly told := by
  have hunruly : ∀ i, ∀ l ∈ unruly i, l.Polite := by
    intro i l hl
    unfold unruly at hl
    split at hl
    · rcases List.mem_cons.1 hl with rfl | hl
      · exact Listener.polite_recording _ (by rintro f ⟨⟩; rfl)
      · rw [List.mem_singleton.1 hl]
        trivial
    · cases hl
  have hnobody : ∀ i, ∀ l ∈ (fun _ : Nat => ([] : List Listener)) i, l.Polite := by simp
  obtain ⟨hfinished, -, -, told, htold, -⟩ := listeners_without_influence
    (s := atRest beginning (.memory [])) rfl rfl hunruly hnobody tripThenCall
  exact ⟨by decide +kernel, hfinished, told, htold⟩

end Schedule

end KeyedBreaker
