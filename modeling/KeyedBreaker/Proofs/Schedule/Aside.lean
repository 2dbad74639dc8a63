import KeyedBreaker.Proofs.Schedule.Projection
import KeyedBreaker.Proofs.Schedule.Rest

namespace KeyedBreaker

namespace Schedule

open Act

/-- The step is on another key, or cancels a task that does not stay or has nothing left to do. -/
structure Elsewhere (sel : Selection) (key : String) (s : Schedule) (step : Step) : Prop where
  plain : step.Plain
  other : (∃ k, step.key? = some k ∧ key ≠ k) ∨ ∃ j, step = .cancel j
  cancels : ∀ {j}, step = .cancel j →
    sel.stays j = false ∧ (∀ t op, s.tasks[j]? = some t → t.place = .queued op → key ≠ op.key) ∨
      ∀ t, s.tasks[j]? = some t → t.place = .done

structure Strays (sel : Selection) (key : String) (s : Schedule) (t : Task) : Prop where
  starting : ∀ {step}, t.place = .starting step → Elsewhere sel key s step
  operating : ∀ {op}, t.place = .requesting op ∨ t.place = .queued op ∨ t.place = .acting op →
    key ≠ op.key ∧ op.step.Plain
  frames : ∀ f ∈ t.frames, key ≠ f.key ∧ f.inner = []

namespace Shows

variable {α : Type} {sel : Selection} {key : String} {s u : Schedule} {i j : Nat} {t : Task}

theorem modifyTask_aside (h : s.Shows sel key u) (hi : sel.stays i = false) (f : Task → Task) :
    (s.modifyTask i f).Shows sel key u := by
  refine ⟨h.scene, fun j hj => ?_, ?_, h.ready, h.lock, h.gates, h.finished⟩
  · have hij : i ≠ j := fun he => by rw [he, hj] at hi; cases hi
    change _ = (s.tasks.modify _ _)[j]?.map _
    rw [List.getElem?_modify_ne _ _ hij]
    exact h.tasks j hj
  · change _ = sel.rank (s.tasks.modify _ _).length
    rw [List.length_modify, h.count]

theorem setReady_aside (h : s.Shows sel key u) {ready : List Nat}
    (hready : sel.numbers ready = sel.numbers s.ready) :
    ({ s with ready } : Schedule).Shows sel key u :=
  ⟨h.scene, h.tasks, h.count, h.ready.trans hready.symm, h.lock, h.gates, h.finished⟩

theorem wake_aside (h : s.Shows sel key u) {woken : List Nat}
    (hwoken : ∀ j ∈ woken, sel.stays j = false) : (s.wake woken).Shows sel key u := by
  refine h.setReady_aside ?_
  rw [Selection.numbers_append, Selection.numbers_other hwoken, List.append_nil]

theorem setLock_aside (h : s.Shows sel key u) {k : String} (hk : key ≠ k) (l : Lock) :
    (s.setLock k l).Shows sel key u := by
  refine ⟨h.scene, h.tasks, h.count, h.ready, ?_, h.gates, h.finished⟩
  change _ = sel.lock (if key = k then _ else _)
  rw [if_neg hk, h.lock]

theorem setGate_aside (h : s.Shows sel key u) {gate : String} {g : Gate}
    (hg : sel.gate g = sel.gate (s.gates gate)) : (s.setGate gate g).Shows sel key u := by
  refine ⟨h.scene, h.tasks, h.count, h.ready, h.lock, fun other => ?_, h.finished⟩
  change _ = sel.gate (if other = gate then _ else _)
  rw [h.gates]
  split
  · subst other
    exact hg.symm
  · rfl

theorem play_aside (h : s.Shows sel key u) {a : Act α} (ha : a.Respects (Scene.Aside key u.scene)) :
    (s.play a).2.Shows sel key u :=
  ⟨ha.aside h.scene, h.tasks, h.count, h.ready, h.lock, h.gates, h.finished⟩

theorem unlock_aside (h : s.Shows sel key u) {k : String} (hk : key ≠ k)
    (hq : ∀ w ∈ (s.locks k).queue, sel.stays w.task = false) : (s.unlock k).Shows sel key u := by
  unfold Schedule.unlock
  split
  · refine (h.setLock_aside hk _).wake_aside fun j hj => ?_
    obtain ⟨w, hw, rfl⟩ := Lock.exists_of_mem_pass hj
    exact hq w hw
  · exact h

theorem suspend_aside (h : s.Shows sel key u) (hhead : s.ready.head? = some i)
    (hi : sel.stays i = false) (t : Task) (p : Place) : (s.suspend t i p).Shows sel key u := by
  have hself : sel.numbers (if t.cancelRequested then [i] else []) = [] := by
    refine Selection.numbers_other fun j hj => ?_
    split at hj
    · exact List.mem_singleton.1 hj ▸ hi
    · cases hj
  refine modifyTask_aside (h.setReady_aside ?_) hi _
  rw [Selection.numbers_append, hself, List.append_nil, Selection.numbers_tail_other hhead hi]

theorem cancel_aside (h : s.Shows sel key u) (hj : sel.stays j = false)
    (hop : ∀ t op, s.tasks[j]? = some t → t.place = .queued op → key ≠ op.key) :
    (s.cancel j).2.Shows sel key u := by
  have hself : ∀ k ∈ [j], sel.stays k = false := fun k hk => List.mem_singleton.1 hk ▸ hj
  unfold Schedule.cancel
  cases ht : s.tasks[j]? with
  | none => exact h
  | some t =>
      obtain ⟨place, frames, flag⟩ := t
      cases place with
      | done => exact h
      | queued op =>
          dsimp only
          split
          · exact (h.setLock_aside (hop _ op ht rfl) _).wake_aside hself
          · exact h.modifyTask_aside hj _
      | atGate gate =>
          dsimp only
          split
          · refine (h.setGate_aside ?_).wake_aside hself
            exact congrArg (Gate.mk _) (Selection.waiters_cancel_other hj _)
          · exact h.modifyTask_aside hj _
      | _ => exact h.modifyTask_aside hj _

theorem cancel_of_done (hdone : ∀ t, s.tasks[j]? = some t → t.place = .done) : (s.cancel j).2 = s := by
  unfold Schedule.cancel
  cases ht : s.tasks[j]? with
  | none => rfl
  | some t =>
      obtain ⟨place, frames, flag⟩ := t
      obtain rfl : place = .done := hdone _ ht
      rfl

theorem start_aside (h : s.Shows sel key u) (hi : sel.stays i = false) {step : Step}
    (hstep : Elsewhere sel key s step) : (s.start i step).Shows sel key u := by
  have hplay : ∀ a, step.act? = some a → ((s.play a).2.returnWith i (s.play a).1).Shows sel key u := by
    intro a ha
    rcases hstep.other with ⟨k, hkey, hne⟩ | ⟨j, rfl⟩
    · exact (h.play_aside (Step.act?_aside ha hstep.plain hkey hne)).modifyTask_aside hi _
    · cases ha
  cases step with
  | call | force => exact h.modifyTask_aside hi _
  | release gate =>
      rcases hstep.other with ⟨k, hkey, -⟩ | ⟨j, hj⟩
      · cases hkey
      · cases hj
  | cancel j =>
      have hgone : (s.cancel j).2.Shows sel key u := by
        rcases hstep.cancels rfl with ⟨hj, hop⟩ | hdone
        · exact h.cancel_aside hj hop
        · rw [cancel_of_done hdone]
          exact h
      exact hgone.modifyTask_aside hi _
  | _ =>
      have h := hplay _ rfl
      exact h

theorem request_aside (h : s.Shows sel key u) (hhead : s.ready.head? = some i)
    (hi : sel.stays i = false) (t : Task) {op : Operation} (hk : key ≠ op.key) :
    (s.request t i op).Shows sel key u := by
  unfold Schedule.request
  dsimp only
  split
  · exact h.modifyTask_aside hi _
  · split
    · exact (h.setLock_aside hk _).modifyTask_aside hi _
    · exact (h.setLock_aside hk _).suspend_aside hhead hi t _

theorem leaveQueue_aside (h : s.Shows sel key u) (hi : sel.stays i = false) (t : Task)
    {op : Operation} (hk : key ≠ op.key)
    (hq : ∀ w ∈ (s.locks op.key).queue, sel.stays w.task = false) :
    (s.leaveQueue t i op).Shows sel key u := by
  unfold Schedule.leaveQueue
  dsimp only
  split
  · refine ((h.setLock_aside hk _).wake_aside fun j hj => ?_).modifyTask_aside hi _
    obtain ⟨w, hw, rfl⟩ := Lock.exists_of_mem_pass hj
    exact hq w (List.mem_of_mem_filter hw)
  · exact (h.setLock_aside hk _).modifyTask_aside hi _

theorem act_aside (h : s.Shows sel key u) (hi : sel.stays i = false) {op : Operation}
    (hk : key ≠ op.key ∧ op.step.Plain)
    (hq : ∀ w ∈ (s.locks op.key).queue, sel.stays w.task = false) : (s.act i op).Shows sel key u := by
  cases op with
  | call b k w inner =>
      have hne : key ≠ k := hk.1
      have hR : Accord k (Scene.Aside key u.scene) := aside_accord hne
      have hm := h.play_aside (hR.enterCall (aside_twins hne b) (hR.start_still hk.2.2))
      unfold Schedule.act
      dsimp only
      rcases hs : (b.enterCall k w).play s.scene with ⟨f | o | v, σ⟩ <;> rw [play_eq hs] at hm ⊢
      · exact (hm.unlock_aside hne hq).modifyTask_aside hi _
      · exact hm.modifyTask_aside hi _
      · exact (hm.unlock_aside hne hq).modifyTask_aside hi _
  | force b k target attempt =>
      have hne : key ≠ k := hk.1
      have hR : Accord k (Scene.Aside key u.scene) := aside_accord hne
      have hm := h.play_aside (hR.overwriteOnce (aside_twins hne b) target)
      unfold Schedule.act
      dsimp only
      rcases hs : (b.overwriteOnce k target).play s.scene with ⟨f | ⟨previous, r⟩, σ⟩ <;>
        rw [play_eq hs] at hm ⊢ <;> dsimp only
      · split
        · exact ((hm.unlock_aside hne hq).play_aside
            (hR.backOff (aside_twins hne b) target attempt)).modifyTask_aside hi _
        · exact (hm.unlock_aside hne hq).modifyTask_aside hi _
      · exact ((hm.unlock_aside hne hq).play_aside
          (hR.confirm (aside_twins hne b) target previous)).modifyTask_aside hi _

theorem conclude_aside (h : s.Shows sel key u) (hi : sel.stays i = false) {f : Frame}
    (hk : key ≠ f.key) (hq : ∀ w ∈ (s.locks f.key).queue, sel.stays w.task = false)
    (result : Except Failure Json) : (s.conclude i f result).Shows sel key u := by
  have hR : Accord f.key (Scene.Aside key u.scene) := aside_accord hk
  have hm := h.play_aside (hR.conclude (aside_twins hk f.breaker) f.opening result)
  exact (hm.unlock_aside hk hq).modifyTask_aside hi _

theorem work_aside (h : s.Shows sel key u) (hhead : s.ready.head? = some i)
    (hi : sel.stays i = false) (t : Task) {f : Frame} (hf : key ≠ f.key ∧ f.inner = [])
    (hq : ∀ w ∈ (s.locks f.key).queue, sel.stays w.task = false) :
    (s.work t i f).Shows sel key u := by
  unfold Schedule.work
  rw [hf.2]
  cases f.gate with
  | none => exact h.conclude_aside hi hf.1 hq f.result
  | some gate =>
      dsimp only
      split
      · exact h.conclude_aside hi hf.1 hq f.result
      · have hw : sel.stays (waiter t i).task = false := hi
        exact (h.setGate_aside (Selection.gate_join_other hw _)).suspend_aside hhead hi t _

theorem leaveGate_aside (h : s.Shows sel key u) (hi : sel.stays i = false) (t : Task) {f : Frame}
    (hk : key ≠ f.key) (hq : ∀ w ∈ (s.locks f.key).queue, sel.stays w.task = false)
    (gate : String) : (s.leaveGate t i f gate).Shows sel key u := by
  have hset := h.setGate_aside (Selection.gate_leave_other hi (s.gates gate))
  unfold Schedule.leaveGate
  dsimp only
  split
  · exact (hset.modifyTask_aside hi _).conclude_aside hi hk hq _
  · exact hset.conclude_aside hi hk hq _

theorem comeBack_aside (h : s.Shows sel key u) (hhead : s.ready.head? = some i)
    (hi : sel.stays i = false) (t : Task) (result : Except Failure Answer) :
    (s.comeBack t i result).Shows sel key u := by
  unfold Schedule.comeBack
  split
  · have hended : ({ s with ready := s.ready.tail, finished := (i, result) :: s.finished } :
        Schedule).Shows sel key u := by
      refine ⟨h.scene, h.tasks, h.count, ?_, h.lock, h.gates, ?_⟩
      · exact h.ready.trans (Selection.numbers_tail_other hhead hi).symm
      · exact h.finished.trans (Selection.results_cons_other hi).symm
    exact hended.modifyTask_aside hi _
  · have hnamed : (Event.inner result).key? ≠ some key := fun hk => by cases hk
    exact (h.play_aside (aside_emit hnamed)).modifyTask_aside hi _

/-- A task that does not stay goes on, and nothing of it shows. -/
theorem tick_aside (h : s.Shows sel key u) (hhead : s.ready.head? = some i)
    (hi : sel.stays i = false) (ht : s.tasks[i]? = some t) (hc : Strays sel key s t)
    (hq : ∀ k, key ≠ k → ∀ w ∈ (s.locks k).queue, sel.stays w.task = false) :
    s.tick.Shows sel key u := by
  have hdrops : ({ s with ready := s.ready.tail } : Schedule).Shows sel key u :=
    h.setReady_aside (Selection.numbers_tail_other hhead hi)
  rw [tick_eq_proceed hhead ht]
  obtain ⟨place, frames, flag⟩ := t
  cases place with
  | starting step =>
      cases frames with
      | nil =>
          change (s.begin _ i step).Shows sel key u
          unfold Schedule.begin
          split
          · exact h.modifyTask_aside hi _
          · exact h.start_aside hi (hc.starting rfl)
      | cons f fs => exact h.start_aside hi (hc.starting rfl)
  | requesting op => exact h.request_aside hhead hi _ (hc.operating (.inl rfl)).1
  | queued op =>
      have hk := (hc.operating (.inr (.inl rfl))).1
      exact h.leaveQueue_aside hi _ hk (hq _ hk)
  | acting op =>
      have hk := hc.operating (.inr (.inr rfl))
      exact h.act_aside hi hk (hq _ hk.1)
  | working =>
      cases frames with
      | nil => exact hdrops
      | cons f fs =>
          have hk := hc.frames f List.mem_cons_self
          exact h.work_aside hhead hi _ hk (hq _ hk.1)
  | atGate gate =>
      cases frames with
      | nil => exact hdrops
      | cons f fs =>
          have hk := (hc.frames f List.mem_cons_self).1
          exact h.leaveGate_aside hi _ hk (hq _ hk) gate
  | returning result => exact h.comeBack_aside hhead hi _ result
  | done => exact hdrops

end Shows

end Schedule

end KeyedBreaker
