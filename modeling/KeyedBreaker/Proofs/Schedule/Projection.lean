import KeyedBreaker.Proofs.Schedule.Selection

namespace KeyedBreaker

namespace Schedule

open Act

/-- The second schedule is what is left of the first one when only the selected tasks stay. -/
structure Shows (sel : Selection) (key : String) (s u : Schedule) : Prop where
  scene : s.scene.Alongside key u.scene
  tasks : ∀ i, sel.stays i = true →
    u.tasks[sel.rank i]? = s.tasks[i]?.map (Task.renumber sel.rank)
  count : u.tasks.length = sel.rank s.tasks.length
  ready : u.ready = sel.numbers s.ready
  lock : u.locks key = sel.lock (s.locks key)
  gates : ∀ gate, u.gates gate = sel.gate (s.gates gate)
  finished : u.finished = sel.results s.finished

structure Selects (sel : Selection) (key : String) (s : Schedule) (step : Step) : Prop where
  plain : step.Plain
  onKey : ∀ k ∈ step.key?, k = key
  cancels : ∀ {j}, step = .cancel j → sel.stays j = true ∧
    ∀ t op, s.tasks[j]? = some t → t.place = .queued op → op.key = key

structure Concerns (sel : Selection) (key : String) (s : Schedule) (t : Task) : Prop where
  starting : ∀ {step}, t.place = .starting step → Selects sel key s step
  operating : ∀ {op}, t.place = .requesting op ∨ t.place = .queued op ∨ t.place = .acting op →
    op.key = key
  frames : ∀ f ∈ t.frames, f.key = key ∧ f.inner = []

namespace Shows

variable {α : Type} {sel : Selection} {key : String} {s u : Schedule} {i j : Nat} {t : Task}

theorem modifyTask (h : s.Shows sel key u) (hi : sel.stays i = true) {f f' : Task → Task}
    (hf : ∀ t, (f t).renumber sel.rank = f' (t.renumber sel.rank)) :
    (s.modifyTask i f).Shows sel key (u.modifyTask (sel.rank i) f') := by
  refine ⟨h.scene, fun j hj => ?_, ?_, h.ready, h.lock, h.gates, h.finished⟩
  · change (u.tasks.modify _ _)[sel.rank j]? = (s.tasks.modify _ _)[j]?.map _
    by_cases hij : i = j
    · subst hij
      rw [List.getElem?_modify_eq, List.getElem?_modify_eq, h.tasks i hi]
      cases s.tasks[i]? with
      | none => rfl
      | some t => exact congrArg some (hf t).symm
    · rw [List.getElem?_modify_ne _ _ hij,
        List.getElem?_modify_ne _ _ fun hr => hij (sel.injective hi hj hr)]
      exact h.tasks j hj
  · change (u.tasks.modify _ _).length = sel.rank (s.tasks.modify _ _).length
    rw [List.length_modify, List.length_modify, h.count]

theorem wake (h : s.Shows sel key u) (woken : List Nat) :
    (s.wake woken).Shows sel key (u.wake (sel.numbers woken)) := by
  refine ⟨h.scene, h.tasks, h.count, ?_, h.lock, h.gates, h.finished⟩
  change u.ready ++ _ = sel.numbers (s.ready ++ woken)
  rw [Selection.numbers_append, h.ready]

theorem setReady (h : s.Shows sel key u) (ready : List Nat) :
    ({ s with ready } : Schedule).Shows sel key { u with ready := sel.numbers ready } :=
  ⟨h.scene, h.tasks, h.count, rfl, h.lock, h.gates, h.finished⟩

theorem setGate (h : s.Shows sel key u) (gate : String) (g : Gate) :
    (s.setGate gate g).Shows sel key (u.setGate gate (sel.gate g)) := by
  refine ⟨h.scene, h.tasks, h.count, h.ready, h.lock, fun other => ?_, h.finished⟩
  change (if other = gate then _ else _) = sel.gate (if other = gate then _ else _)
  split
  · rfl
  · exact h.gates other

theorem setLock (h : s.Shows sel key u) (l : Lock) :
    (s.setLock key l).Shows sel key (u.setLock key (sel.lock l)) := by
  refine ⟨h.scene, h.tasks, h.count, h.ready, ?_, h.gates, h.finished⟩
  change (if key = key then _ else _) = sel.lock (if key = key then _ else _)
  rw [if_pos rfl, if_pos rfl]

theorem play (h : s.Shows sel key u) {a : Act α} (ha : a.Respects (Scene.Alongside key)) :
    (u.play a).1 = (s.play a).1 ∧ (s.play a).2.Shows sel key (u.play a).2 := by
  obtain ⟨hout, hscene⟩ := ha s.scene u.scene h.scene
  exact ⟨hout, hscene, h.tasks, h.count, h.ready, h.lock, h.gates, h.finished⟩

theorem unlock (h : s.Shows sel key u) (hq : ∀ w ∈ (s.locks key).queue, sel.stays w.task = true) :
    (s.unlock key).Shows sel key (u.unlock key) := by
  unfold Schedule.unlock
  rw [h.scene.hasLocks, h.lock, Selection.release_lock hq]
  split
  · exact (h.setLock _).wake _
  · exact h

theorem suspend (h : s.Shows sel key u) (hhead : s.ready.head? = some i) (hi : sel.stays i = true)
    (t : Task) (p : Place) :
    (s.suspend t i p).Shows sel key
      (u.suspend (t.renumber sel.rank) (sel.rank i) (p.renumber sel.rank)) := by
  have hready : sel.numbers (s.ready.tail ++ if t.cancelRequested then [i] else []) =
      u.ready.tail ++ if t.cancelRequested then [sel.rank i] else [] := by
    rw [Selection.numbers_append, h.ready, Selection.numbers_tail hhead hi]
    split
    · rw [Selection.numbers_self hi]
    · rfl
  have hset := h.setReady (s.ready.tail ++ if t.cancelRequested then [i] else [])
  rw [hready] at hset
  exact hset.modifyTask hi fun _ => rfl

theorem giveUp (h : s.Shows sel key u) (hi : sel.stays i = true) :
    (s.giveUp i).Shows sel key (u.giveUp (sel.rank i)) := h.modifyTask hi fun _ => rfl

theorem returnWith (h : s.Shows sel key u) (hi : sel.stays i = true)
    (result : Except Failure Answer) :
    (s.returnWith i result).Shows sel key (u.returnWith (sel.rank i) result) :=
  h.modifyTask hi fun _ => rfl

theorem cancel (h : s.Shows sel key u) (hj : sel.stays j = true)
    (hop : ∀ t op, s.tasks[j]? = some t → t.place = .queued op → op.key = key) :
    (u.cancel (sel.rank j)).1 = (s.cancel j).1 ∧
      (s.cancel j).2.Shows sel key (u.cancel (sel.rank j)).2 := by
  have hflag : (s.modifyTask j fun t => { t with cancelRequested := true }).Shows sel key
      (u.modifyTask (sel.rank j) fun t => { t with cancelRequested := true }) :=
    h.modifyTask hj fun _ => rfl
  unfold Schedule.cancel
  rw [h.tasks j hj]
  cases ht : s.tasks[j]? with
  | none => exact ⟨rfl, h⟩
  | some t =>
      obtain ⟨place, frames, flag⟩ := t
      cases place with
      | done => exact ⟨rfl, h⟩
      | queued op =>
          obtain rfl : op.key = key := hop _ op ht rfl
          have hset := h.setLock { s.locks op.key with queue := Waiter.cancel j (s.locks op.key).queue }
          rw [Selection.lock_cancel hj] at hset
          dsimp only [Option.map_some, Task.renumber, Place.renumber]
          rw [h.lock, Selection.isPending_lock hj]
          split
          · refine ⟨rfl, ?_⟩
            rw [← Selection.numbers_self hj]
            exact hset.wake [j]
          · exact ⟨rfl, hflag⟩
      | atGate gate =>
          have hset := h.setGate gate { s.gates gate with queue := Waiter.cancel j (s.gates gate).queue }
          rw [Selection.gate_cancel hj] at hset
          dsimp only [Option.map_some, Task.renumber, Place.renumber]
          rw [h.gates, Selection.isPending_gate hj]
          split
          · refine ⟨rfl, ?_⟩
            rw [← Selection.numbers_self hj]
            exact hset.wake [j]
          · exact ⟨rfl, hflag⟩
      | _ => exact ⟨rfl, hflag⟩

theorem start (h : s.Shows sel key u) (hi : sel.stays i = true) {step : Step}
    (hstep : Selects sel key s step) :
    (s.start i step).Shows sel key (u.start (sel.rank i) (step.renumber sel.rank)) := by
  have hplay : ∀ a, step.act? = some a → ((s.play a).2.returnWith i (s.play a).1).Shows sel key
      ((u.play a).2.returnWith (sel.rank i) (u.play a).1) := by
    intro a ha
    obtain ⟨hout, hm⟩ := h.play (Step.act?_alongside ha hstep.plain hstep.onKey)
    rw [hout]
    exact hm.returnWith hi _
  cases step with
  | call b key w inner => exact h.modifyTask hi fun _ => rfl
  | force b key target => exact h.modifyTask hi fun _ => rfl
  | release gate =>
      unfold Schedule.start
      dsimp only [Step.renumber]
      rw [h.gates, Selection.release_gate]
      exact ((h.setGate gate _).wake _).returnWith hi _
  | cancel j =>
      obtain ⟨hj, hop⟩ := hstep.cancels rfl
      obtain ⟨hout, hm⟩ := h.cancel hj hop
      unfold Schedule.start
      dsimp only [Step.renumber]
      rw [hout]
      exact hm.returnWith hi _
  | _ =>
      have h := hplay _ rfl
      exact h

theorem begin (h : s.Shows sel key u) (hi : sel.stays i = true) (t : Task) {step : Step}
    (hstep : Selects sel key s step) :
    (s.begin t i step).Shows sel key
      (u.begin (t.renumber sel.rank) (sel.rank i) (step.renumber sel.rank)) := by
  unfold Schedule.begin
  change Shows sel key _ (if t.cancelRequested = true then _ else _)
  split
  · exact h.giveUp hi
  · exact h.start hi hstep

theorem request (h : s.Shows sel key u) (hhead : s.ready.head? = some i) (hi : sel.stays i = true)
    (hq : ∀ w ∈ (s.locks key).queue, sel.stays w.task = true) (t : Task) {op : Operation}
    (hkey : op.key = key) :
    (s.request t i op).Shows sel key (u.request (t.renumber sel.rank) (sel.rank i) op) := by
  subst hkey
  unfold Schedule.request
  dsimp only
  rw [h.scene.hasLocks, h.lock, Selection.isFree_lock hq]
  split
  · exact h.modifyTask hi fun _ => rfl
  · split
    · have hset := h.setLock ((s.locks op.key).take i)
      rw [Selection.lock_take hi] at hset
      exact hset.modifyTask hi fun _ => rfl
    · have hw : sel.stays (waiter t i).task = true := hi
      have hset := h.setLock ((s.locks op.key).join (waiter t i))
      rw [Selection.lock_join hw] at hset
      exact hset.suspend hhead hi t (.queued op)

theorem leaveQueue (h : s.Shows sel key u) (hi : sel.stays i = true)
    (hq : ∀ w ∈ (s.locks key).queue, sel.stays w.task = true) (t : Task) {op : Operation}
    (hkey : op.key = key) :
    (s.leaveQueue t i op).Shows sel key (u.leaveQueue (t.renumber sel.rank) (sel.rank i) op) := by
  subst hkey
  unfold Schedule.leaveQueue
  dsimp only
  rw [h.lock, Selection.isCancelled_lock hi, Selection.leave_lock hq hi]
  change Shows sel op.key _ (if (t.cancelRequested || _) = true then _ else _)
  split
  · exact ((h.setLock _).wake _).giveUp hi
  · have hset := h.setLock ((s.locks op.key).take i)
    rw [Selection.lock_take hi] at hset
    exact hset.modifyTask hi fun _ => rfl

theorem act (h : s.Shows sel key u) (hi : sel.stays i = true)
    (hq : ∀ w ∈ (s.locks key).queue, sel.stays w.task = true) {op : Operation}
    (hkey : op.key = key) : (s.act i op).Shows sel key (u.act (sel.rank i) op) := by
  have hR := alongside_likeness key
  cases op with
  | call b k w inner =>
      obtain rfl : k = key := hkey
      obtain ⟨hout, hm⟩ := h.play (hR.enterCall b w)
      unfold Schedule.act
      dsimp only
      rcases hu : u.play (b.enterCall k w) with ⟨out', u₁⟩
      rcases hs : (b.enterCall k w).play s.scene with ⟨out, σ⟩
      rw [play_eq hs] at hout hm ⊢
      rw [hu] at hout hm
      obtain rfl : out' = out := hout
      cases out' with
      | error f => exact (hm.unlock hq).returnWith hi _
      | ok stage =>
          cases stage with
          | running o => exact hm.modifyTask hi fun _ => rfl
          | ended v => exact (hm.unlock hq).returnWith hi _
  | force b k target attempt =>
      obtain rfl : k = key := hkey
      obtain ⟨hout, hm⟩ := h.play (hR.overwriteOnce b target)
      unfold Schedule.act
      dsimp only
      rcases hu : u.play (b.overwriteOnce k target) with ⟨out', u₁⟩
      rcases hs : (b.overwriteOnce k target).play s.scene with ⟨out, σ⟩
      rw [play_eq hs] at hout hm ⊢
      rw [hu] at hout hm
      obtain rfl : out' = out := hout
      cases out' with
      | ok stored =>
          obtain ⟨hout', hm'⟩ := (hm.unlock hq).play (hR.confirm b target stored.1)
          dsimp only
          rw [hout']
          exact hm'.returnWith hi _
      | error f =>
          dsimp only
          split
          · obtain ⟨-, hm'⟩ := (hm.unlock hq).play (hR.backOff b target attempt)
            exact hm'.modifyTask hi fun _ => rfl
          · exact (hm.unlock hq).returnWith hi _

theorem conclude (h : s.Shows sel key u) (hi : sel.stays i = true)
    (hq : ∀ w ∈ (s.locks key).queue, sel.stays w.task = true) {f : Frame} (hkey : f.key = key)
    (result : Except Failure Json) :
    (s.conclude i f result).Shows sel key (u.conclude (sel.rank i) f result) := by
  subst hkey
  obtain ⟨hout, hm⟩ := h.play ((alongside_likeness f.key).conclude f.breaker f.opening result)
  unfold Schedule.conclude
  dsimp only
  rw [hout]
  exact (hm.unlock hq).modifyTask hi fun _ => rfl

theorem work (h : s.Shows sel key u) (hhead : s.ready.head? = some i) (hi : sel.stays i = true)
    (hq : ∀ w ∈ (s.locks key).queue, sel.stays w.task = true) (t : Task) {f : Frame}
    (hf : f.key = key ∧ f.inner = []) :
    (s.work t i f).Shows sel key (u.work (t.renumber sel.rank) (sel.rank i) f) := by
  unfold Schedule.work
  rw [hf.2]
  cases f.gate with
  | none => exact h.conclude hi hq hf.1 f.result
  | some gate =>
      dsimp only
      rw [h.gates]
      change Shows sel key _ (if (s.gates gate).isOpen = true then _ else _)
      split
      · exact h.conclude hi hq hf.1 f.result
      · have hw : sel.stays (waiter t i).task = true := hi
        have hset := h.setGate gate ((s.gates gate).join (waiter t i))
        rw [Selection.gate_join hw] at hset
        exact hset.suspend hhead hi t (.atGate gate)

theorem leaveGate (h : s.Shows sel key u) (hi : sel.stays i = true)
    (hq : ∀ w ∈ (s.locks key).queue, sel.stays w.task = true) (t : Task) {f : Frame}
    (hkey : f.key = key) (gate : String) :
    (s.leaveGate t i f gate).Shows sel key
      (u.leaveGate (t.renumber sel.rank) (sel.rank i) f gate) := by
  have hset := h.setGate gate ((s.gates gate).leave i)
  rw [Selection.gate_leave hi] at hset
  unfold Schedule.leaveGate
  dsimp only
  rw [h.gates, Selection.isCancelled_gate hi]
  change Shows sel key _ (if (t.cancelRequested || _) = true then _ else _)
  split
  · let clear : Task → Task := fun t => { t with cancelRequested := false }
    have hcleared : ((s.setGate gate ((s.gates gate).leave i)).modifyTask i clear).Shows sel key
        ((u.setGate gate ((sel.gate (s.gates gate)).leave (sel.rank i))).modifyTask (sel.rank i)
          clear) := hset.modifyTask hi fun _ => rfl
    exact hcleared.conclude hi hq hkey _
  · exact hset.conclude hi hq hkey _

theorem comeBack (h : s.Shows sel key u) (hhead : s.ready.head? = some i) (hi : sel.stays i = true)
    (t : Task) (result : Except Failure Answer) :
    (s.comeBack t i result).Shows sel key
      (u.comeBack (t.renumber sel.rank) (sel.rank i) result) := by
  unfold Schedule.comeBack
  dsimp only [Task.renumber]
  split
  · have hended : ({ s with ready := s.ready.tail, finished := (i, result) :: s.finished } :
        Schedule).Shows sel key
          { u with ready := u.ready.tail, finished := (sel.rank i, result) :: u.finished } := by
      refine ⟨h.scene, h.tasks, h.count, ?_, h.lock, h.gates, ?_⟩
      · exact (congrArg List.tail h.ready).trans (Selection.numbers_tail hhead hi)
      · exact (congrArg _ h.finished).trans (Selection.results_cons hi).symm
    exact hended.modifyTask hi fun _ => rfl
  · obtain ⟨-, hm⟩ := h.play ((alongside_likeness key).utters (utters_emit (.inner result)))
    exact hm.modifyTask hi fun _ => rfl

theorem ready_tail (h : s.Shows sel key u) (hhead : s.ready.head? = some i) (hi : sel.stays i = true) :
    ({ s with ready := s.ready.tail } : Schedule).Shows sel key { u with ready := u.ready.tail } := by
  rw [h.ready, Selection.numbers_tail hhead hi]
  exact h.setReady s.ready.tail

theorem proceed (h : s.Shows sel key u) (hhead : s.ready.head? = some i) (hi : sel.stays i = true)
    (hq : ∀ w ∈ (s.locks key).queue, sel.stays w.task = true) (hc : Concerns sel key s t) :
    (s.proceed t i).Shows sel key (u.proceed (t.renumber sel.rank) (sel.rank i)) := by
  obtain ⟨place, frames, flag⟩ := t
  cases place with
  | starting step =>
      cases frames with
      | nil => exact h.begin hi _ (hc.starting rfl)
      | cons f fs => exact h.start hi (hc.starting rfl)
  | requesting op => exact h.request hhead hi hq _ (hc.operating (.inl rfl))
  | queued op => exact h.leaveQueue hi hq _ (hc.operating (.inr (.inl rfl)))
  | acting op => exact h.act hi hq (hc.operating (.inr (.inr rfl)))
  | working =>
      cases frames with
      | nil => exact h.ready_tail hhead hi
      | cons f fs => exact h.work hhead hi hq _ (hc.frames f List.mem_cons_self)
  | atGate gate =>
      cases frames with
      | nil => exact h.ready_tail hhead hi
      | cons f fs => exact h.leaveGate hi hq _ (hc.frames f List.mem_cons_self).1 gate
  | returning result => exact h.comeBack hhead hi _ result
  | done => exact h.ready_tail hhead hi

/-- A task that stays takes its turn in both schedules. -/
theorem tick (h : s.Shows sel key u) (hhead : s.ready.head? = some i) (hi : sel.stays i = true)
    (hq : ∀ w ∈ (s.locks key).queue, sel.stays w.task = true) (ht : s.tasks[i]? = some t)
    (hc : Concerns sel key s t) : s.tick.Shows sel key u.tick := by
  have hhead' : u.ready.head? = some (sel.rank i) := by
    rw [h.ready]
    exact Selection.head?_numbers hhead hi
  have ht' : u.tasks[sel.rank i]? = some (t.renumber sel.rank) := by
    rw [h.tasks i hi, ht]
    rfl
  rw [tick_eq_proceed hhead ht, tick_eq_proceed hhead' ht']
  exact h.proceed hhead hi hq hc

end Shows

end Schedule

end KeyedBreaker
