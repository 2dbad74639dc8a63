import KeyedBreaker.Proofs.Schedule.Line

namespace KeyedBreaker

def Waits (sts : List Stand) (spot : Spot) (i : Nat) : Prop :=
  ∃ st, sts[i]? = some st ∧ st.place.spot? = some spot

variable {sts : List Stand} {st st' : Stand} {spot spot' : Spot} {i j : Nat}

theorem waits_set (hi : sts[i]? = some st) :
    Waits (sts.set i st') spot j ↔
      if j = i then st'.place.spot? = some spot else Waits sts spot j := by
  have hlt := (List.getElem?_eq_some_iff.1 hi).1
  unfold Waits
  split
  · subst j
    rw [List.getElem?_set_self hlt]
    simp
  · rename_i hj
    rw [List.getElem?_set_ne (Ne.symm hj)]

theorem Waits.unique (h : Waits sts spot i) (h' : Waits sts spot' i) : spot = spot' := by
  obtain ⟨st, hst, hs⟩ := h
  obtain ⟨st', hst', hs'⟩ := h'
  rw [hst] at hst'
  cases hst'
  rw [hs] at hs'
  exact Option.some.inj hs'

theorem not_waits (hi : sts[i]? = some st) (hst : st.place.spot? = none) (spot : Spot) :
    ¬ Waits sts spot i := by
  rintro ⟨st', hst', hs⟩
  rw [hi] at hst'
  cases hst'
  rw [hst] at hs
  cases hs

theorem of_add {step : Step} (hi : (sts ++ [⟨.starting step, []⟩])[i]? = some st) :
    sts[i]? = some st ∨ i = sts.length ∧ st = ⟨.starting step, []⟩ := by
  rcases Nat.lt_or_ge i sts.length with hlt | hge
  · exact .inl (by rwa [List.getElem?_append_left hlt] at hi)
  · have hlt := (List.getElem?_eq_some_iff.1 hi).1
    rw [List.length_append, List.length_singleton] at hlt
    obtain rfl : i = sts.length := by omega
    rw [List.getElem?_concat_length] at hi
    exact .inr ⟨rfl, (Option.some.inj hi).symm⟩

/-- A lock that nobody has is passed on to the first in its queue, if that one is pending. -/
theorem Lock.pass_cases (l : Lock) : l.pass = (l, []) ∨
    ∃ j q, l.holder = none ∧ l.queue = ⟨j, .pending⟩ :: q ∧
      l.pass = ({ l with queue := ⟨j, .woken⟩ :: q }, [j]) := by
  unfold pass
  split
  · rename_i j q hfree hq
    exact .inr ⟨j, q, hfree, hq, rfl⟩
  · exact .inl rfl

namespace Line

variable {l l' : Line} {key : String}

theorem queue_setQueue (q : List Waiter) :
    (l.setQueue spot q).queue spot' = if spot' = spot then q else l.queue spot' := by
  cases spot <;> cases spot' <;> simp only [setQueue, setLock, setGate, queue, Spot.lock.injEq,
    Spot.gate.injEq, reduceCtorEq, if_false]
  all_goals split
  all_goals rfl

theorem queue_setLock (lock : Lock) :
    (l.setLock key lock).queue spot = if spot = .lock key then lock.queue else l.queue spot := by
  cases spot with
  | gate => rfl
  | lock k =>
      simp only [queue, setLock, Spot.lock.injEq]
      split <;> rfl

def pass (l : Line) (key : String) : Line :=
  (l.setLock key (l.locks key).pass.1).wake (l.locks key).pass.2

theorem setLock_setLock (lock lock' : Lock) :
    (l.setLock key lock).setLock key lock' = l.setLock key lock' := by
  simp only [setLock, mk.injEq, true_and, and_true]
  funext k
  split <;> rfl

theorem locks_setLock_self (lock : Lock) : (l.setLock key lock).locks key = lock := if_pos rfl

theorem locks_setLock_ne {k : String} (lock : Lock) (h : k ≠ key) :
    (l.setLock key lock).locks k = l.locks k := if_neg h

theorem unlock_eq (l : Line) (key : String) :
    l.unlock key = (l.setLock key { l.locks key with holder := none }).pass key := by
  rw [pass, locks_setLock_self, setLock_setLock]
  rfl

theorem leave_eq (l : Line) (key : String) (i : Nat) :
    (l.setLock key ((l.locks key).leave i).1).wake ((l.locks key).leave i).2 =
      (l.setQueue (.lock key) (Waiter.leave i (l.queue (.lock key)))).pass key := by
  rw [pass, setQueue, locks_setLock_self, setLock_setLock]
  rfl

theorem queue_take {op : Operation} (spot : Spot) :
    (l.setLock op.key ((l.locks op.key).take i)).queue spot =
      (l.setQueue (.lock op.key) (Waiter.leave i (l.queue (.lock op.key)))).queue spot := by
  rw [queue_setLock, queue_setQueue]
  rfl

/-- The tasks in the queues are those that wait there. No task is in line twice, and none is there
while it waits. -/
structure Regular (l : Line) (sts : List Stand) : Prop where
  nodup : l.ready.Nodup
  known : ∀ i ∈ l.ready, i < sts.length
  queued : ∀ spot i, i ∈ (l.queue spot).map (·.task) ↔ Waits sts spot i
  distinct : ∀ spot, ((l.queue spot).map (·.task)).Nodup
  pending : ∀ spot, ∀ w ∈ l.queue spot, w.state = .pending → w.task ∉ l.ready

namespace Regular

theorem waits_of_mem (h : l.Regular sts) {w : Waiter} (hw : w ∈ l.queue spot) :
    Waits sts spot w.task := (h.queued spot w.task).1 (List.mem_map_of_mem hw)

theorem waits_of_mem_lock (h : l.Regular sts) {w : Waiter} (hw : w ∈ (l.locks key).queue) :
    Waits sts (.lock key) w.task := h.waits_of_mem hw

theorem congr (h : l.Regular sts) (hready : l'.ready = l.ready)
    (hqueue : ∀ spot, l'.queue spot = l.queue spot) : l'.Regular sts where
  nodup := hready ▸ h.nodup
  known := hready ▸ h.known
  queued spot := hqueue spot ▸ h.queued spot
  distinct spot := hqueue spot ▸ h.distinct spot
  pending spot := hqueue spot ▸ hready ▸ h.pending spot

theorem still (h : l.Regular sts) (hi : sts[i]? = some st) (hst : st.place.spot? = none)
    (hst' : st'.place.spot? = none) : l.Regular (sts.set i st') where
  nodup := h.nodup
  known := by
    rw [List.length_set]
    exact h.known
  queued spot j := by
    rw [h.queued, waits_set hi]
    split
    · subst j
      rw [hst']
      exact ⟨fun hw => absurd hw (not_waits hi hst spot), fun hs => by cases hs⟩
    · rfl
  distinct := h.distinct
  pending := h.pending

theorem of_woken (h : l.Regular sts) (l' : Line) (spot : Spot) (js : List Nat)
    (hother : ∀ spot', spot' ≠ spot → l'.queue spot' = l.queue spot')
    (hready : l'.ready = l.ready ++ js)
    (htasks : (l'.queue spot).map (·.task) = (l.queue spot).map (·.task))
    (hpending : ∀ w ∈ l'.queue spot, w.state = .pending → w.task ∉ js ∧ w ∈ l.queue spot)
    (hjs : js.Nodup)
    (hroused : ∀ j ∈ js, ∃ w ∈ l.queue spot, w.task = j ∧ w.state = .pending) :
    l'.Regular sts := by
  have hwaits : ∀ j ∈ js, Waits sts spot j := by
    intro j hj
    obtain ⟨w, hw, rfl, -⟩ := hroused j hj
    exact h.waits_of_mem hw
  refine ⟨?_, fun j hj => ?_, fun spot' j => ?_, fun spot' => ?_, fun spot' w hw hp => ?_⟩
  · rw [hready, List.nodup_append]
    refine ⟨h.nodup, hjs, fun j hj k hk hjk => ?_⟩
    subst hjk
    obtain ⟨w, hw, rfl, hp⟩ := hroused j hk
    exact h.pending spot w hw hp hj
  · rw [hready] at hj
    rcases List.mem_append.1 hj with hj | hj
    · exact h.known j hj
    · obtain ⟨st, hst, -⟩ := hwaits j hj
      exact (List.getElem?_eq_some_iff.1 hst).1
  · rw [← h.queued]
    by_cases hs : spot' = spot
    · rw [hs, htasks]
    · rw [hother spot' hs]
  · by_cases hs : spot' = spot
    · rw [hs, htasks]
      exact h.distinct spot
    · rw [hother spot' hs]
      exact h.distinct spot'
  · rw [hready, List.mem_append, not_or]
    by_cases hs : spot' = spot
    · subst hs
      obtain ⟨hnot, hmem⟩ := hpending w hw hp
      exact ⟨h.pending _ w hmem hp, hnot⟩
    · rw [hother spot' hs] at hw
      exact ⟨h.pending spot' w hw hp, fun hj => hs ((h.waits_of_mem hw).unique (hwaits _ hj))⟩

theorem leave (h : l.Regular sts) (hi : sts[i]? = some st) (hst : st.place.spot? = some spot)
    (hst' : st'.place.spot? = none) :
    (l.setQueue spot (Waiter.leave i (l.queue spot))).Regular (sts.set i st') := by
  have hmem : ∀ w, w ∈ Waiter.leave i (l.queue spot) ↔ w ∈ l.queue spot ∧ w.task ≠ i := by
    intro w
    rw [Waiter.leave, List.mem_filter, decide_eq_true_eq]
  have hready : (l.setQueue spot (Waiter.leave i (l.queue spot))).ready = l.ready := by
    cases spot <;> rfl
  refine ⟨hready ▸ h.nodup, ?_, fun spot' j => ?_, fun spot' => ?_, fun spot' w hw hp => ?_⟩
  · rw [hready, List.length_set]
    exact h.known
  · rw [queue_setQueue, waits_set hi, hst']
    by_cases hs : spot' = spot
    · subst hs
      rw [if_pos rfl, List.mem_map]
      split
      · subst j
        refine ⟨fun ⟨w, hw, ht⟩ => absurd ht ((hmem w).1 hw).2, fun he => by cases he⟩
      · rename_i hj
        rw [← h.queued, List.mem_map]
        refine ⟨fun ⟨w, hw, ht⟩ => ⟨w, ((hmem w).1 hw).1, ht⟩, fun ⟨w, hw, ht⟩ => ⟨w, ?_, ht⟩⟩
        exact (hmem w).2 ⟨hw, ht ▸ hj⟩
    · rw [if_neg hs, h.queued]
      split
      · subst j
        refine ⟨fun hw => absurd (hw.unique ⟨st, hi, hst⟩) hs, fun he => by cases he⟩
      · rfl
  · rw [queue_setQueue]
    split
    · exact (h.distinct spot).sublist (List.filter_sublist.map _)
    · exact h.distinct spot'
  · rw [hready]
    rw [queue_setQueue] at hw
    split at hw
    · exact h.pending spot w ((hmem w).1 hw).1 hp
    · exact h.pending spot' w hw hp

theorem drop (h : l.Regular sts) : l.drop.Regular sts where
  nodup := h.nodup.sublist (List.tail_sublist _)
  known i hi := h.known i (List.mem_of_mem_tail hi)
  queued := h.queued
  distinct := h.distinct
  pending spot w hw hp hr := h.pending spot w hw hp (List.mem_of_mem_tail hr)

theorem not_mem_drop (h : l.Regular sts) (hhead : l.ready.head? = some i) : i ∉ l.drop.ready := by
  obtain ⟨rest, hready⟩ := List.head?_eq_some_iff.1 hhead
  have hnodup := h.nodup
  rw [hready, List.nodup_cons] at hnodup
  rw [Line.drop, hready]
  exact hnodup.1

theorem setQueue_append {state : WaiterState} (h : l.Regular sts) (hready : i ∉ l.ready)
    (hi : sts[i]? = some st) (hst : st.place.spot? = none) (hst' : st'.place.spot? = some spot) :
    (l.setQueue spot (l.queue spot ++ [⟨i, state⟩])).Regular (sts.set i st') := by
  have hline : (l.setQueue spot (l.queue spot ++ [⟨i, state⟩])).ready = l.ready := by
    cases spot <;> rfl
  have hnot := not_waits hi hst
  refine ⟨hline ▸ h.nodup, ?_, fun spot' j => ?_, fun spot' => ?_, fun spot' w hw hp => ?_⟩
  · rw [hline, List.length_set]
    exact h.known
  · rw [queue_setQueue, waits_set hi, hst']
    by_cases hs : spot' = spot
    · subst hs
      rw [if_pos rfl, List.map_append, List.mem_append, h.queued, List.map_singleton,
        List.mem_singleton]
      split
      · subst j
        exact ⟨fun _ => rfl, fun _ => .inr rfl⟩
      · exact or_iff_left ‹_›
    · rw [if_neg hs, h.queued]
      split
      · subst j
        exact ⟨fun hw => absurd hw (hnot _), fun he => absurd (Option.some.inj he).symm hs⟩
      · rfl
  · rw [queue_setQueue]
    split
    · rw [List.map_append, List.nodup_append]
      refine ⟨h.distinct spot, List.nodup_singleton i, fun j hj k hk hjk => ?_⟩
      rw [List.map_singleton, List.mem_singleton] at hk
      have hki : k = i := hk
      exact hnot spot ((h.queued spot i).1 (hki ▸ hjk ▸ hj))
    · exact h.distinct spot'
  · rw [hline]
    rw [queue_setQueue] at hw
    split at hw
    · rcases List.mem_append.1 hw with hw | hw
      · exact h.pending spot w hw hp
      · rw [List.mem_singleton.1 hw]
        exact hready
    · exact h.pending spot' w hw hp

theorem lineUp {w : Waiter} (h : l.Regular sts) (hw : w ∈ l.queue spot) (hstate : w.state ≠ .pending)
    (hready : w.task ∉ l.ready) : (l.wake [w.task]).Regular sts := by
  have hwaits := h.waits_of_mem hw
  refine ⟨?_, fun j hj => ?_, h.queued, h.distinct, fun spot' v hv hp hj => ?_⟩
  · refine List.nodup_append.2 ⟨h.nodup, List.nodup_singleton _, fun j hj k hk hjk => ?_⟩
    rw [hjk, List.mem_singleton.1 hk] at hj
    exact hready hj
  · rcases List.mem_append.1 hj with hj | hj
    · exact h.known j hj
    · rw [List.mem_singleton.1 hj]
      obtain ⟨st, hst, -⟩ := hwaits
      exact (List.getElem?_eq_some_iff.1 hst).1
  · rcases List.mem_append.1 hj with hj | hj
    · exact h.pending spot' v hv hp hj
    · have htask : v.task = w.task := List.mem_singleton.1 hj
      have hspot : spot' = spot := (h.waits_of_mem hv).unique (htask ▸ hwaits)
      subst hspot
      -- no other waiter is there for the task
      obtain rfl : v = w := List.inj_on_of_nodup_map (h.distinct spot') hv hw htask
      exact hstate hp

theorem join {state : WaiterState} (h : l.Regular sts) (hhead : l.ready.head? = some i)
    (hi : sts[i]? = some st) (hst : st.place.spot? = none)
    (hst' : st'.place.spot? = some spot) :
    ((l.setQueue spot (l.queue spot ++ [⟨i, state⟩])).suspend i state).Regular (sts.set i st') := by
  have hready := h.not_mem_drop hhead
  have hjoined : (l.drop.setQueue spot (l.queue spot ++ [⟨i, state⟩])).Regular (sts.set i st') :=
    h.drop.setQueue_append hready hi hst hst'
  have hline : (l.setQueue spot (l.queue spot ++ [⟨i, state⟩])).suspend i state =
      (l.drop.setQueue spot (l.queue spot ++ [⟨i, state⟩])).wake
        (if state = .cancelled then [i] else []) := by
    cases spot <;> rfl
  rw [hline]
  split
  · rename_i hc
    have hmem : (⟨i, state⟩ : Waiter) ∈
        (l.drop.setQueue spot (l.queue spot ++ [⟨i, state⟩])).queue spot := by
      rw [queue_setQueue, if_pos rfl]
      exact List.mem_append_right _ List.mem_cons_self
    refine hjoined.lineUp hmem (fun hp => ?_) ?_
    · rw [hc] at hp
      cases hp
    · cases spot <;> exact hready
  · exact hjoined.congr (List.append_nil _) fun _ => rfl

theorem pass (h : l.Regular sts) (key : String) : (l.pass key).Regular sts := by
  have hready : (l.pass key).ready = l.ready ++ (l.locks key).pass.2 := rfl
  have hqueue : ∀ spot, (l.pass key).queue spot =
      if spot = .lock key then (l.locks key).pass.1.queue else l.queue spot := by
    intro spot
    rw [← queue_setLock]
    cases spot <;> rfl
  rcases (l.locks key).pass_cases with hpass | ⟨j, q, -, hq, hpass⟩
  · refine h.congr (by rw [hready, hpass, List.append_nil]) fun spot => ?_
    rw [hqueue, hpass]
    split
    · subst spot
      rfl
    · rfl
  · have hspot : l.queue (.lock key) = ⟨j, .pending⟩ :: q := hq
    have hlock : (l.pass key).queue (.lock key) = ⟨j, .woken⟩ :: q := by
      rw [hqueue, if_pos rfl, hpass]
    have hdistinct := h.distinct (.lock key)
    rw [hspot, List.map_cons, List.nodup_cons] at hdistinct
    refine h.of_woken (l.pass key) (.lock key) [j] (fun spot' hs => ?_) (by rw [hready, hpass]) ?_
      (fun w hw hp => ?_) (List.nodup_singleton j) fun k hk => ?_
    · rw [hqueue, if_neg hs]
    · rw [hlock, hspot]
      rfl
    · rw [hlock] at hw
      rcases List.mem_cons.1 hw with rfl | hw
      · cases hp
      · rw [hspot]
        refine ⟨fun hj => ?_, List.mem_cons_of_mem _ hw⟩
        rw [List.mem_singleton] at hj
        have hmem : w.task ∈ q.map (·.task) := List.mem_map_of_mem hw
        exact hdistinct.1 (hj ▸ hmem)
    · rw [List.mem_singleton.1 hk, hspot]
      exact ⟨_, List.mem_cons_self, rfl, rfl⟩

theorem release (h : l.Regular sts) (key : String) :
    (l.setLock key { l.locks key with holder := none }).Regular sts := by
  refine h.congr rfl fun spot => ?_
  rw [queue_setLock]
  split
  · subst spot
    rfl
  · rfl

theorem unlock (h : l.Regular sts) (key : String) : (l.unlock key).Regular sts := by
  rw [unlock_eq]
  exact (h.release key).pass key

theorem takesWoken {op : Operation} {fs : List Frame} (h : l.Regular sts)
    (hi : sts[i]? = some ⟨.queued op, fs⟩) :
    (l.setLock op.key ((l.locks op.key).take i)).Regular (sts.set i ⟨.acting op, fs⟩) :=
  (h.leave hi rfl rfl).congr rfl queue_take

theorem takesFree {op : Operation} {fs : List Frame} (h : l.Regular sts)
    (hi : sts[i]? = some ⟨.requesting op, fs⟩) :
    (l.setLock op.key ((l.locks op.key).take i)).Regular (sts.set i ⟨.acting op, fs⟩) := by
  have hleave : Waiter.leave i (l.queue (.lock op.key)) = l.queue (.lock op.key) := by
    refine List.filter_eq_self.2 fun w hw => decide_eq_true fun he => ?_
    exact not_waits hi rfl _ (he ▸ h.waits_of_mem hw)
  refine (h.still hi rfl rfl).congr rfl fun spot => ?_
  rw [queue_take, hleave, queue_setQueue]
  split
  · subst spot
    rfl
  · rfl

theorem openGate (h : l.Regular sts) (gate : String) :
    ((l.setGate gate (l.gates gate).release.1).wake (l.gates gate).release.2).Regular sts := by
  let l' := (l.setGate gate (l.gates gate).release.1).wake (l.gates gate).release.2
  have hqueue : l'.queue (.gate gate) = (l.queue (.gate gate)).map Gate.wake :=
    congrArg Gate.queue (if_pos rfl)
  have htask : ∀ w, (Gate.wake w).task = w.task := by
    intro w
    unfold Gate.wake
    split <;> rfl
  have hstate : ∀ w, (Gate.wake w).state ≠ .pending := by
    intro w hw
    unfold Gate.wake at hw
    split at hw
    · cases hw
    · exact absurd hw ‹_›
  refine h.of_woken l' (.gate gate) (l.gates gate).release.2 (fun spot hs => ?_) rfl ?_ (fun w hw hp => ?_) ?_
    fun j hj => ?_
  · cases spot with
    | lock => rfl
    | gate g => exact congrArg Gate.queue (if_neg fun hg => hs (congrArg Spot.gate hg))
  · rw [hqueue, List.map_map]
    exact List.map_congr_left fun w _ => htask w
  · rw [hqueue] at hw
    obtain ⟨w₀, -, rfl⟩ := List.mem_map.1 hw
    exact absurd hp (hstate w₀)
  · exact (h.distinct (.gate gate)).sublist (List.filter_sublist.map _)
  · obtain ⟨w, hw, rfl⟩ := List.mem_map.1 hj
    obtain ⟨hmem, hp⟩ := List.mem_filter.1 hw
    exact ⟨w, hmem, rfl, of_decide_eq_true hp⟩

theorem cancel (h : l.Regular sts) (hp : Waiter.isPending j (l.queue spot) = true) :
    ((l.setQueue spot (Waiter.cancel j (l.queue spot))).wake [j]).Regular sts := by
  let l' := (l.setQueue spot (Waiter.cancel j (l.queue spot))).wake [j]
  have hqueue : ∀ spot', l'.queue spot' =
      if spot' = spot then Waiter.cancel j (l.queue spot) else l.queue spot' := by
    intro spot'
    rw [← queue_setQueue]
    cases spot' <;> rfl
  refine h.of_woken l' spot [j] (fun spot' hs => ?_) ?_ ?_ (fun w hw hs => ?_)
    (List.nodup_singleton j) fun k hk => ?_
  · rw [hqueue, if_neg hs]
  · cases spot <;> rfl
  · rw [hqueue, if_pos rfl, Waiter.cancel, List.map_map]
    refine List.map_congr_left fun w _ => ?_
    rw [Function.comp_apply]
    split <;> rfl
  · rw [hqueue, if_pos rfl] at hw
    obtain ⟨w₀, hw₀, rfl⟩ := List.mem_map.1 hw
    split at hs
    · cases hs
    · rename_i hne
      rw [if_neg hne]
      exact ⟨fun hj => hne (List.mem_singleton.1 hj), hw₀⟩
  · rw [List.mem_singleton.1 hk]
    obtain ⟨w, hw, hd⟩ := List.any_eq_true.1 hp
    obtain ⟨hwj, hs⟩ := of_decide_eq_true hd
    exact ⟨w, hw, hwj, hs⟩

theorem drop_set (h : l.Regular sts) (hi : sts[i]? = some st)
    (hst : st.Halted ∧ st' = st ∨ (∃ result, st = ⟨.returning result, []⟩) ∧ st' = ⟨.done, []⟩) :
    l.drop.Regular (sts.set i st') := by
  rcases hst with ⟨-, rfl⟩ | ⟨⟨result, rfl⟩, rfl⟩
  · have hself : sts.set i st' = sts := by
      obtain ⟨hlt, he⟩ := List.getElem?_eq_some_iff.1 hi
      rw [← he, List.set_getElem_self]
    rw [hself]
    exact h.drop
  · exact h.drop.still hi rfl rfl

/-- A turn keeps the line regular. -/
theorem shift (h : l.Regular sts) (hhead : l.ready.head? = some i) (hi : sts[i]? = some st)
    (hshift : Shift i sts l st l' st') : l'.Regular (sts.set i st') := by
  cases hshift with
  | still hst hst' => exact h.still hi hst hst'
  | takes htakes =>
      rcases htakes with ⟨rfl, -⟩ | ⟨rfl, -⟩
      · exact h.takesFree hi
      · exact h.takesWoken hi
  | joins hst hst' => exact h.join hhead hi hst hst'
  | @leaves op =>
      rw [leave_eq]
      exact (h.leave hi rfl rfl).pass op.key
  | releases hst hst' => exact (h.still hi hst hst').unlock _
  | leavesGate => exact (h.leave hi rfl rfl).unlock _
  | opensGate => exact (h.openGate _).still hi rfl rfl
  | cancels hp => exact (h.cancel hp).still hi rfl rfl
  | drops hst => exact h.drop_set hi hst

theorem add (h : l.Regular sts) (step : Step) :
    ({ l with ready := l.ready ++ [sts.length] } : Line).Regular
      (sts ++ [⟨.starting step, []⟩]) := by
  have hfirst : ∀ {i st}, sts[i]? = some st →
      (sts ++ [⟨.starting step, []⟩])[i]? = some st := fun hi => by
    rwa [List.getElem?_append_left (List.getElem?_eq_some_iff.1 hi).1]
  have hwaits : ∀ spot i, Waits (sts ++ [⟨.starting step, []⟩]) spot i ↔ Waits sts spot i := by
    refine fun spot i => ⟨fun ⟨st, hi, hs⟩ => ?_, fun ⟨st, hi, hs⟩ => ⟨st, hfirst hi, hs⟩⟩
    rcases of_add hi with hi | ⟨-, rfl⟩
    · exact ⟨st, hi, hs⟩
    · cases hs
  refine ⟨?_, fun i hi => ?_, fun spot i => ?_, h.distinct, fun spot w hw hp hi => ?_⟩
  · rw [List.nodup_append]
    refine ⟨h.nodup, List.nodup_singleton _, fun i hi j hj hij => ?_⟩
    have hlt := h.known i hi
    rw [hij, List.mem_singleton.1 hj] at hlt
    exact Nat.lt_irrefl _ hlt
  · rw [List.length_append]
    rcases List.mem_append.1 hi with hi | hi
    · exact Nat.lt_add_right _ (h.known i hi)
    · rw [List.mem_singleton.1 hi]
      exact Nat.lt_succ_self _
  · rw [hwaits]
    exact h.queued spot i
  · rcases List.mem_append.1 hi with hi | hi
    · exact h.pending spot w hw hp hi
    · obtain ⟨st, hst, -⟩ := h.waits_of_mem hw
      have hlt := (List.getElem?_eq_some_iff.1 hst).1
      rw [List.mem_singleton.1 hi] at hlt
      exact Nat.lt_irrefl _ hlt

end Regular

theorem holder_pass (l : Line) (key k : String) :
    ((l.pass key).locks k).holder = (l.locks k).holder := by
  simp only [Line.pass, wake, setLock]
  split
  · subst k
    rcases (l.locks key).pass_cases with hpass | ⟨j, q, -, -, hpass⟩ <;> rw [hpass]
  · rfl

theorem holder_setQueue (spot : Spot) (q : List Waiter) (key : String) :
    ((l.setQueue spot q).locks key).holder = (l.locks key).holder := by
  cases spot with
  | gate => rfl
  | lock k =>
      by_cases hk : key = k
      · subst hk
        rw [setQueue, locks_setLock_self]
      · rw [setQueue, locks_setLock_ne _ hk]

theorem holder_unlock (l : Line) (key k : String) :
    ((l.unlock key).locks k).holder = if k = key then none else (l.locks k).holder := by
  rw [unlock_eq, holder_pass]
  split
  · subst k
    rw [locks_setLock_self]
  · rw [locks_setLock_ne _ ‹_›]

/-- The lock of a key is held by the task that acts for the key, and a waiter that was woken is the
first for a lock that nobody has. -/
structure Exclusive (l : Line) (sts : List Stand) : Prop extends Regular l sts where
  holder : ∀ key i, (l.locks key).holder = some i → i < sts.length
  held : ∀ key i st, sts[i]? = some st →
    st.occupies key = if (l.locks key).holder = some i then 1 else 0
  woken : ∀ key, ∀ w ∈ (l.locks key).queue, w.state = .woken →
    (l.locks key).holder = none ∧ (l.locks key).queue.head? = some w

namespace Exclusive

theorem regular (h : l.Exclusive sts) : l.Regular sts := h.toRegular

theorem holder_of_occupies (h : l.Exclusive sts) (hi : sts[i]? = some st)
    (hst : st.occupies key ≠ 0) : (l.locks key).holder = some i := by
  rw [h.held key i st hi] at hst
  by_contra hn
  exact hst (if_neg hn)

theorem occupies_of_free (h : l.Exclusive sts) (hi : sts[i]? = some st)
    (hfree : (l.locks key).holder = none) : st.occupies key = 0 := by
  rw [h.held key i st hi, hfree]
  exact if_neg nofun

theorem of_set (h : l.Exclusive sts) (hi : sts[i]? = some st) (hr : l'.Regular (sts.set i st'))
    (hheld : ∀ key, st'.occupies key = if (l'.locks key).holder = some i then 1 else 0)
    (hother : ∀ key j, j ≠ i → ((l'.locks key).holder = some j ↔ (l.locks key).holder = some j))
    (hwoken : ∀ key, ∀ w ∈ (l'.locks key).queue, w.state = .woken →
      (l'.locks key).holder = none ∧ (l'.locks key).queue.head? = some w) :
    l'.Exclusive (sts.set i st') := by
  have hlt := (List.getElem?_eq_some_iff.1 hi).1
  refine ⟨hr, fun key j hj => ?_, fun key j st₁ hj => ?_, hwoken⟩
  · rw [List.length_set]
    by_cases hij : j = i
    · exact hij ▸ hlt
    · exact h.holder key j ((hother key j hij).1 hj)
  · by_cases hij : j = i
    · subst hij
      rw [List.getElem?_set_self hlt] at hj
      cases hj
      exact hheld key
    · rw [List.getElem?_set_ne (Ne.symm hij)] at hj
      rw [h.held key j st₁ hj]
      simp only [hother key j hij]

theorem of_regular (h : l.Exclusive sts) (hr : l'.Regular (sts.set i st'))
    (hi : sts[i]? = some st) (hkey : ∀ key, st'.occupies key = st.occupies key)
    (hholder : ∀ key, (l'.locks key).holder = (l.locks key).holder)
    (hwoken : ∀ key, ∀ w ∈ (l'.locks key).queue, w.state = .woken →
      w ∈ (l.locks key).queue ∧ ((l.locks key).queue.head? = some w →
        (l'.locks key).queue.head? = some w)) : l'.Exclusive (sts.set i st') := by
  refine h.of_set hi hr (fun key => ?_) (fun key j _ => by rw [hholder]) fun key w hw hs => ?_
  · rw [hkey, hholder]
    exact h.held key i st hi
  · obtain ⟨hmem, hhead⟩ := hwoken key w hw hs
    obtain ⟨hfree, hold⟩ := h.woken key w hmem hs
    exact ⟨(hholder key).trans hfree, hhead hold⟩

theorem pass (h : l.Exclusive sts) (key : String) : (l.pass key).Exclusive sts := by
  have hholder := l.holder_pass key
  refine ⟨h.regular.pass key, fun k j hj => h.holder k j (hholder k ▸ hj), fun k j st hj => ?_,
    fun k w hw hs => ?_⟩
  · rw [hholder]
    exact h.held k j st hj
  · rw [hholder]
    by_cases hk : k = key
    · subst hk
      have hlock : (l.pass k).locks k = (l.locks k).pass.1 := if_pos rfl
      rw [hlock] at hw ⊢
      rcases (l.locks k).pass_cases with hpass | ⟨j, q, hfree, hq, hpass⟩ <;> rw [hpass] at hw ⊢
      · exact h.woken k w hw hs
      · rcases List.mem_cons.1 hw with rfl | hw
        · exact ⟨hfree, rfl⟩
        · -- the first waiter was pending, so no other one was woken
          have hfirst := (h.woken k w (hq ▸ List.mem_cons_of_mem _ hw) hs).2
          rw [hq] at hfirst
          cases hfirst
          cases hs
    · have hlock : (l.pass key).locks k = l.locks k := if_neg hk
      rw [hlock] at hw ⊢
      exact h.woken k w hw hs

theorem release (h : l.Exclusive sts) (hi : sts[i]? = some st) (hst : st.place.spot? = none)
    (hst' : st'.place.spot? = none)
    (hkey : ∀ k, st.occupies k = st'.occupies k + if key = k then 1 else 0) :
    (l.unlock key).Exclusive (sts.set i st') := by
  have hholder : (l.locks key).holder = some i := by
    refine h.holder_of_occupies hi ?_
    rw [hkey, if_pos rfl]
    exact Nat.succ_ne_zero _
  have hr := (h.regular.still hi hst hst').release key
  rw [unlock_eq]
  refine pass (h.of_set hi hr (fun k => ?_) (fun k j hj => ?_) fun k w hw hs => ?_) key
  · have hheld := h.held k i st hi
    rw [hkey] at hheld
    by_cases hk : k = key
    · subst hk
      rw [if_pos rfl, hholder, if_pos rfl] at hheld
      rw [locks_setLock_self, if_neg nofun]
      omega
    · rwa [if_neg (Ne.symm hk), Nat.add_zero, ← locks_setLock_ne _ hk] at hheld
  · by_cases hk : k = key
    · subst hk
      rw [locks_setLock_self, hholder]
      exact ⟨fun he => (by cases he), fun he => absurd (Option.some.inj he).symm hj⟩
    · rw [locks_setLock_ne _ hk]
  · by_cases hk : k = key
    · subst hk
      rw [locks_setLock_self] at hw
      have hfree := (h.woken k w hw hs).1
      rw [hholder] at hfree
      cases hfree
    · rw [locks_setLock_ne _ hk] at hw ⊢
      exact h.woken k w hw hs

theorem take {op : Operation} {fs : List Frame} (h : l.Exclusive sts) (hi : sts[i]? = some st)
    (hst : ∀ k, st.occupies k = fs.countP (·.key = k)) (hfree : (l.locks op.key).holder = none)
    (hr : (l.setLock op.key ((l.locks op.key).take i)).Regular (sts.set i ⟨.acting op, fs⟩))
    (hwoken : ∀ w ∈ Waiter.leave i (l.locks op.key).queue, w.state ≠ .woken) :
    (l.setLock op.key ((l.locks op.key).take i)).Exclusive (sts.set i ⟨.acting op, fs⟩) := by
  refine h.of_set hi hr (fun k => ?_) (fun k j hj => ?_) fun k w hw hs => ?_
  · have hheld := h.held k i st hi
    rw [hst] at hheld
    rw [Schedule.occupies_acting]
    by_cases hk : k = op.key
    · subst hk
      rw [hfree, if_neg nofun] at hheld
      rw [hheld, if_pos rfl, locks_setLock_self, Lock.take, if_pos rfl]
    · rw [if_neg (Ne.symm hk), locks_setLock_ne _ hk, hheld, Nat.add_zero]
  · by_cases hk : k = op.key
    · subst hk
      rw [locks_setLock_self, hfree, Lock.take]
      exact ⟨fun he => absurd (Option.some.inj he).symm hj, fun he => (by cases he)⟩
    · rw [locks_setLock_ne _ hk]
  · by_cases hk : k = op.key
    · subst hk
      rw [locks_setLock_self] at hw
      exact absurd hs (hwoken w hw)
    · rw [locks_setLock_ne _ hk] at hw ⊢
      exact h.woken k w hw hs

theorem takesFree {op : Operation} {fs : List Frame} (h : l.Exclusive sts)
    (hi : sts[i]? = some ⟨.requesting op, fs⟩) (hfree : (l.locks op.key).isFree = true) :
    (l.setLock op.key ((l.locks op.key).take i)).Exclusive (sts.set i ⟨.acting op, fs⟩) := by
  rw [Lock.isFree, Bool.and_eq_true, Option.isNone_iff_eq_none] at hfree
  obtain ⟨hfree, hall⟩ := hfree
  refine h.take hi (fun k => Nat.zero_add _) hfree (h.regular.takesFree hi) fun w hw hs => ?_
  have hc := List.all_eq_true.1 hall w (List.mem_of_mem_filter hw)
  rw [hs] at hc
  cases hc

/-- A task that waits for a lock, can go on and was not cancelled was woken, so that it is the first in
the queue of a lock that nobody has. -/
theorem woken_of_ready (h : l.Exclusive sts) (hready : i ∈ l.ready)
    (hwaits : Waits sts (.lock key) i)
    (hnot : Waiter.isCancelled i (l.locks key).queue = false) :
    (l.locks key).holder = none ∧
      ∃ w, (l.locks key).queue.head? = some w ∧ w.task = i ∧ w.state = .woken := by
  obtain ⟨w, hw, hwi⟩ := List.mem_map.1 ((h.regular.queued (.lock key) i).2 hwaits)
  have hwoken : w.state = .woken := by
    cases hs : w.state with
    | woken => rfl
    | pending => exact absurd (hwi ▸ hready) (h.regular.pending _ w hw hs)
    | cancelled =>
        have hc : Waiter.isCancelled i (l.locks key).queue = true :=
          List.any_eq_true.2 ⟨w, hw, decide_eq_true ⟨hwi, hs⟩⟩
        rw [hnot] at hc
        cases hc
  obtain ⟨hfree, hfirst⟩ := h.woken key w hw hwoken
  exact ⟨hfree, w, hfirst, hwi, hwoken⟩

theorem takesWoken {op : Operation} {fs : List Frame} (h : l.Exclusive sts) (hready : i ∈ l.ready)
    (hi : sts[i]? = some ⟨.queued op, fs⟩)
    (hnot : Waiter.isCancelled i (l.locks op.key).queue = false) :
    (l.setLock op.key ((l.locks op.key).take i)).Exclusive (sts.set i ⟨.acting op, fs⟩) := by
  obtain ⟨hfree, w, hfirst, hwi, -⟩ := h.woken_of_ready hready ⟨_, hi, rfl⟩ hnot
  refine h.take hi (fun k => Nat.zero_add _) hfree (h.regular.takesWoken hi) fun w' hw' hs' => ?_
  -- only one task is woken at a time
  obtain ⟨hmem, hne⟩ := List.mem_filter.1 hw'
  have hfirst' := (h.woken op.key w' hmem hs').2
  rw [hfirst] at hfirst'
  cases hfirst'
  exact of_decide_eq_true hne hwi

theorem of_setQueue {q : List Waiter} {l' : Line} (h : l.Exclusive sts)
    (hr : l'.Regular (sts.set i st')) (hi : sts[i]? = some st)
    (hkey : ∀ key, st'.occupies key = st.occupies key)
    (hlocks : l'.locks = (l.setQueue spot q).locks)
    (hwoken : ∀ key, spot = .lock key → ∀ w ∈ q, w.state = .woken → w ∈ (l.locks key).queue ∧
      ((l.locks key).queue.head? = some w → q.head? = some w)) : l'.Exclusive (sts.set i st') := by
  refine h.of_regular hr hi hkey (fun key => ?_) fun key w hw hs => ?_
  · rw [hlocks]
    exact holder_setQueue spot q key
  · rw [hlocks] at hw ⊢
    cases spot with
    | gate => exact ⟨hw, id⟩
    | lock k =>
        by_cases hk : key = k
        · subst hk
          rw [setQueue, locks_setLock_self] at hw ⊢
          exact hwoken key rfl w hw hs
        · rw [setQueue, locks_setLock_ne _ hk] at hw ⊢
          exact ⟨hw, id⟩

theorem setQueue_suspend {state : WaiterState} (h : l.Exclusive sts) (hhead : l.ready.head? = some i)
    (hi : sts[i]? = some st) (hst : st.place.spot? = none) (hst' : st'.place.spot? = some spot)
    (hkey : ∀ key, st'.occupies key = st.occupies key) (hstate : state ≠ .woken) :
    ((l.setQueue spot (l.queue spot ++ [⟨i, state⟩])).suspend i state).Exclusive (sts.set i st') := by
  refine h.of_setQueue (h.regular.join hhead hi hst hst') hi hkey rfl fun key hspot w hw hs => ?_
  subst hspot
  rcases List.mem_append.1 hw with hw | hw
  · refine ⟨hw, fun hfirst => ?_⟩
    exact (List.head?_append_of_ne_nil _ (List.ne_nil_of_mem hw)).trans hfirst
  · cases List.mem_singleton.1 hw
    exact absurd hs hstate

theorem setLock_leave {op : Operation} {fs : List Frame} {result : Except Failure Answer}
    (h : l.Exclusive sts) (hi : sts[i]? = some ⟨.queued op, fs⟩) :
    ((l.setLock op.key ((l.locks op.key).leave i).1).wake ((l.locks op.key).leave i).2).Exclusive
      (sts.set i ⟨.returning result, fs⟩) := by
  have hr : (l.setQueue (.lock op.key) (Waiter.leave i (l.queue (.lock op.key)))).Regular
      (sts.set i ⟨.returning result, fs⟩) := h.regular.leave hi rfl rfl
  rw [leave_eq]
  refine pass (h.of_setQueue hr hi (fun _ => rfl) rfl fun key hspot w hw hs => ?_) op.key
  cases hspot
  obtain ⟨hmem, hne⟩ := List.mem_filter.1 hw
  refine ⟨hmem, fun hfirst => ?_⟩
  obtain ⟨q, hq⟩ := List.head?_eq_some_iff.1 hfirst
  change (Waiter.leave i (l.locks op.key).queue).head? = some w
  rw [hq, Waiter.leave, List.filter_cons, if_pos hne]
  rfl

theorem leavesGate {gate : String} {f : Frame} {fs : List Frame} {result : Except Failure Answer}
    (h : l.Exclusive sts) (hi : sts[i]? = some ⟨.atGate gate, f :: fs⟩) :
    ((l.setQueue (.gate gate) (Waiter.leave i (l.queue (.gate gate)))).unlock f.key).Exclusive
      (sts.set i ⟨.returning result, fs⟩) := by
  have hlt := (List.getElem?_eq_some_iff.1 hi).1
  have hr : (l.setQueue (.gate gate) (Waiter.leave i (l.queue (.gate gate)))).Regular
      (sts.set i ⟨.working, f :: fs⟩) := h.regular.leave hi rfl rfl
  have hgate := h.of_regular hr hi (fun _ => rfl) (fun _ => rfl) fun key w hw _ => ⟨hw, id⟩
  have hset : (sts.set i ⟨.working, f :: fs⟩).set i ⟨.returning result, fs⟩ =
      sts.set i ⟨.returning result, fs⟩ := List.set_set _
  rw [← hset]
  exact hgate.release (List.getElem?_set_self hlt) rfl rfl
    fun k => Schedule.occupies_cons _ f fs k

theorem cancels {step : Step} {fs : List Frame} {result : Except Failure Answer} (h : l.Exclusive sts)
    (hi : sts[i]? = some ⟨.starting step, fs⟩) (hp : Waiter.isPending j (l.queue spot) = true) :
    ((l.setQueue spot (Waiter.cancel j (l.queue spot))).wake [j]).Exclusive
      (sts.set i ⟨.returning result, fs⟩) := by
  refine h.of_setQueue ((h.regular.cancel hp).still hi rfl rfl) hi (fun _ => rfl) rfl
    fun key hspot w hw hs => ?_
  subst hspot
  obtain ⟨w₀, hw₀, rfl⟩ := List.mem_map.1 hw
  split at hs
  · cases hs
  · rename_i hne
    rw [if_neg hne]
    refine ⟨hw₀, fun hfirst => ?_⟩
    change (Waiter.cancel j (l.locks key).queue).head? = some w₀
    rw [Waiter.cancel, List.head?_map, hfirst, Option.map_some, if_neg hne]

theorem drop_set (h : l.Exclusive sts) (hi : sts[i]? = some st)
    (hst : st.Halted ∧ st' = st ∨ (∃ result, st = ⟨.returning result, []⟩) ∧ st' = ⟨.done, []⟩) :
    l.drop.Exclusive (sts.set i st') := by
  refine h.of_regular (h.regular.drop_set hi hst) hi (fun key => ?_) (fun _ => rfl)
    fun key w hw _ => ⟨hw, id⟩
  rcases hst with ⟨-, rfl⟩ | ⟨⟨result, rfl⟩, rfl⟩ <;> rfl

/-- A turn keeps mutual exclusion. -/
theorem shift (h : l.Exclusive sts) (hhead : l.ready.head? = some i) (hi : sts[i]? = some st)
    (hshift : Shift i sts l st l' st') : l'.Exclusive (sts.set i st') := by
  cases hshift with
  | still hst hst' hkey =>
      exact h.of_regular (h.regular.still hi hst hst') hi hkey (fun _ => rfl)
        fun key w hw _ => ⟨hw, id⟩
  | takes htakes =>
      rcases htakes with ⟨rfl, hfree⟩ | ⟨rfl, hnot⟩
      · exact h.takesFree hi hfree
      · exact h.takesWoken (List.mem_of_mem_head? hhead) hi hnot
  | joins hst hst' hkey hstate => exact h.setQueue_suspend hhead hi hst hst' hkey hstate
  | leaves => exact h.setLock_leave hi
  | releases hst hst' hkey => exact h.release hi hst hst' hkey
  | leavesGate => exact h.leavesGate hi
  | @opensGate step gate fs result =>
      exact h.of_regular (Regular.still (h.regular.openGate gate) hi rfl rfl) hi (fun _ => rfl)
        (fun _ => rfl) fun key w hw _ => ⟨hw, id⟩
  | cancels hp => exact h.cancels hi hp
  | drops hst => exact h.drop_set hi hst

theorem add (h : l.Exclusive sts) (step : Step) :
    ({ l with ready := l.ready ++ [sts.length] } : Line).Exclusive
      (sts ++ [⟨.starting step, []⟩]) := by
  refine ⟨h.regular.add step, fun key i hi => ?_, fun key i st hi => ?_, h.woken⟩
  · rw [List.length_append]
    exact Nat.lt_add_right _ (h.holder key i hi)
  · rcases of_add hi with hi | ⟨rfl, rfl⟩
    · exact h.held key i st hi
    · refine (if_neg fun he => ?_).symm
      exact Nat.lt_irrefl _ (h.holder key _ he)

end Exclusive

end Line

namespace Schedule

variable {s : Schedule}

structure Guarded (s : Schedule) : Prop where
  grounded : s.Grounded fun _ => True
  hasLocks : s.scene.store.hasLocks = true
  exclusive : s.line.Exclusive s.stands

theorem Guarded.tick (h : s.Guarded) : s.tick.Guarded := by
  have hground : s.tick.Grounded fun _ => True := h.grounded.move (m := .turn) (fun _ hm => by cases hm)
  have hlocks : s.tick.scene.store.hasLocks = true := by
    rcases s.tick_moves with ⟨hscene, -, -⟩ | ⟨i, st, -, hst, st', hturn, -⟩
    · rw [hscene, h.hasLocks]
    · obtain ⟨-, key, rs, hg⟩ :=
        hturn.grows h.grounded.scene (h.grounded.stands st (List.mem_of_getElem? hst))
      rw [hg.hasLocks, h.hasLocks]
  refine ⟨hground, hlocks, ?_⟩
  rcases tick_shifts h.hasLocks fun i hi => h.exclusive.known i (List.mem_of_mem_head? hi) with
    ⟨-, htick⟩ | ⟨i, st, hhead, hi, st', hshift, hstands⟩
  · rw [htick]
    exact h.exclusive
  · rw [hstands]
    exact h.exclusive.shift hhead hi hshift

theorem Guarded.add (h : s.Guarded) {step : Step}
    (hstep : step.Everywhere (Step.Undisturbed fun _ => True)) : (s.add step).Guarded := by
  refine ⟨h.grounded.move (m := .submit step) (fun _ hm => by cases hm; exact hstep), h.hasLocks,
    ?_⟩
  have hadd := h.exclusive.add step
  rw [stands_add]
  have hlength : s.stands.length = s.tasks.length := List.length_map _
  rw [hlength] at hadd
  exact hadd

theorem regular_atRest (t : Instant) (store : Store) :
    (atRest t store).line.Regular (atRest t store).stands := by
  refine ⟨List.nodup_nil, fun i hi => absurd hi List.not_mem_nil, fun spot i => ?_, fun spot => ?_,
    fun spot w hw => ?_⟩
  · refine ⟨fun hi => ?_, fun ⟨st, hst, _⟩ => by cases hst⟩
    cases spot <;> cases hi
  · cases spot <;> exact List.nodup_nil
  · cases spot <;> cases hw

theorem guarded_atRest (t : Instant) (writes : List (String × Record)) :
    (atRest t (.memory writes)).Guarded := by
  refine ⟨grounded_of_no_tasks rfl fun _ => rfl, rfl, ⟨regular_atRest t _, ?_, ?_, ?_⟩⟩
  · exact fun key i hi => by cases hi
  · exact fun key i st hi => by cases hi
  · exact fun key w hw => by cases hw

theorem Guarded.unique (h : s.Guarded) {key : String} {i j : Nat} {st st' : Stand}
    (hi : s.stands[i]? = some st) (hj : s.stands[j]? = some st') (hst : st.occupies key ≠ 0)
    (hst' : st'.occupies key ≠ 0) : i = j := by
  have hheld := h.exclusive.holder_of_occupies hi hst
  rw [h.exclusive.holder_of_occupies hj hst'] at hheld
  exact (Option.some.inj hheld).symm

def running (s : Schedule) : List String := s.stands.flatMap fun st => st.frames.map (·.key)

theorem occupies_of_mem {st : Stand} {f : Frame} (h : f ∈ st.frames) : st.occupies f.key ≠ 0 := by
  have hpos : 0 < st.frames.countP (·.key = f.key) :=
    List.countP_pos_iff.2 ⟨f, h, decide_eq_true rfl⟩
  rw [Stand.occupies]
  omega

theorem Guarded.nodup_running (h : s.Guarded) : s.running.Nodup := by
  refine List.nodup_flatMap.2 ⟨fun st hst => ?_, List.pairwise_iff_getElem.2 ?_⟩
  · obtain ⟨i, hi⟩ := List.getElem?_of_mem hst
    refine List.nodup_iff_count_le_one.2 fun key => ?_
    have hheld := h.exclusive.held key i st hi
    have hcount : (st.frames.map (·.key)).count key ≤ st.occupies key := by
      rw [List.count, List.countP_map, Stand.occupies]
      refine Nat.le_add_left_of_le (le_of_eq (List.countP_congr fun f _ => ?_))
      simp
    split at hheld <;> omega
  · intro i j hi hj hij key hkey hkey'
    obtain ⟨f, hf, rfl⟩ := List.mem_map.1 hkey
    obtain ⟨g, hg, hgf⟩ := List.mem_map.1 hkey'
    have hocc := occupies_of_mem hg
    rw [hgf] at hocc
    exact Nat.ne_of_lt hij (h.unique (List.getElem?_eq_getElem hi) (List.getElem?_eq_getElem hj)
      (occupies_of_mem hf) hocc)

end Schedule

end KeyedBreaker
