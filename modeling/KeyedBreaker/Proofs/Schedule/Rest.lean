import KeyedBreaker.Proofs.Schedule.Wakeful

namespace KeyedBreaker

def Stand.weight (st : Stand) : Nat :=
  st.place.weight + (st.frames.map fun f => Step.weights f.inner + 3).sum

theorem Step.three_le_weight (step : Step) : 3 ≤ step.weight := by
  cases step <;> simp only [Step.weight] <;> omega

theorem Stand.weight_cons (p : Place) (f : Frame) (fs : List Frame) :
    (⟨p, f :: fs⟩ : Stand).weight = (⟨p, fs⟩ : Stand).weight + (Step.weights f.inner + 3) := by
  simp only [weight, List.map_cons, List.sum_cons]
  omega

theorem Operation.weight_lt {step : Step} {op : Operation} (h : step.operation? = some op) :
    op.weight + 2 < step.weight := by
  cases step <;> cases h <;> simp only [Operation.weight, Step.weight] <;> omega

theorem Operation.three_le_weight (op : Operation) : 3 ≤ op.weight := by
  cases op <;> simp only [Operation.weight] <;> omega

theorem Turn.lighter {σ σ' : Scene} {st st' : Stand} (h : Turn σ st σ' st') :
    st'.weight < st.weight := by
  have hplace : ∀ {p q : Place} (fs : List Frame), q.weight < p.weight →
      (⟨q, fs⟩ : Stand).weight < (⟨p, fs⟩ : Stand).weight := fun _ h => Nat.add_lt_add_right h _
  have hacting : ∀ op : Operation, 3 ≤ (Place.acting op).weight := Operation.three_le_weight
  cases h with
  | asks ho => exact hplace _ (Operation.weight_lt ho)
  | plays | signals => exact hplace _ (Step.three_le_weight _)
  | waits => exact hplace _ (Nat.lt_succ_self _)
  | enters => exact hplace _ (Nat.lt_add_of_pos_right Nat.two_pos)
  | wakes => exact hplace _ (Nat.lt_succ_self _)
  | leaves => exact hplace _ (Nat.lt_succ_of_lt (Operation.three_le_weight _))
  | ends | breaks | forces | fails => exact hplace _ (hacting _)
  | opens =>
      rw [Stand.weight_cons]
      simp only [Stand.weight, Place.weight, Operation.weight]
      omega
  | retries _ _ hlt =>
      refine hplace _ ?_
      simp only [Place.weight, Operation.weight]
      omega
  | nests hi =>
      rw [Stand.weight_cons, Stand.weight_cons, hi]
      simp only [Stand.weight, Place.weight, Step.weights]
      omega
  | pauses => exact hplace _ Nat.one_pos
  | concludes =>
      rw [Stand.weight_cons]
      simp only [Stand.weight, Place.weight]
      omega
  | finishes => exact hplace _ Nat.two_pos
  | resumes => exact hplace _ Nat.one_lt_two

theorem weights_set {sts : List Stand} {i : Nat} {st st' : Stand} (hi : sts[i]? = some st)
    (h : st'.weight < st.weight) :
    ((sts.set i st').map Stand.weight).sum < (sts.map Stand.weight).sum := by
  induction sts generalizing i with
  | nil => cases hi
  | cons first rest ih =>
      cases i with
      | zero =>
          cases hi
          exact Nat.add_lt_add_right h _
      | succ i => exact Nat.add_lt_add_left (ih hi) _

theorem Lock.exists_of_mem_pass {l : Lock} {j : Nat} (h : j ∈ l.pass.2) : ∃ w ∈ l.queue, w.task = j := by
  unfold pass at h
  split at h
  · rename_i task q hfree hq
    exact ⟨_, hq ▸ List.mem_cons_self, (List.mem_singleton.1 h).symm⟩
  · cases h

namespace Line

variable {l l' : Line} {sts sts' : List Stand} {st st' : Stand} {i : Nat} {key : String}

structure Follows (l : Line) (sts : List Stand) (l' : Line) (sts' : List Stand) : Prop where
  regular : l'.Regular sts'
  ready : ∀ j ∈ l'.ready, j ∈ l.ready ∨ ∃ spot, Waits sts spot j

theorem Regular.waits_of_mem_pass (h : l.Regular sts) {lock : Lock} {j : Nat} (hj : j ∈ lock.pass.2)
    (hqueue : ∀ w ∈ lock.queue, w ∈ (l.locks key).queue) : ∃ spot, Waits sts spot j := by
  obtain ⟨w, hw, rfl⟩ := Lock.exists_of_mem_pass hj
  exact ⟨.lock key, h.waits_of_mem_lock (hqueue w hw)⟩

theorem Regular.follows (h : l.Regular sts) (hhead : l.ready.head? = some i) (hi : sts[i]? = some st)
    (hshift : Shift i sts l st l' st') : l.Follows sts l' (sts.set i st') := by
  refine ⟨h.shift hhead hi hshift, fun j hj => ?_⟩
  have hwoken : ∀ {woken : List Nat}, (∀ j ∈ woken, ∃ spot, Waits sts spot j) →
      j ∈ l.ready ++ woken → j ∈ l.ready ∨ ∃ spot, Waits sts spot j :=
    fun hw hj => (List.mem_append.1 hj).imp id (hw j)
  cases hshift with
  | still | takes => exact .inl hj
  | @joins _ _ spot state =>
      refine .inl ?_
      have hj : j ∈ l.ready.tail ++ if state = .cancelled then [i] else [] := by
        cases spot <;> exact hj
      rcases List.mem_append.1 hj with hj | hj
      · exact List.mem_of_mem_tail hj
      · split at hj
        · exact List.mem_singleton.1 hj ▸ List.mem_of_mem_head? hhead
        · cases hj
  | leaves => exact hwoken (fun j hj => h.waits_of_mem_pass hj fun w hw => List.mem_of_mem_filter hw) hj
  | releases | leavesGate =>
      have hreleased : ∀ {k : String}, ∀ j ∈ (l.locks k).release.2, ∃ spot, Waits sts spot j :=
        fun j hj => h.waits_of_mem_pass hj fun w hw => hw
      exact hwoken hreleased hj
  | @opensGate _ gate =>
      refine hwoken (fun j hj => ?_) hj
      obtain ⟨w, hw, rfl⟩ := List.mem_map.1 hj
      exact ⟨.gate gate, h.waits_of_mem (List.mem_of_mem_filter hw)⟩
  | @cancels _ k spot _ _ hp =>
      obtain ⟨w, hw, hd⟩ := List.any_eq_true.1 hp
      obtain ⟨rfl, -⟩ := of_decide_eq_true hd
      have hj : j ∈ l.ready ++ [w.task] := by cases spot <;> exact hj
      exact hwoken (fun j hj => ⟨spot, List.mem_singleton.1 hj ▸ h.waits_of_mem hw⟩) hj
  | drops => exact .inl (List.mem_of_mem_tail hj)

/-- Everybody in line has something to do. -/
structure Tidy (l : Line) (sts : List Stand) : Prop extends Regular l sts where
  alive : ∀ i ∈ l.ready, ∀ st, sts[i]? = some st → st.place ≠ .done

theorem Tidy.regular (h : l.Tidy sts) : l.Regular sts := h.toRegular

theorem Tidy.follow (h : l.Tidy sts) (hi : sts[i]? = some st)
    (hf : l.Follows sts l' (sts.set i st')) (hst' : i ∈ l'.ready → st'.place ≠ .done) :
    l'.Tidy (sts.set i st') := by
  refine ⟨hf.regular, fun j hj st₁ hst₁ hdone => ?_⟩
  by_cases hij : i = j
  · subst hij
    rw [List.getElem?_set_self (List.getElem?_eq_some_iff.1 hi).1] at hst₁
    cases hst₁
    exact hst' hj hdone
  · rw [List.getElem?_set_ne hij] at hst₁
    rcases hf.ready j hj with hj | ⟨spot, st₂, hst₂, hs⟩
    · exact h.alive j hj st₁ hst₁ hdone
    · rw [hst₁] at hst₂
      cases hst₂
      rw [hdone] at hs
      cases hs

theorem Tidy.add (h : l.Tidy sts) (step : Step) :
    ({ l with ready := l.ready ++ [sts.length] } : Line).Tidy (sts ++ [⟨.starting step, []⟩]) := by
  refine ⟨h.regular.add step, fun j hj st hst => ?_⟩
  rcases of_add hst with hst | ⟨-, rfl⟩
  · refine h.alive j ((List.mem_append.1 hj).resolve_right fun hlast => ?_) st hst
    rw [List.mem_singleton.1 hlast] at hst
    exact Nat.lt_irrefl _ (List.getElem?_eq_some_iff.1 hst).1
  · exact fun h => by cases h

end Line

namespace Schedule

variable {s : Schedule} {i : Nat} {st : Stand} {fs : List Frame}

theorem Shifts.follows {s' : Schedule} (hs : s.Shifts i st s') (h : s.line.Regular s.stands)
    (hhead : s.ready.head? = some i) (hi : s.stands[i]? = some st) :
    s.line.Follows s.stands s'.line s'.stands := by
  obtain ⟨st', hshift, hstands⟩ := hs
  rw [hstands]
  exact h.follows hhead hi hshift

theorem Moves.follows {s' : Schedule} (hm : s.Moves i st s') (h : s.line.Regular s.stands)
    (hi : s.stands[i]? = some st) (hline : s'.line = s.line) (hst : st.place.spot? = none)
    (hspot : ∀ {σ st'}, Turn s.scene st σ st' → st'.place.spot? = none) :
    s.line.Follows s.stands s'.line s'.stands := by
  obtain ⟨st', hturn, hstands⟩ := hm
  rw [hline, hstands]
  exact ⟨h.still hi hst (hspot hturn), fun j hj => .inl hj⟩

theorem line_unlock_free (h : s.scene.store.hasLocks = false) (key : String) :
    (s.unlock key).line = s.line := by
  unfold unlock
  rw [h]
  rfl

theorem line_act_free (hm : s.scene.store.hasLocks = false) (op : Operation) :
    (s.act i op).line = s.line := by
  have hfree : ∀ {σ : Scene}, σ.store.hasLocks = s.scene.store.hasLocks →
      (({ s with scene := σ } : Schedule).unlock op.key).line = s.line :=
    fun hσ => line_unlock_free (s := { s with scene := _ }) (hσ.trans hm) op.key
  cases op with
  | call b key w inner =>
      unfold act
      dsimp only
      rcases hp : (b.enterCall key w).play s.scene with ⟨f | o | v, σ⟩ <;> rw [play_eq hp]
      · exact hfree (Breaker.hasLocks_enterCall hp)
      · rfl
      · exact hfree (Breaker.hasLocks_enterCall hp)
  | force b key target attempt =>
      unfold act
      dsimp only
      rcases hp : (b.overwriteOnce key target).play s.scene with ⟨f | r, σ⟩ <;> rw [play_eq hp] <;>
        dsimp only
      · split
        · exact hfree (Breaker.hasLocks_overwriteOnce hp)
        · exact hfree (Breaker.hasLocks_overwriteOnce hp)
      · exact hfree (Breaker.hasLocks_overwriteOnce hp)

theorem line_conclude_free {f : Frame} (hm : s.scene.store.hasLocks = false)
    (result : Except Failure Json) : (s.conclude i f result).line = s.line := by
  unfold conclude
  dsimp only
  rcases hp : (f.breaker.conclude f.key f.opening result).play s.scene with ⟨out, σ⟩
  rw [play_eq hp]
  exact line_unlock_free (s := { s with scene := σ }) ((Breaker.hasLocks_conclude hp).trans hm) f.key

theorem tick_follows_free (hm : s.scene.store.hasLocks = false) (h : s.line.Regular s.stands)
    (hhead : s.ready.head? = some i) (hi : s.stands[i]? = some st) (hst : ¬ st.Halted) :
    s.line.Follows s.stands s.tick.line s.tick.stands := by
  have hmoves := tick_of_head hhead hi hst
  obtain ⟨t, ht, rfl⟩ := task_of_stands hi
  rw [tick_eq_proceed hhead ht] at hmoves ⊢
  obtain ⟨place, frames, flag⟩ := t
  cases place with
  | starting step =>
      cases frames with
      | nil => exact (begin_shifts hi).follows h hhead hi
      | cons f fs => exact (start_shifts hi).follows h hhead hi
  | requesting op =>
      have hacts : s.request ⟨.requesting op, frames, flag⟩ i op = s.goTo i (.acting op) := by
        unfold request
        rw [hm]
        rfl
      change s.line.Follows s.stands (s.request _ i op).line (s.request _ i op).stands
      rw [hacts, stands_goTo hi]
      exact ⟨h.still hi rfl rfl, fun j hj => .inl hj⟩
  | queued op => exact (leaveQueue_shifts hi).follows h hhead hi
  | acting op =>
      refine hmoves.follows h hi (line_act_free hm op) rfl fun hturn => ?_
      cases hturn <;> rfl
  | working =>
      cases frames with
      | nil => exact absurd .idle hst
      | cons f fs =>
          change s.line.Follows s.stands (s.work _ i f).line (s.work _ i f).stands
          rcases work_cases (t := ⟨.working, f :: fs, flag⟩) hi with hends | hshifts
          · rw [hends, line_conclude_free hm, (conclude_seen hi f.result).2]
            exact ⟨h.still hi rfl rfl, fun j hj => .inl hj⟩
          · exact hshifts.follows h hhead hi
  | atGate gate =>
      cases frames with
      | nil => exact absurd .atGate hst
      | cons f fs =>
          change s.line.Follows s.stands (s.leaveGate _ i f gate).line (s.leaveGate _ i f gate).stands
          obtain ⟨left, result, hends, hscene, hstands, hline⟩ :=
            s.leaveGate_eq ⟨.atGate gate, f :: fs, flag⟩ i f gate
          rw [hends, line_conclude_free (hscene ▸ hm), hline,
            (conclude_seen (hstands ▸ hi) result).2, hstands]
          exact ⟨h.leave hi rfl rfl, fun j hj => .inl hj⟩
  | returning result => exact (comeBack_shifts hi rfl).follows h hhead hi
  | done => exact absurd .done hst

theorem tick_follows (h : s.line.Regular s.stands) (hhead : s.ready.head? = some i)
    (hi : s.stands[i]? = some st) (hst : ¬ st.Halted) :
    s.line.Follows s.stands s.tick.line s.tick.stands := by
  cases hm : s.scene.store.hasLocks with
  | false => exact tick_follows_free hm h hhead hi hst
  | true =>
      rcases tick_shifts hm fun i hi => h.known i (List.mem_of_mem_head? hi) with
        ⟨hready, -⟩ | ⟨j, st', hj, hst', hshifts⟩
      · rw [hready] at hhead
        cases hhead
      · exact hshifts.follows h hj hst'

structure Tidy (s : Schedule) : Prop where
  line : s.line.Tidy s.stands
  whole : ∀ st ∈ s.stands, st.Whole

theorem Tidy.head (h : s.Tidy) (hhead : s.ready.head? = some i) :
    ∃ st, s.stands[i]? = some st ∧ ¬ st.Halted := by
  have hmem : i ∈ s.ready := List.mem_of_mem_head? hhead
  have hst := List.getElem?_eq_getElem (h.line.known i hmem)
  refine ⟨_, hst, fun hhalted => h.line.alive i hmem _ hst ?_⟩
  exact (h.whole _ (List.mem_of_getElem? hst)).done_of_halted hhalted

theorem not_mem_of_done {σ : Scene} {st' : Stand} (h : s.ready.Nodup) (hhead : s.ready.head? = some i)
    (hi : s.stands[i]? = some st) (hturn : Turn s.scene st σ st')
    (hdone : st'.place = .done) : i ∉ s.tick.ready := by
  obtain ⟨rest, hready⟩ := List.head?_eq_some_iff.1 hhead
  obtain ⟨t, ht, hstand⟩ := task_of_stands hi
  obtain ⟨place, frames, flag⟩ := t
  rw [hready, List.nodup_cons] at h
  rw [tick_eq_proceed hhead ht]
  cases hturn with
  | finishes =>
      cases hstand
      change i ∉ s.ready.tail
      rw [hready]
      exact h.1
  | _ => cases hdone

theorem Tidy.tick (h : s.Tidy) : s.tick.Tidy := by
  cases hhead : s.ready.head? with
  | none =>
      rw [tick_of_nil (List.head?_eq_none_iff.1 hhead)]
      exact h
  | some i =>
      obtain ⟨st, hi, hst⟩ := h.head hhead
      obtain ⟨st', hturn, hstands⟩ := tick_of_head hhead hi hst
      have hf := tick_follows h.line.regular hhead hi hst
      refine ⟨?_, fun other hmem => ?_⟩
      · rw [hstands] at hf ⊢
        exact h.line.follow hi hf fun hmem hdone =>
          not_mem_of_done h.line.nodup hhead hi hturn hdone hmem
      · rw [hstands] at hmem
        rcases List.mem_or_eq_of_mem_set hmem with hmem | rfl
        · exact h.whole other hmem
        · exact hturn.whole

theorem Tidy.add (h : s.Tidy) (step : Step) : (s.add step).Tidy := by
  have hlength : s.stands.length = s.tasks.length := List.length_map _
  have hadd := h.line.add step
  rw [hlength] at hadd
  refine ⟨?_, fun st hst => ?_⟩
  · rw [stands_add]
    exact hadd
  · rw [stands_add] at hst
    rcases List.mem_append.1 hst with hst | hst
    · exact h.whole st hst
    · rw [List.mem_singleton.1 hst]
      exact Stand.whole_of_busy (by simp) (by simp) (by simp)

theorem Tidy.after (h : s.Tidy) (ms : List Move) : (s.after ms).Tidy := by
  refine after_induction (Q := fun _ => True) (fun s m h _ => ?_) h fun _ _ => trivial
  cases m with
  | submit step => exact h.add step
  | turn => exact h.tick

theorem tidy_atRest (t : Instant) (store : Store) : (atRest t store).Tidy where
  line := ⟨regular_atRest t store, fun _ hi => absurd hi List.not_mem_nil⟩
  whole _ hst := absurd hst List.not_mem_nil

theorem weight_eq (s : Schedule) : s.weight = (s.stands.map Stand.weight).sum := by
  rw [weight, stands, List.map_map]
  rfl

theorem Tidy.lighter (h : s.Tidy) (hhead : s.ready.head? = some i) : s.tick.weight < s.weight := by
  obtain ⟨st, hi, hst⟩ := h.head hhead
  obtain ⟨st', hturn, hstands⟩ := tick_of_head hhead hi hst
  rw [weight_eq, weight_eq, hstands]
  exact weights_set hi hturn.lighter

theorem runFor_of_rest (h : s.ready = []) (n : Nat) : s.runFor n = s := by
  cases n with
  | zero => rfl
  | succ n =>
      rw [runFor, h]
      rfl

theorem runFor_of_head (h : s.ready.head? = some i) (n : Nat) : s.runFor (n + 1) = s.tick.runFor n := by
  obtain ⟨rest, hready⟩ := List.head?_eq_some_iff.1 h
  rw [runFor, hready]
  rfl

theorem Tidy.runFor_rests (h : s.Tidy) {n : Nat} (hn : s.weight ≤ n) : (s.runFor n).ready = [] := by
  induction n generalizing s with
  | zero =>
      cases hhead : s.ready.head? with
      | none => exact List.head?_eq_none_iff.1 hhead
      | some i =>
          have hlt := h.lighter hhead
          omega
  | succ n ih =>
      cases hhead : s.ready.head? with
      | none =>
          have hrest := List.head?_eq_none_iff.1 hhead
          rw [runFor_of_rest hrest]
          exact hrest
      | some i =>
          have hlt := h.lighter hhead
          rw [runFor_of_head hhead]
          exact ih h.tick (by omega)

/-- A run goes on until nobody can go on. -/
theorem Tidy.run_rests (h : s.Tidy) : s.run.ready = [] := h.runFor_rests le_rfl

theorem Tidy.submit (h : s.Tidy) (step : Step) : (s.submit step).Tidy := by
  obtain ⟨k, hk⟩ := s.submit_eq_after step
  rw [hk]
  exact h.after _

theorem Tidy.submit_rests (h : s.Tidy) (step : Step) : (s.submit step).ready = [] :=
  (h.add step).run_rests

end Schedule

end KeyedBreaker
