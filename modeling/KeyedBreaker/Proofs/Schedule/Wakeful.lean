import KeyedBreaker.Proofs.Schedule.Mutex

namespace KeyedBreaker

open Act

theorem Turn.hasLocks {σ σ' : Scene} {st st' : Stand} (h : Turn σ st σ' st') :
    σ'.store.hasLocks = σ.store.hasLocks := by
  have hcall : ∀ {b : Breaker} {key : String} {w : Work} {out : Except Failure Breaker.Stage},
      (b.enterCall key w).play σ = (out, σ') → σ'.store.hasLocks = σ.store.hasLocks :=
    fun hp => Breaker.hasLocks_enterCall hp
  cases h with
  | @plays step a fs ha =>
      cases step with
      | overwrite name content =>
          cases ha
          change (σ.store.overwrite name content).hasLocks = _
          cases σ.store <;> rfl
      | setRecord key r =>
          cases ha
          rw [play_map]
          obtain ⟨s', ⟨x, -, -, hp, ha⟩ | ⟨f, hp, ha⟩⟩ := writeRecord_cases key r σ <;> rw [hp]
          · rw [ha.store, Scene.keeping_store, Store.hasLocks_kept]
          · rw [ha.store]
      | call | force | release | cancel => cases ha
      | _ => rw [Step.act?_leavesStore (p := fun _ => True) ha trivial σ]
  | opens hp | ends hp | breaks hp => exact hcall hp
  | @forces σ₁ b key target attempt fs previous r hp =>
      obtain ⟨told, s₂, hc, hw⟩ := b.confirm_weathers key target previous σ₁
      rw [hc, hw.store.hasLocks, Breaker.hasLocks_overwriteOnce hp]
  | @retries σ₁ b key target attempt fs f hp =>
      rw [(b.backOff_weathers key target attempt σ₁).store.hasLocks,
        Breaker.hasLocks_overwriteOnce hp]
  | fails hp => exact Breaker.hasLocks_overwriteOnce hp
  | concludes => exact Breaker.hasLocks_conclude (Prod.ext rfl rfl)
  | _ => rfl

def Stand.Whole (st : Stand) : Prop :=
  (st.place = .done → st.frames = []) ∧
    (st.place = .working ∨ (∃ gate, st.place = .atGate gate) → st.frames ≠ [])

theorem Stand.whole_of_busy {p : Place} {fs : List Frame} (hdone : p ≠ .done)
    (hworking : p ≠ .working) (hgate : ∀ gate, p ≠ .atGate gate) : Stand.Whole ⟨p, fs⟩ := by
  refine ⟨fun h => absurd h hdone, fun h => ?_⟩
  rcases h with h | ⟨gate, h⟩
  · exact absurd h hworking
  · exact absurd h (hgate gate)

theorem Turn.whole {σ σ' : Scene} {st st' : Stand} (h : Turn σ st σ' st') : st'.Whole := by
  cases h with
  | opens | resumes | pauses => exact ⟨fun h => (by cases h), fun _ => List.cons_ne_nil _ _⟩
  | finishes => exact ⟨fun _ => rfl, fun h => by rcases h with h | ⟨gate, h⟩ <;> cases h⟩
  | _ => exact Stand.whole_of_busy (by simp) (by simp) (by simp)

theorem Stand.Whole.done_of_halted {st : Stand} (h : st.Whole) (hst : st.Halted) :
    st.place = .done := by
  cases hst with
  | done => rfl
  | idle => exact absurd rfl (h.2 (.inl rfl))
  | atGate => exact absurd rfl (h.2 (.inr ⟨_, rfl⟩))

/-- The first waiter for a lock that nobody has will see to it. -/
def Lock.Heeded (lock : Lock) : Prop :=
  lock.holder = none → ∀ w ∈ lock.queue.head?, w.state ≠ .pending

namespace Lock

variable {lock lock' : Lock}

theorem heeded_of_held {i : Nat} (h : lock.holder = some i) : lock.Heeded := by
  intro hfree
  rw [h] at hfree
  cases hfree

theorem heeded_pass (lock : Lock) : lock.pass.1.Heeded := by
  unfold pass
  split
  · rintro - w ⟨⟩ ⟨⟩
  · rename_i hne
    rintro hfree ⟨task, state⟩ hw rfl
    obtain ⟨q, hq⟩ := List.head?_eq_some_iff.1 hw
    exact hne task q hfree hq

theorem Heeded.congr (h : lock.Heeded) (hholder : lock'.holder = lock.holder)
    (hqueue : ∀ w ∈ lock'.queue.head?, w.state = .pending → lock.queue.head? = some w) :
    lock'.Heeded :=
  fun hfree w hw hp => h (hholder ▸ hfree) w (hqueue w hw hp) hp

end Lock

namespace Line

variable {l l' : Line} {sts : List Stand} {st st' : Stand} {i j : Nat} {key : String} {spot : Spot}

def Roused (l : Line) (key : String) : Prop :=
  ∀ w ∈ (l.locks key).queue, w.state ≠ .pending → w.task ∈ l.ready

theorem roused_pass (h : ∀ k, l.Roused k) (key k : String) : (l.pass key).Roused k := by
  intro w hw hs
  by_cases hk : k = key
  · subst hk
    have hlock : (l.pass k).locks k = (l.locks k).pass.1 := if_pos rfl
    have hready : (l.pass k).ready = l.ready ++ (l.locks k).pass.2 := rfl
    rw [hlock] at hw
    rw [hready, List.mem_append]
    rcases (l.locks k).pass_cases with hpass | ⟨j, q, -, hq, hpass⟩ <;> rw [hpass] at hw ⊢
    · exact .inl (h k w hw hs)
    · rcases List.mem_cons.1 hw with rfl | hw
      · exact .inr List.mem_cons_self
      · exact .inl (h k w (hq ▸ List.mem_cons_of_mem _ hw) hs)
  · have hlock : (l.pass key).locks k = l.locks k := if_neg hk
    rw [hlock] at hw
    exact List.mem_append_left _ (h k w hw hs)

theorem heeded_pass (h : ∀ k, k ≠ key → (l.locks k).Heeded) (k : String) :
    ((l.pass key).locks k).Heeded := by
  by_cases hk : k = key
  · subst hk
    have hlock : (l.pass k).locks k = (l.locks k).pass.1 := if_pos rfl
    rw [hlock]
    exact Lock.heeded_pass _
  · have hlock : (l.pass key).locks k = l.locks k := if_neg hk
    rw [hlock]
    exact h k hk

/-- Whoever can go on is in line, and nobody waits in vain for a lock that nobody has. -/
structure Wakeful (l : Line) (sts : List Stand) : Prop where
  awake : ∀ i st, sts[i]? = some st → i ∈ l.ready ∨ st.place.spot? ≠ none ∨ st.place = .done
  roused : ∀ key, l.Roused key
  heeded : ∀ key, (l.locks key).Heeded

namespace Wakeful

theorem of_set (h : l.Wakeful sts) (hi : sts[i]? = some st)
    (hready : ∀ j ∈ l.ready, j ≠ i → j ∈ l'.ready)
    (hself : i ∈ l'.ready ∨ st'.place.spot? ≠ none ∨ st'.place = .done)
    (hroused : ∀ key, l'.Roused key) (hheeded : ∀ key, (l'.locks key).Heeded) :
    l'.Wakeful (sts.set i st') where
  awake j stj hj := by
    by_cases hij : i = j
    · subst hij
      rw [List.getElem?_set_self (List.getElem?_eq_some_iff.1 hi).1] at hj
      cases hj
      exact hself
    · rw [List.getElem?_set_ne hij] at hj
      rcases h.awake j stj hj with hmem | hrest
      · exact .inl (hready j hmem (Ne.symm hij))
      · exact .inr hrest
  roused := hroused
  heeded := hheeded

theorem of_ready (h : l.Wakeful sts) (hi : sts[i]? = some st) (hmem : i ∈ l.ready)
    (hready : ∀ j ∈ l.ready, j ∈ l'.ready) (hroused : ∀ key, l'.Roused key)
    (hheeded : ∀ key, (l'.locks key).Heeded) : l'.Wakeful (sts.set i st') :=
  h.of_set hi (fun j hj _ => hready j hj) (.inl (hready i hmem)) hroused hheeded

theorem roused_setQueue {q : List Waiter} (h : l.Wakeful sts)
    (hq : ∀ w ∈ q, w.state ≠ .pending → w ∈ l.queue spot) (k : String) :
    (l.setQueue spot q).Roused k := by
  cases spot with
  | gate => exact h.roused k
  | lock key =>
      intro w hw hs
      by_cases hk : k = key
      · subst hk
        rw [setQueue, locks_setLock_self] at hw
        exact h.roused k w (hq w hw hs) hs
      · rw [setQueue, locks_setLock_ne _ hk] at hw
        exact h.roused k w hw hs

theorem heeded_setQueue {q : List Waiter} (h : l.Wakeful sts)
    (hq : ∀ w ∈ q.head?, w.state = .pending → (l.queue spot).head? = some w) (k : String) :
    ((l.setQueue spot q).locks k).Heeded := by
  cases spot with
  | gate => exact h.heeded k
  | lock key =>
      by_cases hk : k = key
      · subst hk
        rw [setQueue, locks_setLock_self]
        exact (h.heeded k).congr rfl hq
      · rw [setQueue, locks_setLock_ne _ hk]
        exact h.heeded k

theorem roused_unlock (h : ∀ k, l.Roused k) (key k : String) : (l.unlock key).Roused k := by
  rw [unlock_eq]
  refine roused_pass (fun k w hw hs => ?_) key k
  by_cases hk : k = key
  · subst hk
    rw [locks_setLock_self] at hw
    exact h k w hw hs
  · rw [locks_setLock_ne _ hk] at hw
    exact h k w hw hs

theorem heeded_unlock (h : ∀ k, (l.locks k).Heeded) (key k : String) :
    ((l.unlock key).locks k).Heeded := by
  rw [unlock_eq]
  refine heeded_pass (fun k hk => ?_) k
  rw [locks_setLock_ne _ hk]
  exact h k

theorem setLock_take {op : Operation} (h : l.Wakeful sts) (hi : sts[i]? = some st) (hmem : i ∈ l.ready) :
    (l.setLock op.key ((l.locks op.key).take i)).Wakeful (sts.set i st') := by
  refine h.of_ready hi hmem (fun j hj => hj) (fun k w hw hs => ?_) fun k => ?_
  · by_cases hk : k = op.key
    · subst hk
      rw [locks_setLock_self] at hw
      exact h.roused op.key w (List.mem_of_mem_filter hw) hs
    · rw [locks_setLock_ne _ hk] at hw
      exact h.roused k w hw hs
  · by_cases hk : k = op.key
    · subst hk
      rw [locks_setLock_self]
      exact Lock.heeded_of_held rfl
    · rw [locks_setLock_ne _ hk]
      exact h.heeded k

theorem mem_queue_join {w w' : Waiter} {k : String}
    (hw : w ∈ ((l.setQueue spot (l.queue spot ++ [w'])).locks k).queue) :
    w ∈ (l.locks k).queue ∨ w = w' := by
  cases spot with
  | gate => exact .inl hw
  | lock key =>
      by_cases hk : k = key
      · subst hk
        rw [setQueue, locks_setLock_self] at hw
        exact (List.mem_append.1 hw).imp_right List.mem_singleton.1
      · rw [setQueue, locks_setLock_ne _ hk] at hw
        exact .inl hw

theorem heeded_join (h : l.Wakeful sts) (w : Waiter)
    (hfree : ∀ key, spot = .lock key → (l.locks key).isFree = false) (k : String) :
    ((l.setQueue spot (l.queue spot ++ [w])).locks k).Heeded := by
  cases hqueue : l.queue spot with
  | cons w' q =>
      refine h.heeded_setQueue (fun v hv _ => ?_) k
      rw [hqueue]
      exact hv
  | nil =>
      cases spot with
      | gate => exact h.heeded k
      | lock key =>
          by_cases hk : k = key
          · -- nobody waits for the lock and it is not free, so somebody has it
            subst hk
            have hbusy := hfree k rfl
            have hempty : (l.locks k).queue = [] := hqueue
            rw [Lock.isFree, hempty] at hbusy
            cases hholder : (l.locks k).holder with
            | none =>
                rw [hholder] at hbusy
                cases hbusy
            | some j => exact Lock.heeded_of_held ((holder_setQueue (.lock k) _ k).trans hholder)
          · exact (locks_setLock_ne (l := l) _ hk).symm ▸ h.heeded k

theorem setQueue_suspend {state : WaiterState} (h : l.Wakeful sts) (hr : l.Regular sts)
    (hhead : l.ready.head? = some i) (hi : sts[i]? = some st) (hst : st.place.spot? = none)
    (hst' : st'.place.spot? = some spot) (hstate : state ≠ .woken)
    (hfree : ∀ key, spot = .lock key → (l.locks key).isFree = false) :
    ((l.setQueue spot (l.queue spot ++ [⟨i, state⟩])).suspend i state).Wakeful (sts.set i st') := by
  obtain ⟨rest, hready⟩ := List.head?_eq_some_iff.1 hhead
  have hready' : ((l.setQueue spot (l.queue spot ++ [⟨i, state⟩])).suspend i state).ready =
      rest ++ if state = .cancelled then [i] else [] := by
    rw [suspend]
    cases spot <;> simp [setQueue, setLock, setGate, hready]
  have hothers : ∀ j ∈ l.ready, j ≠ i →
      j ∈ ((l.setQueue spot (l.queue spot ++ [⟨i, state⟩])).suspend i state).ready := by
    intro j hj hne
    rw [hready] at hj
    rw [hready']
    exact List.mem_append_left _ ((List.mem_cons.1 hj).resolve_left hne)
  refine h.of_set hi hothers (.inr (.inl (by rw [hst']; exact Option.some_ne_none _)))
    (fun k w hw hs => ?_) (h.heeded_join _ hfree)
  rcases mem_queue_join hw with hw | rfl
  · -- who was woken or cancelled before is not the task, which did not wait
    exact hothers _ (h.roused k w hw hs) fun he =>
      not_waits hi hst (.lock k) (he ▸ hr.waits_of_mem_lock hw)
  · have hcancelled : state = .cancelled := by
      cases state with
      | pending => exact absurd rfl hs
      | woken => exact absurd rfl hstate
      | cancelled => rfl
    rw [hready', if_pos hcancelled]
    exact List.mem_append_right _ List.mem_cons_self

theorem cancels (h : l.Wakeful sts) (hi : sts[i]? = some st) (hmem : i ∈ l.ready) :
    ((l.setQueue spot (Waiter.cancel j (l.queue spot))).wake [j]).Wakeful (sts.set i st') := by
  have hready : ∀ k ∈ l.ready,
      k ∈ ((l.setQueue spot (Waiter.cancel j (l.queue spot))).wake [j]).ready := by
    intro k hk
    refine List.mem_append_left _ ?_
    cases spot <;> exact hk
  refine h.of_ready hi hmem hready (fun k w hw hs => ?_) fun k => ?_
  · cases spot with
    | gate => exact hready _ (h.roused k w hw hs)
    | lock key =>
        by_cases hk : k = key
        · subst hk
          have hqueue : (((l.setQueue (.lock k) (Waiter.cancel j (l.queue (.lock k)))).wake
              [j]).locks k).queue = Waiter.cancel j (l.locks k).queue :=
            congrArg Lock.queue (locks_setLock_self _)
          rw [hqueue] at hw
          obtain ⟨w₀, hw₀, rfl⟩ := List.mem_map.1 hw
          split at hs
          · rename_i hj
            rw [if_pos hj]
            exact List.mem_append_right _ (hj ▸ List.mem_cons_self)
          · rename_i hj
            rw [if_neg hj]
            exact hready _ (h.roused k w₀ hw₀ hs)
        · have hlock : ((l.setQueue (.lock key) (Waiter.cancel j (l.queue (.lock key)))).wake
              [j]).locks k = l.locks k := locks_setLock_ne _ hk
          rw [hlock] at hw
          exact hready _ (h.roused k w hw hs)
  · refine h.heeded_setQueue (q := Waiter.cancel j (l.queue spot)) (fun w hw hp => ?_) k
    rw [Waiter.cancel, List.head?_map] at hw
    obtain ⟨w₀, hw₀, rfl⟩ := Option.map_eq_some_iff.1 hw
    split at hp
    · cases hp
    · rename_i hj
      rw [if_neg hj]
      exact hw₀

theorem drop_set (h : l.Wakeful sts) (hr : l.Regular sts) (hhead : l.ready.head? = some i)
    (hi : sts[i]? = some st) (hst : st.place.spot? = none) (hdone : st'.place = .done) :
    l.drop.Wakeful (sts.set i st') := by
  obtain ⟨rest, hready⟩ := List.head?_eq_some_iff.1 hhead
  have hothers : ∀ j ∈ l.ready, j ≠ i → j ∈ l.drop.ready := by
    intro j hj hne
    rw [hready] at hj
    rw [drop, hready]
    exact (List.mem_cons.1 hj).resolve_left hne
  refine h.of_set hi hothers (.inr (.inr hdone)) (fun k w hw hs => ?_) h.heeded
  refine hothers _ (h.roused k w hw hs) fun he => ?_
  exact not_waits hi hst (.lock k) (he ▸ hr.waits_of_mem_lock hw)

/-- A turn keeps everybody in line who can go on, if nobody joins the queue of a free lock. -/
theorem shift (h : l.Wakeful sts) (hr : l.Regular sts) (hwhole : st.Whole)
    (hhead : l.ready.head? = some i) (hi : sts[i]? = some st) (hshift : Shift i sts l st l' st')
    (hfree : ∀ key, st.place.spot? = none → st'.place.spot? = some (.lock key) →
      (l.locks key).isFree = false) : l'.Wakeful (sts.set i st') := by
  have hmem : i ∈ l.ready := List.mem_of_mem_head? hhead
  have hpassed : ∀ {op : Operation}, ∀ w ∈ Waiter.leave i (l.queue (.lock op.key)),
      w.state ≠ .pending → w ∈ l.queue (.lock op.key) := fun w hw _ => List.mem_of_mem_filter hw
  cases hshift with
  | still => exact h.of_ready hi hmem (fun _ => id) h.roused h.heeded
  | takes => exact h.setLock_take hi hmem
  | joins hst hst' _ hstate =>
      exact h.setQueue_suspend hr hhead hi hst hst' hstate fun key hspot => hfree key hst (hspot ▸ hst')
  | @leaves op fs result =>
      rw [leave_eq]
      refine h.of_ready hi hmem (fun j hj => List.mem_append_left _ hj) ?_ fun k => ?_
      · exact roused_pass (h.roused_setQueue hpassed) op.key
      · refine heeded_pass (fun k hk => ?_) k
        rw [setQueue, locks_setLock_ne _ hk]
        exact h.heeded k
  | @releases _ _ key =>
      exact h.of_ready hi hmem (fun j hj => List.mem_append_left _ hj)
        (roused_unlock h.roused key) (heeded_unlock h.heeded key)
  | @leavesGate gate f fs result =>
      exact h.of_ready hi hmem (fun j hj => List.mem_append_left _ hj)
        (roused_unlock (l := l.setQueue (.gate gate) _) h.roused f.key)
        (heeded_unlock (l := l.setQueue (.gate gate) _) h.heeded f.key)
  | opensGate =>
      exact h.of_ready hi hmem (fun j hj => List.mem_append_left _ hj)
        (fun k w hw hs => List.mem_append_left _ (h.roused k w hw hs)) h.heeded
  | cancels => exact h.cancels hi hmem
  | drops hst =>
      rcases hst with ⟨hhalted, rfl⟩ | ⟨⟨result, rfl⟩, rfl⟩
      · have hdone := hwhole.done_of_halted hhalted
        exact h.drop_set hr hhead hi (by rw [hdone]; rfl) hdone
      · exact h.drop_set hr hhead hi rfl rfl

theorem add (h : l.Wakeful sts) (step : Step) :
    ({ l with ready := l.ready ++ [sts.length] } : Line).Wakeful
      (sts ++ [⟨.starting step, []⟩]) where
  awake i st hi := by
    rcases Nat.lt_or_ge i sts.length with hlt | hge
    · rw [List.getElem?_append_left hlt] at hi
      exact (h.awake i st hi).imp_left (List.mem_append_left _)
    · have hlt := (List.getElem?_eq_some_iff.1 hi).1
      rw [List.length_append, List.length_singleton] at hlt
      obtain rfl : i = sts.length := by omega
      exact .inl (List.mem_append_right _ List.mem_cons_self)
  roused key w hw hs := List.mem_append_left _ (h.roused key w hw hs)
  heeded := h.heeded

end Wakeful

end Line

namespace Schedule

variable {s : Schedule} {i : Nat} {st : Stand} {key : String}

theorem not_free_of_joined {σ : Scene} {st' : Stand} (hm : s.scene.store.hasLocks = true)
    (hhead : s.ready.head? = some i) (hi : s.stands[i]? = some st)
    (hturn : Turn s.scene st σ st') (hstands : s.tick.stands = s.stands.set i st')
    (hst : st.place.spot? = none) (hst' : st'.place.spot? = some (.lock key)) :
    (s.locks key).isFree = false := by
  obtain ⟨t, ht, rfl⟩ := task_of_stands hi
  have htick := tick_eq_proceed hhead ht
  obtain ⟨place, frames, flag⟩ := t
  cases hturn with
  | @waits op =>
      cases hst'
      refine Bool.eq_false_iff.2 fun hfree => ?_
      have hrequest : s.tick = (s.setLock op.key ((s.locks op.key).take i)).goTo i (.acting op) := by
        rw [htick]
        change s.request _ i op = _
        unfold request
        simp only [hm, hfree, Bool.not_true, if_true, Bool.false_eq_true, if_false]
      rw [hrequest, stands_goTo (s := s.setLock op.key _) hi] at hstands
      have hlt := (List.getElem?_eq_some_iff.1 hi).1
      have hplaces : (s.stands.set i ⟨.acting op, frames⟩)[i]? =
          (s.stands.set i ⟨.queued op, frames⟩)[i]? := congrArg (·[i]?) hstands
      rw [List.getElem?_set_self hlt, List.getElem?_set_self hlt] at hplaces
      cases hplaces
  | pauses => cases hst'
  | _ => cases hst'

structure Attended (s : Schedule) : Prop where
  hasLocks : s.scene.store.hasLocks = true
  exclusive : s.line.Exclusive s.stands
  whole : ∀ st ∈ s.stands, st.Whole
  wakeful : s.line.Wakeful s.stands

theorem tick_turns (hm : s.scene.store.hasLocks = true)
    (hknown : ∀ i, s.ready.head? = some i → i < s.stands.length) :
    s.ready = [] ∧ s.tick = s ∨
      ∃ i st st', s.ready.head? = some i ∧ s.stands[i]? = some st ∧
        s.tick.stands = s.stands.set i st' ∧ Shift i s.stands s.line st s.tick.line st' ∧
        (Turn s.scene st s.tick.scene st' ∨
          st.Halted ∧ st' = st ∧ s.tick.scene = s.scene) := by
  obtain hrest | ⟨i, st, hhead, hi, st', hshift, hstands⟩ := tick_shifts hm hknown
  · exact .inl hrest
  · have hlt := (List.getElem?_eq_some_iff.1 hi).1
    have hself : s.tick.stands[i]? = some st' := by rw [hstands, List.getElem?_set_self hlt]
    refine .inr ⟨i, st, st', hhead, hi, hstands, hshift, ?_⟩
    rcases s.tick_moves with ⟨hscene, hsame, hidle⟩ | ⟨j, st₁, hj, hst₁, st₂, hturn, hstands'⟩
    · rw [hsame, hi] at hself
      cases hself
      exact .inr ⟨hidle i st hhead hi, rfl, hscene⟩
    · rw [hhead] at hj
      cases hj
      rw [hi] at hst₁
      cases hst₁
      rw [hstands', List.getElem?_set_self hlt] at hself
      cases hself
      exact .inl hturn

theorem Attended.known (h : s.Attended) (hi : s.ready.head? = some i) : i < s.stands.length :=
  h.exclusive.known i (List.mem_of_mem_head? hi)

theorem Attended.tick (h : s.Attended) : s.tick.Attended := by
  obtain ⟨-, htick⟩ | ⟨i, st, st', hhead, hi, hstands, hshift, hturn⟩ :=
    tick_turns h.hasLocks fun _ => h.known
  · rw [htick]
    exact h
  · have hwhole := h.whole st (List.mem_of_getElem? hi)
    -- the turn changes neither the kind of the store nor puts a task where it cannot be
    obtain ⟨hlocks, hwhole', hfree⟩ : s.tick.scene.store.hasLocks = true ∧ st'.Whole ∧
        ∀ key, st.place.spot? = none → st'.place.spot? = some (.lock key) →
          (s.locks key).isFree = false := by
      rcases hturn with hturn | ⟨-, rfl, hscene⟩
      · exact ⟨hturn.hasLocks.trans h.hasLocks, hturn.whole,
          fun key => not_free_of_joined h.hasLocks hhead hi hturn hstands⟩
      · refine ⟨hscene ▸ h.hasLocks, hwhole, fun key hnone hspot => ?_⟩
        rw [hnone] at hspot
        cases hspot
    refine ⟨hlocks, ?_, fun other hother => ?_, ?_⟩
    · rw [hstands]
      exact h.exclusive.shift hhead hi hshift
    · rw [hstands] at hother
      rcases List.mem_or_eq_of_mem_set hother with hother | rfl
      · exact h.whole other hother
      · exact hwhole'
    · rw [hstands]
      exact h.wakeful.shift h.exclusive.regular hwhole hhead hi hshift hfree

theorem Attended.add (h : s.Attended) (step : Step) : (s.add step).Attended := by
  have hlength : s.stands.length = s.tasks.length := List.length_map _
  have hexclusive := h.exclusive.add step
  have hwakeful := h.wakeful.add step
  rw [hlength] at hexclusive hwakeful
  refine ⟨h.hasLocks, ?_, fun st hst => ?_, ?_⟩
  · rw [stands_add]
    exact hexclusive
  · rw [stands_add] at hst
    rcases List.mem_append.1 hst with hst | hst
    · exact h.whole st hst
    · rw [List.mem_singleton.1 hst]
      exact Stand.whole_of_busy (by simp) (by simp) (by simp)
  · rw [stands_add]
    exact hwakeful

theorem Attended.after (h : s.Attended) (ms : List Move) : (s.after ms).Attended := by
  refine after_induction (Q := fun _ => True) (fun s m h _ => ?_) h fun _ _ => trivial
  cases m with
  | submit step => exact h.add step
  | turn => exact h.tick

theorem attended_atRest (t : Instant) (writes : List (String × Record)) :
    (atRest t (.memory writes)).Attended where
  hasLocks := rfl
  exclusive := (guarded_atRest t writes).exclusive
  whole _ hst := absurd hst List.not_mem_nil
  wakeful := ⟨fun _ _ h => (by cases h), fun _ _ hw => (by cases hw),
    fun _ _ _ hw => (by cases hw)⟩

/-- Where no task can go on, the lock for which a task waits is held by a task that has a call of the
key whose function is running, and that waits itself. -/
theorem Attended.holder_of_rest (h : s.Attended) (hrest : s.ready = [])
    (hwaits : Waits s.stands (.lock key) i) :
    ∃ j st, s.stands[j]? = some st ∧ (s.locks key).holder = some j ∧ st.occupies key = 1 ∧
      (∃ f ∈ st.frames, f.key = key) ∧ st.place.spot? ≠ none := by
  have hidle : ∀ (j : Nat) (st : Stand), s.stands[j]? = some st →
      st.place.spot? ≠ none ∨ st.place = .done := by
    intro j st hj
    rcases h.wakeful.awake j st hj with hmem | hrest'
    · have hmem : j ∈ s.ready := hmem
      rw [hrest] at hmem
      cases hmem
    · exact hrest'
  obtain ⟨w, hw, -⟩ := List.mem_map.1 ((h.exclusive.queued (.lock key) i).2 hwaits)
  obtain ⟨w₀, q, hq⟩ := List.exists_cons_of_ne_nil (List.ne_nil_of_mem hw)
  have hhead : (s.line.locks key).queue.head? = some w₀ := (congrArg List.head? hq).trans rfl
  cases hholder : (s.locks key).holder with
  | none =>
      -- the first waiter would have been woken, and so be in line
      have hstate : w₀.state ≠ .pending := h.wakeful.heeded key hholder w₀ hhead
      have hmem : w₀.task ∈ s.ready :=
        h.wakeful.roused key w₀ (List.mem_of_mem_head? hhead) hstate
      rw [hrest] at hmem
      cases hmem
  | some j =>
      have hlt := h.exclusive.holder key j hholder
      obtain ⟨st, hst⟩ : ∃ st, s.stands[j]? = some st := ⟨_, List.getElem?_eq_getElem hlt⟩
      have hocc : st.occupies key = 1 := by
        rw [h.exclusive.held key j st hst]
        exact if_pos hholder
      rcases Stand.occupies_ne_zero.1 (by rw [hocc]; exact one_ne_zero) with ⟨op, hp, -⟩ | hf
      · -- a task that acts could go on
        rcases hidle j st hst with hspot | hdone
        · exact absurd (by rw [hp]; rfl) hspot
        · rw [hp] at hdone
          cases hdone
      · refine ⟨j, st, hst, rfl, hocc, hf, ?_⟩
        rcases hidle j st hst with hspot | hdone
        · exact hspot
        · obtain ⟨f, hmem, -⟩ := hf
          rw [(h.whole st (List.mem_of_getElem? hst)).1 hdone] at hmem
          cases hmem

theorem Attended.lock_of_idle (h : s.Attended)
    (hidle : ∀ st ∈ s.stands, st.occupies key = 0 ∧ st.place.spot? ≠ some (.lock key)) :
    s.locks key = {} := by
  have hholder : (s.locks key).holder = none := by
    by_contra hne
    obtain ⟨j, hj⟩ := Option.ne_none_iff_exists'.1 hne
    have hst := List.getElem?_eq_getElem (h.exclusive.holder key j hj)
    have hocc := h.exclusive.held key j _ hst
    rw [(hidle _ (List.mem_of_getElem? hst)).1] at hocc
    exact absurd (hocc.trans (if_pos hj)) zero_ne_one
  have hqueue : (s.locks key).queue = [] := by
    refine List.eq_nil_iff_forall_not_mem.2 fun w hw => ?_
    obtain ⟨st, hst, hspot⟩ := h.exclusive.toRegular.waits_of_mem_lock hw
    exact (hidle st (List.mem_of_getElem? hst)).2 hspot
  rcases hl : s.locks key with ⟨holder, queue⟩
  rw [hl] at hholder hqueue
  obtain rfl : holder = none := hholder
  obtain rfl : queue = [] := hqueue
  rfl

end Schedule

end KeyedBreaker
