import KeyedBreaker.Proofs.Schedule.Wakeful

namespace KeyedBreaker

inductive Dealing where
  | asks (task : Nat)
  | gets (task : Nat)
  | quits (task : Nat)

structure Request where
  /-- How many requests for the lock were made before. -/
  number : Nat
  task : Nat

structure Ledger where
  made : Nat := 0
  /-- First made first. -/
  waiting : List Request := []
  /-- Latest first. -/
  granted : List Request := []

def Ledger.enter (l : Ledger) : Dealing → Ledger
  | .asks i => { l with made := l.made + 1, waiting := l.waiting ++ [⟨l.made, i⟩] }
  | .gets i =>
    { l with
      waiting := l.waiting.filter (·.task ≠ i)
      granted := l.waiting.filter (·.task = i) ++ l.granted }
  | .quits i => { l with waiting := l.waiting.filter (·.task ≠ i) }

/-- What the turn of a task comes to for the lock of a key, by where the task stands before and after. A
task quits only as its step ends with the cancellation. -/
def Place.dealings (key : String) (i : Nat) : Place → Place → List Dealing
  | .requesting op, .acting _ => if op.key = key then [.asks i, .gets i] else []
  | .requesting op, _ => if op.key = key then [.asks i] else []
  | .queued op, .acting _ => if op.key = key then [.gets i] else []
  | .queued op, .returning (.error (.plain .cancelled none)) =>
    if op.key = key then [.quits i] else []
  | _, _ => []

namespace Waiter

variable {i j : Nat} {queue : List Waiter}

theorem isCancelled_leave (hij : j ≠ i) : isCancelled j (leave i queue) = isCancelled j queue := by
  rw [isCancelled, isCancelled, leave, List.any_filter]
  congr 1
  funext w
  by_cases hw : w.task = j
  · simp [hw, hij]
  · simp [hw]

theorem isCancelled_cancel (h : isCancelled j queue = true) :
    isCancelled j (cancel i queue) = true := by
  obtain ⟨w, hw, hd⟩ := List.any_eq_true.1 h
  obtain ⟨hwj, hs⟩ := of_decide_eq_true hd
  refine List.any_eq_true.2 ⟨_, List.mem_map_of_mem hw, decide_eq_true ?_⟩
  split
  · exact ⟨hwj, rfl⟩
  · exact ⟨hwj, hs⟩

theorem isCancelled_append (h : isCancelled j queue = true) (queue' : List Waiter) :
    isCancelled j (queue ++ queue') = true := by
  rw [isCancelled, List.any_append, Bool.or_eq_true]
  exact .inl h

end Waiter

namespace Lock

variable {lock lock' : Lock}

structure Keeps (lock lock' : Lock) : Prop where
  holder : ∀ j, lock'.holder = some j → lock.holder = some j
  tasks : lock'.queue.map (·.task) = lock.queue.map (·.task)
  cancelled : ∀ j, Waiter.isCancelled j lock.queue = true → Waiter.isCancelled j lock'.queue = true

theorem Keeps.refl (lock : Lock) : lock.Keeps lock := ⟨fun _ => id, rfl, fun _ => id⟩

theorem keeps_pass (lock : Lock) : lock.Keeps lock.pass.1 := by
  unfold pass
  split
  · rename_i task q hfree hq
    refine ⟨fun j => id, ?_, fun j hj => ?_⟩
    · rw [hq]
      rfl
    · rw [hq, Waiter.isCancelled, List.any_cons, Bool.or_eq_true] at hj
      rw [Waiter.isCancelled, List.any_cons, Bool.or_eq_true]
      exact hj.imp_left fun hd => by simp at hd
  · exact .refl lock

theorem isCancelled_of_free {w : Waiter} (h : lock.isFree = true) (hw : w ∈ lock.queue) :
    Waiter.isCancelled w.task lock.queue = true := by
  rw [isFree, Bool.and_eq_true] at h
  exact List.any_eq_true.2
    ⟨w, hw, decide_eq_true ⟨rfl, of_decide_eq_true (List.all_eq_true.1 h.2 w hw)⟩⟩

inductive Deals (i : Nat) (lock : Lock) : Lock → List Dealing → Prop
  | keeps {next} : lock.Keeps next → Deals i lock next []
  | waits {state} : Deals i lock (lock.join ⟨i, state⟩) [.asks i]
  /-- Nobody has the lock, and all who wait for it were cancelled. -/
  | enters : i ∉ lock.queue.map (·.task) → lock.isFree = true →
      Deals i lock (lock.take i) [.asks i, .gets i]
  /-- The task is the first in the queue, and nobody has the lock. -/
  | wakes {w q} : lock.queue = w :: q → w.task = i → i ∉ q.map (·.task) → w.state = .woken →
      Deals i lock (lock.take i) [.gets i]
  | quits : Deals i lock (lock.leave i).1 [.quits i]

end Lock

namespace Ledger

variable {l : Ledger} {lock lock' : Lock} {i : Nat} {ds : List Dealing}

/-- The ledger of a lock is in order. -/
structure Fair (l : Ledger) (lock : Lock) : Prop where
  waiting : l.waiting.map (·.task) = lock.queue.map (·.task)
  numbered : l.waiting.Pairwise (·.number < ·.number)
  made : ∀ r ∈ l.waiting ++ l.granted, r.number < l.made
  ascending : l.granted.Pairwise (·.number > ·.number)
  /-- Who was not cancelled was not passed over. -/
  inTurn : ∀ r ∈ l.waiting, Waiter.isCancelled r.task lock.queue = false →
    ∀ g ∈ l.granted, g.number < r.number
  holder : ∀ j, lock.holder = some j → ∃ r, l.granted.head? = some r ∧ r.task = j

namespace Fair

theorem of_keeps (h : l.Fair lock) (hkeeps : lock.Keeps lock') : l.Fair lock' where
  waiting := h.waiting.trans hkeeps.tasks.symm
  numbered := h.numbered
  made := h.made
  ascending := h.ascending
  inTurn r hr hnot := h.inTurn r hr (Bool.eq_false_iff.2 fun hc =>
    Bool.eq_false_iff.1 hnot (hkeeps.cancelled _ hc))
  holder j hj := h.holder j (hkeeps.holder j hj)

theorem tasks_leave (h : l.Fair lock) (i : Nat) : (l.waiting.filter (·.task ≠ i)).map (·.task) =
    (Waiter.leave i lock.queue).map (·.task) := by
  have hmap : ∀ {α : Type} (f : α → Nat) (xs : List α),
      (xs.filter (f · ≠ i)).map f = (xs.map f).filter (· ≠ i) := fun f xs => by
    rw [List.filter_map]
    rfl
  rw [hmap, h.waiting, Waiter.leave, hmap]

theorem asks (h : l.Fair lock) (i : Nat) (state : WaiterState) :
    (l.enter (.asks i)).Fair (lock.join ⟨i, state⟩) where
  waiting := by
    change (l.waiting ++ [⟨l.made, i⟩] : List Request).map (·.task) =
      (lock.queue ++ [⟨i, state⟩] : List Waiter).map (·.task)
    rw [List.map_append, List.map_append, h.waiting]
    rfl
  numbered := by
    refine List.pairwise_append.2 ⟨h.numbered, List.pairwise_singleton _ _, fun r hr r' hr' => ?_⟩
    rw [List.mem_singleton.1 hr']
    exact h.made r (List.mem_append_left _ hr)
  made r hr := by
    change r ∈ (l.waiting ++ [⟨l.made, i⟩]) ++ l.granted at hr
    change r.number < l.made + 1
    rw [List.mem_append, List.mem_append, List.mem_singleton] at hr
    rcases hr with (hr | rfl) | hr
    · exact Nat.lt_succ_of_lt (h.made r (List.mem_append_left _ hr))
    · exact Nat.lt_succ_self _
    · exact Nat.lt_succ_of_lt (h.made r (List.mem_append_right _ hr))
  ascending := h.ascending
  inTurn r hr hnot g hg := by
    rcases List.mem_append.1 hr with hr | hr
    · refine h.inTurn r hr (Bool.eq_false_iff.2 fun hc => Bool.eq_false_iff.1 hnot ?_) g hg
      exact Waiter.isCancelled_append hc _
    · rw [List.mem_singleton.1 hr]
      exact h.made g (List.mem_append_right _ hg)
  holder := h.holder

theorem gets {r : Request} (h : l.Fair lock) (hr : r ∈ l.waiting) (hri : r.task = i)
    (hself : l.waiting.filter (·.task = i) = [r]) (hlater : ∀ g ∈ l.granted, g.number < r.number)
    (hothers : ∀ r' ∈ l.waiting, r'.task ≠ i → Waiter.isCancelled r'.task lock.queue = false →
      r.number < r'.number) : (l.enter (.gets i)).Fair (lock.take i) where
  waiting := h.tasks_leave i
  numbered := h.numbered.filter _
  made r' hr' := by
    change r' ∈ l.waiting.filter (·.task ≠ i) ++ (l.waiting.filter (·.task = i) ++ l.granted) at hr'
    refine h.made r' ?_
    rw [List.mem_append, List.mem_append] at hr'
    rcases hr' with hr' | hr' | hr'
    · exact List.mem_append_left _ (List.mem_of_mem_filter hr')
    · exact List.mem_append_left _ (List.mem_of_mem_filter hr')
    · exact List.mem_append_right _ hr'
  ascending := by
    change (l.waiting.filter (·.task = i) ++ l.granted).Pairwise _
    rw [hself]
    exact List.pairwise_cons.2 ⟨hlater, h.ascending⟩
  inTurn r' hr' hnot g hg := by
    change g ∈ l.waiting.filter (·.task = i) ++ l.granted at hg
    obtain ⟨hr', hne⟩ := List.mem_filter.1 hr'
    have hne : r'.task ≠ i := of_decide_eq_true hne
    have hnot : Waiter.isCancelled r'.task lock.queue = false :=
      (Waiter.isCancelled_leave hne).symm.trans hnot
    rw [hself] at hg
    rcases List.mem_cons.1 hg with rfl | hg
    · exact hothers r' hr' hne hnot
    · exact h.inTurn r' hr' hnot g hg
  holder j hj := by
    cases hj
    refine ⟨r, ?_, hri⟩
    change (l.waiting.filter (·.task = i) ++ l.granted).head? = _
    rw [hself]
    rfl

theorem quits (h : l.Fair lock) (i : Nat) : (l.enter (.quits i)).Fair (lock.leave i).1 := by
  have hleft :
      (l.enter (.quits i)).Fair { lock with queue := Waiter.leave i lock.queue } := by
    refine ⟨h.tasks_leave i, h.numbered.filter _, fun r hr => ?_, h.ascending,
      fun r hr hnot g hg => ?_, h.holder⟩
    · rcases List.mem_append.1 hr with hr | hr
      · exact h.made r (List.mem_append_left _ (List.mem_of_mem_filter hr))
      · exact h.made r (List.mem_append_right _ hr)
    · obtain ⟨hr, hne⟩ := List.mem_filter.1 hr
      exact h.inTurn r hr ((Waiter.isCancelled_leave (of_decide_eq_true hne)).symm.trans hnot) g hg
  exact hleft.of_keeps (Lock.keeps_pass _)

theorem filter_asks (h : l.Fair lock) (hi : i ∉ lock.queue.map (·.task)) :
    (l.enter (.asks i)).waiting.filter (·.task = i) = [⟨l.made, i⟩] := by
  have hnone : l.waiting.filter (·.task = i) = [] := by
    refine List.filter_eq_nil_iff.2 fun r hr he => hi ?_
    rw [← h.waiting, ← of_decide_eq_true he]
    exact List.mem_map_of_mem hr
  change (l.waiting ++ [⟨l.made, i⟩] : List Request).filter (·.task = i) = _
  rw [List.filter_append, hnone, List.nil_append]
  exact List.filter_cons_of_pos (decide_eq_true rfl)

theorem enter_take (h : l.Fair lock) (hi : i ∉ lock.queue.map (·.task)) (hfree : lock.isFree = true) :
    ((l.enter (.asks i)).enter (.gets i)).Fair (lock.take i) := by
  have htake : (lock.join ⟨i, .pending⟩).take i = lock.take i := by
    rw [Lock.take, Lock.take, Lock.join, Waiter.leave, List.filter_append,
      List.filter_cons_of_neg (by simp), List.filter_nil, List.append_nil]
    rfl
  rw [← htake]
  refine (h.asks i .pending).gets (r := ⟨l.made, i⟩) (List.mem_append_right _ List.mem_cons_self)
    rfl (h.filter_asks hi) (fun g hg => h.made g (List.mem_append_right _ hg))
    fun r hr hne hnot => ?_
  obtain ⟨w, hw, hwr⟩ : ∃ w ∈ lock.queue, w.task = r.task := by
    rcases List.mem_append.1 hr with hr | hr
    · have hmap : r.task ∈ lock.queue.map (·.task) := h.waiting ▸ List.mem_map_of_mem hr
      exact List.mem_map.1 hmap
    · exact absurd (by rw [List.mem_singleton.1 hr]) hne
  have hjoin : (lock.join ⟨i, .pending⟩).queue = lock.queue ++ [⟨i, .pending⟩] := rfl
  rw [hjoin, ← hwr, Waiter.isCancelled_append (Lock.isCancelled_of_free hfree hw)] at hnot
  cases hnot

theorem take_of_woken {w : Waiter} {q : List Waiter} (h : l.Fair lock) (hq : lock.queue = w :: q)
    (hwi : w.task = i) (hnot : i ∉ q.map (·.task)) (hwoken : w.state = .woken) :
    (l.enter (.gets i)).Fair (lock.take i) := by
  obtain ⟨r, rs, hwaiting⟩ : ∃ r rs, l.waiting = r :: rs := by
    cases hw : l.waiting with
    | nil =>
        have hnil := h.waiting
        rw [hw, hq] at hnil
        cases hnil
    | cons r rs => exact ⟨r, rs, rfl⟩
  have htasks := h.waiting
  rw [hwaiting, hq, List.map_cons, List.map_cons] at htasks
  obtain ⟨hr, hrs⟩ := List.cons.inj htasks
  have hri : r.task = i := hr.trans hwi
  have hothers : ∀ r' ∈ rs, r'.task ≠ i := fun r' hr' he =>
    hnot (hrs ▸ he ▸ List.mem_map_of_mem hr')
  have hnumbered := h.numbered
  rw [hwaiting, List.pairwise_cons] at hnumbered
  refine h.gets (r := r) (hwaiting ▸ List.mem_cons_self) hri ?_ ?_ fun r' hr' hne _ => ?_
  · have hrest : rs.filter (·.task = i) = [] :=
      List.filter_eq_nil_iff.2 fun r' hr' he => hothers r' hr' (of_decide_eq_true he)
    rw [hwaiting, List.filter_cons, if_pos (decide_eq_true hri), hrest]
  · -- the first waiter was woken and not cancelled, so it was not passed over
    refine h.inTurn r (hwaiting ▸ List.mem_cons_self) ?_
    rw [hri, hq, Waiter.isCancelled, List.any_cons, Bool.or_eq_false_iff, List.any_eq_false]
    refine ⟨by simp [hwoken], fun w' hw' hd => hnot ?_⟩
    rw [← (of_decide_eq_true hd).1]
    exact List.mem_map_of_mem hw'
  · rw [hwaiting] at hr'
    rcases List.mem_cons.1 hr' with rfl | hr'
    · exact absurd hri hne
    · exact hnumbered.1 r' hr'

theorem deals (h : l.Fair lock) (hdeals : lock.Deals i lock' ds) :
    (ds.foldl enter l).Fair lock' := by
  cases hdeals with
  | keeps hkeeps => exact h.of_keeps hkeeps
  | waits => exact h.asks i _
  | enters hi hfree => exact h.enter_take hi hfree
  | wakes hq hwi hnot hwoken => exact h.take_of_woken hq hwi hnot hwoken
  | quits => exact h.quits i

end Fair

end Ledger

namespace Line

variable {l l' : Line} {sts : List Stand} {st st' : Stand} {i : Nat} {σ σ' : Scene}

theorem keeps_unlock (key k : String) : (l.locks k).Keeps ((l.unlock key).locks k) := by
  by_cases hk : k = key
  · subst hk
    have hlock : (l.unlock k).locks k = ({ l.locks k with holder := none } : Lock).pass.1 :=
      if_pos rfl
    rw [hlock]
    obtain ⟨-, htasks, hcancelled⟩ := Lock.keeps_pass { l.locks k with holder := none }
    refine ⟨fun j hj => ?_, htasks, hcancelled⟩
    have hnone := (Lock.keeps_pass { l.locks k with holder := none }).holder j hj
    cases hnone
  · have hlock : (l.unlock key).locks k = l.locks k := if_neg hk
    rw [hlock]
    exact .refl _

theorem keeps_shift (hshift : Shift i sts l st l' st') (hst : ∀ op, st.place ≠ .requesting op)
    (hst' : ∀ op, st.place ≠ .queued op) (hspot : ∀ key, st'.place.spot? ≠ some (.lock key))
    (k : String) : (l.locks k).Keeps (l'.locks k) := by
  cases hshift with
  | takes htakes =>
      rcases htakes with ⟨rfl, -⟩ | ⟨rfl, -⟩
      · exact absurd rfl (hst _)
      · exact absurd rfl (hst' _)
  | @joins _ _ spot _ _ hjoined =>
      cases spot with
      | gate => exact .refl _
      | lock key => exact absurd hjoined (hspot key)
  | leaves => exact absurd rfl (hst' _)
  | releases => exact keeps_unlock _ k
  | @leavesGate gate => exact keeps_unlock (l := l.setQueue (.gate gate) _) _ k
  | @cancels _ j spot =>
      cases spot with
      | gate => exact .refl _
      | lock key =>
          by_cases hk : k = key
          · subst hk
            have hlock : ((l.setQueue (.lock k) (Waiter.cancel j (l.queue (.lock k)))).wake
                [j]).locks k = { l.locks k with queue := Waiter.cancel j (l.locks k).queue } :=
              locks_setLock_self _
            rw [hlock]
            refine ⟨fun _ => id, ?_, fun _ => Waiter.isCancelled_cancel⟩
            change (Waiter.cancel j _).map _ = _
            rw [Waiter.cancel, List.map_map]
            refine List.map_congr_left fun w _ => ?_
            rw [Function.comp_apply]
            split <;> rfl
          · have hlock : ((l.setQueue (.lock key) (Waiter.cancel j (l.queue (.lock key)))).wake
                [j]).locks k = l.locks k := locks_setLock_ne _ hk
            rw [hlock]
            exact .refl _
  | _ => exact .refl _

theorem not_still {op : Operation} {fs : List Frame} {p : Place} (hne : ∀ op, p ≠ .acting op) :
    ¬ ∀ key, (⟨.acting op, fs⟩ : Stand).occupies key ≤ (⟨p, fs⟩ : Stand).occupies key := by
  intro hkey
  have h := hkey op.key
  rw [Schedule.occupies_acting, if_pos rfl, Stand.occupies] at h
  cases p with
  | acting op' => exact hne op' rfl
  | _ => simp at h

theorem deals_setLock {k : String} {lock : Lock} {ds : List Dealing}
    (hdeals : (l.locks k).Deals i lock ds) (key : String) :
    (l.locks key).Deals i ((l.setLock k lock).locks key) (if k = key then ds else []) := by
  split
  · subst key
    rw [locks_setLock_self]
    exact hdeals
  · rw [locks_setLock_ne _ (Ne.symm ‹_›)]
    exact .keeps (.refl _)

theorem not_halted {op : Operation} {p : Place} {fs : List Frame} {st' : Stand}
    (hp : p = .requesting op ∨ p = .queued op) :
    ¬ ((⟨p, fs⟩ : Stand).Halted ∧ st' = ⟨p, fs⟩ ∨
      (∃ result, (⟨p, fs⟩ : Stand) = ⟨.returning result, []⟩) ∧ st' = ⟨.done, []⟩) := by
  rintro (⟨hst, -⟩ | ⟨⟨_, hst⟩, -⟩) <;> rcases hp with rfl | rfl <;> cases hst

/-- A turn deals with the lock of a key as the places where its task stands tell. -/
theorem deals_turn (h : l.Exclusive sts) (hready : i ∈ l.ready) (hi : sts[i]? = some st)
    (hturn : Turn σ st σ' st') (hshift : Shift i sts l st l' st') (key : String) :
    (l.locks key).Deals i (l'.locks key) (st.place.dealings key i st'.place) := by
  cases hturn with
  | @waits op fs =>
      cases hshift with
      | still _ hspot | releases _ hspot => cases hspot
      | drops hst => exact absurd hst (not_halted (.inl rfl))
      | joins _ hspot =>
          cases hspot
          exact deals_setLock .waits key
  | @enters op fs =>
      have htook : ¬ ∀ k, (⟨.acting op, fs⟩ : Stand).occupies k ≤
          (⟨.requesting op, fs⟩ : Stand).occupies k := not_still (by simp)
      cases hshift with
      | still _ _ hkey => exact absurd (fun k => (hkey k).le) htook
      | releases _ _ hkey =>
          exact absurd (fun k => (hkey k).symm ▸ Nat.le_add_right _ _) htook
      | joins _ hspot => cases hspot
      | drops hst => exact absurd hst (not_halted (.inl rfl))
      | takes htakes =>
          obtain ⟨-, hfree⟩ | ⟨hst, -⟩ := htakes
          · refine deals_setLock (.enters (fun hmem => ?_) hfree) key
            exact not_waits hi rfl _ ((h.regular.queued (.lock op.key) i).1 hmem)
          · cases hst
  | @wakes op fs =>
      cases hshift with
      | still hspot | joins hspot | releases hspot => cases hspot
      | drops hst => exact absurd hst (not_halted (.inr rfl))
      | takes htakes =>
          obtain ⟨hst, -⟩ | ⟨-, hnot⟩ := htakes
          · cases hst
          · obtain ⟨-, w, hfirst, hwi, hwoken⟩ := h.woken_of_ready hready ⟨_, hi, rfl⟩ hnot
            obtain ⟨q, hq⟩ := List.head?_eq_some_iff.1 hfirst
            have hdistinct : ((l.locks op.key).queue.map (·.task)).Nodup :=
              h.distinct (.lock op.key)
            rw [hq, List.map_cons, List.nodup_cons] at hdistinct
            exact deals_setLock (.wakes hq hwi (hwi ▸ hdistinct.1) hwoken) key
  | leaves =>
      cases hshift with
      | still hspot | joins hspot | releases hspot => cases hspot
      | leaves => exact deals_setLock .quits key
      | drops hst => exact absurd hst (not_halted (.inr rfl))
  | concludes hends =>
      rcases hends with ⟨rfl, -⟩ | ⟨⟨gate, rfl⟩, -⟩ <;>
        exact .keeps (keeps_shift hshift (by simp) (by simp) (by simp [Place.spot?]) key)
  | _ => exact .keeps (keeps_shift hshift (by simp) (by simp) (by simp [Place.spot?]) key)

end Line

namespace Schedule

variable {s : Schedule} {key : String}

def dealings (key : String) (s : Schedule) : Move → List Dealing
  | .submit _ => []
  | .turn =>
    match s.ready with
    | [] => []
    | i :: _ =>
      match s.stands[i]?, s.tick.stands[i]? with
      | some st, some st' => st.place.dealings key i st'.place
      | _, _ => []

/-- The ledger of the lock of a key after a run, continued from an earlier one. -/
def ledger (key : String) (s : Schedule) : List Move → Ledger → Ledger
  | [], l => l
  | m :: ms, l => (s.move m).ledger key ms ((s.dealings key m).foldl .enter l)

theorem dealings_of_turn {i : Nat} {st st' : Stand} (hi : s.ready.head? = some i)
    (hst : s.stands[i]? = some st) (hstands : s.tick.stands = s.stands.set i st') :
    s.dealings key .turn = st.place.dealings key i st'.place := by
  obtain ⟨rest, hready⟩ := List.head?_eq_some_iff.1 hi
  rw [dealings, hready]
  dsimp only
  rw [hst, hstands, List.getElem?_set_self (List.getElem?_eq_some_iff.1 hst).1]

theorem Attended.deals (h : s.Attended) (key : String) (m : Move) :
    ∃ i, (s.locks key).Deals i ((s.move m).locks key) (s.dealings key m) := by
  cases m with
  | submit step => exact ⟨0, .keeps (.refl _)⟩
  | turn =>
      obtain ⟨hready, htick⟩ | ⟨i, st, st', hhead, hi, hstands, hshift, hturn⟩ :=
        tick_turns h.hasLocks fun _ => h.known
      · have hquiet : s.dealings key .turn = [] := by rw [dealings, hready]
        rw [hquiet, move, htick]
        exact ⟨0, .keeps (.refl _)⟩
      · refine ⟨i, ?_⟩
        rw [dealings_of_turn hhead hi hstands]
        rcases hturn with hturn | ⟨hhalted, rfl, -⟩
        · exact Line.deals_turn h.exclusive (List.mem_of_mem_head? hhead) hi hturn hshift key
        · cases hhalted <;>
            exact .keeps (Line.keeps_shift hshift (by simp) (by simp) (by simp [Place.spot?]) key)

theorem ledger_fair {l : Ledger} (h : s.Attended) (hl : l.Fair (s.locks key)) (ms : List Move) :
    (s.ledger key ms l).Fair ((s.after ms).locks key) := by
  induction ms generalizing s l with
  | nil => exact hl
  | cons m ms ih =>
      obtain ⟨i, hdeals⟩ := h.deals key m
      exact ih (h.after [m]) (hl.deals hdeals)

/-- A task waits for the lock of a key behind a task that has it: that one alone acts for the key, by
a call whose function is suspended. -/
def Behind (key : String) (s : Schedule) : Prop :=
  ∃ j st, s.stands[j]? = some st ∧ (s.locks key).holder = some j ∧
    (∃ f ∈ st.frames, f.key = key) ∧ st.place.spot? ≠ none ∧ st.occupies key = 1 ∧
    ∀ j' st', s.stands[j']? = some st' → j' ≠ j → st'.occupies key = 0

/-- Over a store in memory, whatever is submitted and cancelled, and however functions, listeners and
accesses of the store fail: where no task can go on, a task waits for the lock of a key only behind the
one operation that has it, a call whose function is suspended. A lock that no operation has or waits for
is free. And requests for a lock are granted in the order in which they are made, as none is passed over
but those that were cancelled. -/
theorem locks_served (t : Instant) (writes : List (String × Record)) (ms : List Move)
    (key : String) :
    let s := (atRest t (.memory writes)).after ms
    let l := (atRest t (.memory writes)).ledger key ms {}
    (s.ready = [] → ∀ i, Waits s.stands (.lock key) i → s.Behind key) ∧
      ((∀ st ∈ s.stands, st.occupies key = 0 ∧ st.place.spot? ≠ some (.lock key)) →
        s.locks key = {}) ∧
      l.Fair (s.locks key) := by
  intro s l
  have hs : s.Attended := (attended_atRest t writes).after ms
  refine ⟨fun hrest i hwaits => ?_, hs.lock_of_idle, ?_⟩
  · obtain ⟨j, st, hj, hholder, hocc, hf, hspot⟩ := hs.holder_of_rest hrest hwaits
    refine ⟨j, st, hj, hholder, hf, hspot, hocc, fun j' st' hj' hne => ?_⟩
    rw [hs.exclusive.held key j' st' hj', if_neg]
    intro he
    exact hne (Option.some.inj (he.symm.trans hholder))
  · refine ledger_fair (attended_atRest t writes) ?_ ms
    exact ⟨rfl, List.Pairwise.nil, fun _ hr => absurd hr List.not_mem_nil, List.Pairwise.nil,
      fun _ hr => absurd hr List.not_mem_nil, fun _ hj => by cases hj⟩

def cancelledCall : List Move :=
  [Move.submit (.call {} "k" { gate := some "g" } [])] ++ List.replicate 4 Move.turn ++
    [Move.submit (.call {} "k" {} []), Move.submit (.call {} "k" {} [])] ++
    List.replicate 4 Move.turn ++ [Move.submit (.cancel 1)] ++ List.replicate 4 Move.turn

def gateOpened : List Move :=
  cancelledCall ++ [Move.submit (.release "g")] ++ List.replicate 8 Move.turn

theorem locks_served_of_cancelledCall :
    (((atRest beginning (.memory [])).after cancelledCall).ready = [] ∧
      Waits ((atRest beginning (.memory [])).after cancelledCall).stands (.lock "k") 2 ∧
      ((atRest beginning (.memory [])).after cancelledCall).Behind "k") ∧
    ((atRest beginning (.memory [])).after gateOpened).locks "k" = {} ∧
    ((atRest beginning (.memory [])).ledger "k" gateOpened {}).Fair {} ∧
    ((atRest beginning (.memory [])).ledger "k" gateOpened {}).granted.map (·.number) = [2, 0] := by
  have hrest : ((atRest beginning (.memory [])).after cancelledCall).ready = [] := by
    decide +kernel
  have hwaits : Waits ((atRest beginning (.memory [])).after cancelledCall).stands (.lock "k") 2 := by
    refine ⟨_, List.getElem?_eq_getElem (by decide +kernel), ?_⟩
    decide +kernel
  have hidle : ∀ st ∈ ((atRest beginning (.memory [])).after gateOpened).stands,
      st.occupies "k" = 0 ∧ st.place.spot? ≠ some (.lock "k") := by
    decide +kernel
  have hbehind := (locks_served beginning [] cancelledCall "k").1 hrest 2 hwaits
  obtain ⟨-, hfree, hfair⟩ := locks_served beginning [] gateOpened "k"
  exact ⟨⟨hrest, hwaits, hbehind⟩, hfree hidle, hfree hidle ▸ hfair, by decide +kernel⟩

end Schedule

end KeyedBreaker
