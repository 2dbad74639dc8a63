import KeyedBreaker.Proofs.Breaker.Alongside
import KeyedBreaker.Proofs.Schedule.Run

namespace KeyedBreaker

/-- Some tasks that stay, with the numbers that they have when the others are left out. -/
structure Selection where
  stays : Nat → Bool
  rank : Nat → Nat
  injective : ∀ {i j}, stays i = true → stays j = true → rank i = rank j → i = j

def Step.renumber (f : Nat → Nat) : Step → Step
  | .cancel j => .cancel (f j)
  | step => step

def Place.renumber (f : Nat → Nat) : Place → Place
  | .starting step => .starting (step.renumber f)
  | p => p

def Task.renumber (f : Nat → Nat) (t : Task) : Task := { t with place := t.place.renumber f }

def Waiter.renumber (f : Nat → Nat) (w : Waiter) : Waiter := { w with task := f w.task }

namespace Selection

variable (sel : Selection)

def numbers (is : List Nat) : List Nat := (is.filter sel.stays).map sel.rank

def waiters (q : List Waiter) : List Waiter :=
  (q.filter fun w => sel.stays w.task).map (Waiter.renumber sel.rank)

def lock (l : Lock) : Lock := ⟨l.holder.map sel.rank, sel.waiters l.queue⟩

def gate (g : Gate) : Gate := ⟨g.isOpen, sel.waiters g.queue⟩

def results {α : Type} (l : List (Nat × α)) : List (Nat × α) :=
  (l.filter fun x => sel.stays x.1).map fun x => (sel.rank x.1, x.2)

variable {sel} {i j : Nat} {is : List Nat} {w : Waiter} {q : List Waiter} {l : Lock} {g : Gate}

theorem rank_inj (hi : sel.stays i = true) (hj : sel.stays j = true) :
    sel.rank i = sel.rank j ↔ i = j := ⟨sel.injective hi hj, congrArg _⟩

@[simp] theorem numbers_append (is js : List Nat) :
    sel.numbers (is ++ js) = sel.numbers is ++ sel.numbers js := by
  simp [numbers]

theorem numbers_self (hi : sel.stays i = true) : sel.numbers [i] = [sel.rank i] := by
  simp [numbers, hi]

theorem numbers_other (h : ∀ i ∈ is, sel.stays i = false) : sel.numbers is = [] := by
  rw [numbers, List.filter_eq_nil_iff.2 fun i hi => by simp [h i hi]]
  rfl

theorem numbers_cons (hi : sel.stays i = true) :
    sel.numbers (i :: is) = sel.rank i :: sel.numbers is := by
  simp [numbers, hi]

theorem numbers_cons_other (hi : sel.stays i = false) : sel.numbers (i :: is) = sel.numbers is := by
  simp [numbers, hi]

theorem numbers_tail (hhead : is.head? = some i) (hi : sel.stays i = true) :
    (sel.numbers is).tail = sel.numbers is.tail := by
  obtain ⟨rest, rfl⟩ := List.head?_eq_some_iff.1 hhead
  rw [numbers_cons hi]
  rfl

theorem head?_numbers (hhead : is.head? = some i) (hi : sel.stays i = true) :
    (sel.numbers is).head? = some (sel.rank i) := by
  obtain ⟨rest, rfl⟩ := List.head?_eq_some_iff.1 hhead
  rw [numbers_cons hi]
  rfl

theorem numbers_tail_other (hhead : is.head? = some i) (hi : sel.stays i = false) :
    sel.numbers is.tail = sel.numbers is := by
  obtain ⟨rest, rfl⟩ := List.head?_eq_some_iff.1 hhead
  exact (numbers_cons_other hi).symm

@[simp] theorem waiters_append (q q' : List Waiter) :
    sel.waiters (q ++ q') = sel.waiters q ++ sel.waiters q' := by
  simp [waiters]

theorem waiters_cons (h : sel.stays w.task = true) :
    sel.waiters (w :: q) = w.renumber sel.rank :: sel.waiters q := by
  simp [waiters, h]

theorem waiters_cons_other (h : sel.stays w.task = false) : sel.waiters (w :: q) = sel.waiters q := by
  simp [waiters, h]

theorem waiters_leave (hi : sel.stays i = true) (q : List Waiter) :
    sel.waiters (Waiter.leave i q) = Waiter.leave (sel.rank i) (sel.waiters q) := by
  induction q with
  | nil => rfl
  | cons w q ih =>
      by_cases hw : sel.stays w.task = true
      · rw [waiters_cons hw]
        by_cases hwi : w.task = i
        · simpa [Waiter.leave, Waiter.renumber, hwi] using ih
        · have hne : sel.rank w.task ≠ sel.rank i := fun h => hwi (sel.injective hw hi h)
          simpa [Waiter.leave, Waiter.renumber, hwi, hne, waiters_cons hw] using ih
      · have hwi : w.task ≠ i := fun h => hw (h ▸ hi)
        rw [waiters_cons_other (Bool.eq_false_iff.2 hw), ← ih]
        simp [Waiter.leave, hwi, waiters_cons_other (Bool.eq_false_iff.2 hw)]

theorem waiters_leave_other (hi : sel.stays i = false) (q : List Waiter) :
    sel.waiters (Waiter.leave i q) = sel.waiters q := by
  rw [waiters, Waiter.leave, List.filter_filter, waiters]
  congr 1
  refine List.filter_congr fun w _ => ?_
  by_cases hwi : w.task = i
  · simp [hwi, hi]
  · simp [hwi]

theorem waiters_cancel (hi : sel.stays i = true) (q : List Waiter) :
    sel.waiters (Waiter.cancel i q) = Waiter.cancel (sel.rank i) (sel.waiters q) := by
  induction q with
  | nil => rfl
  | cons w q ih =>
      by_cases hw : sel.stays w.task = true
      · by_cases hwi : w.task = i
        · simpa [Waiter.cancel, Waiter.renumber, waiters, hwi, hi] using ih
        · have hne : sel.rank w.task ≠ sel.rank i := fun h => hwi (sel.injective hw hi h)
          simpa [Waiter.cancel, Waiter.renumber, waiters, hwi, hne, hw] using ih
      · have hwi : w.task ≠ i := fun h => hw (h ▸ hi)
        simpa [Waiter.cancel, Waiter.renumber, waiters, hwi, hw] using ih

theorem waiters_cancel_other (hi : sel.stays i = false) (q : List Waiter) :
    sel.waiters (Waiter.cancel i q) = sel.waiters q := by
  induction q with
  | nil => rfl
  | cons w q ih =>
      by_cases hw : sel.stays w.task = true
      · have hwi : w.task ≠ i := fun h => by rw [h, hi] at hw; cases hw
        simpa [Waiter.cancel, waiters, hwi, hw] using ih
      · by_cases hwi : w.task = i
        · simpa [Waiter.cancel, waiters, hwi, hi] using ih
        · simpa [Waiter.cancel, waiters, hwi, hw] using ih

theorem any_waiters (hi : sel.stays i = true) (p : WaiterState → Prop) [DecidablePred p]
    (q : List Waiter) :
    ((sel.waiters q).any fun w => w.task = sel.rank i ∧ p w.state) =
      q.any fun w => w.task = i ∧ p w.state := by
  induction q with
  | nil => rfl
  | cons w q ih =>
      by_cases hw : sel.stays w.task = true
      · rw [waiters_cons hw, List.any_cons, List.any_cons, ih]
        simp [Waiter.renumber, rank_inj hw hi]
      · have hwi : w.task ≠ i := fun h => hw (h ▸ hi)
        rw [waiters_cons_other (Bool.eq_false_iff.2 hw), List.any_cons, ih]
        simp [hwi]

theorem isPending_waiters (hi : sel.stays i = true) (q : List Waiter) :
    Waiter.isPending (sel.rank i) (sel.waiters q) = Waiter.isPending i q :=
  any_waiters hi (· = .pending) q

theorem isCancelled_waiters (hi : sel.stays i = true) (q : List Waiter) :
    Waiter.isCancelled (sel.rank i) (sel.waiters q) = Waiter.isCancelled i q :=
  any_waiters hi (· = .cancelled) q

theorem results_cons {α : Type} {x : α} {l : List (Nat × α)} (hi : sel.stays i = true) :
    sel.results ((i, x) :: l) = (sel.rank i, x) :: sel.results l := by
  simp [results, hi]

theorem results_cons_other {α : Type} {x : α} {l : List (Nat × α)} (hi : sel.stays i = false) :
    sel.results ((i, x) :: l) = sel.results l := by
  simp [results, hi]

theorem isFree_lock (h : ∀ w ∈ l.queue, sel.stays w.task = true) : (sel.lock l).isFree = l.isFree := by
  rw [Lock.isFree, Lock.isFree, lock, waiters, List.filter_eq_self.2 h, List.all_map, Option.isNone_map]
  rfl

theorem lock_take (hi : sel.stays i = true) (l : Lock) :
    sel.lock (l.take i) = (sel.lock l).take (sel.rank i) :=
  congrArg (Lock.mk (some (sel.rank i))) (waiters_leave hi l.queue)

theorem lock_join (hw : sel.stays w.task = true) (l : Lock) :
    sel.lock (l.join w) = (sel.lock l).join (w.renumber sel.rank) := by
  rw [lock, Lock.join, waiters_append, waiters_cons hw]
  rfl

theorem lock_cancel (hi : sel.stays i = true) (l : Lock) :
    sel.lock { l with queue := Waiter.cancel i l.queue } =
      { sel.lock l with queue := Waiter.cancel (sel.rank i) (sel.lock l).queue } :=
  congrArg (Lock.mk _) (waiters_cancel hi l.queue)

theorem pass_lock (h : ∀ w ∈ l.queue, sel.stays w.task = true) :
    (sel.lock l).pass = (sel.lock l.pass.1, sel.numbers l.pass.2) := by
  obtain ⟨holder, queue⟩ := l
  cases holder with
  | some i => rfl
  | none =>
      cases queue with
      | nil => rfl
      | cons w q =>
          obtain ⟨task, state⟩ := w
          have hw : sel.stays task = true := h _ List.mem_cons_self
          cases state with
          | pending =>
              simp only [lock, Lock.pass, waiters_cons (w := ⟨task, _⟩) hw, numbers_self hw,
                Waiter.renumber]
              rfl
          | woken | cancelled =>
              simp only [lock, Lock.pass, waiters_cons (w := ⟨task, _⟩) hw, Waiter.renumber]
              rfl

theorem release_lock (h : ∀ w ∈ l.queue, sel.stays w.task = true) :
    (sel.lock l).release = (sel.lock l.release.1, sel.numbers l.release.2) :=
  pass_lock (l := { l with holder := none }) h

theorem leave_lock (h : ∀ w ∈ l.queue, sel.stays w.task = true) (hi : sel.stays i = true) :
    (sel.lock l).leave (sel.rank i) = (sel.lock (l.leave i).1, sel.numbers (l.leave i).2) := by
  let left : Lock := { l with queue := Waiter.leave i l.queue }
  have hpass : (sel.lock left).pass = (sel.lock left.pass.1, sel.numbers left.pass.2) :=
    pass_lock fun w hw => h w (List.mem_of_mem_filter hw)
  rw [lock, waiters_leave hi] at hpass
  exact hpass

theorem gate_join (hw : sel.stays w.task = true) (g : Gate) :
    sel.gate (g.join w) = (sel.gate g).join (w.renumber sel.rank) := by
  rw [gate, Gate.join, waiters_append, waiters_cons hw]
  rfl

theorem gate_join_other (hw : sel.stays w.task = false) (g : Gate) :
    sel.gate (g.join w) = sel.gate g := by
  rw [gate, Gate.join, waiters_append, waiters_cons_other hw]
  exact congrArg (Gate.mk g.isOpen) (List.append_nil _)

theorem gate_leave (hi : sel.stays i = true) (g : Gate) :
    sel.gate (g.leave i) = (sel.gate g).leave (sel.rank i) :=
  congrArg (Gate.mk g.isOpen) (waiters_leave hi g.queue)

theorem gate_leave_other (hi : sel.stays i = false) (g : Gate) : sel.gate (g.leave i) = sel.gate g :=
  congrArg (Gate.mk g.isOpen) (waiters_leave_other hi g.queue)

theorem gate_cancel (hi : sel.stays i = true) (g : Gate) :
    sel.gate { g with queue := Waiter.cancel i g.queue } =
      { sel.gate g with queue := Waiter.cancel (sel.rank i) (sel.gate g).queue } :=
  congrArg (Gate.mk _) (waiters_cancel hi g.queue)

theorem isPending_lock (hi : sel.stays i = true) (l : Lock) :
    Waiter.isPending (sel.rank i) (sel.lock l).queue = Waiter.isPending i l.queue :=
  isPending_waiters hi l.queue

theorem isCancelled_lock (hi : sel.stays i = true) (l : Lock) :
    Waiter.isCancelled (sel.rank i) (sel.lock l).queue = Waiter.isCancelled i l.queue :=
  isCancelled_waiters hi l.queue

theorem isPending_gate (hi : sel.stays i = true) (g : Gate) :
    Waiter.isPending (sel.rank i) (sel.gate g).queue = Waiter.isPending i g.queue :=
  isPending_waiters hi g.queue

theorem isCancelled_gate (hi : sel.stays i = true) (g : Gate) :
    Waiter.isCancelled (sel.rank i) (sel.gate g).queue = Waiter.isCancelled i g.queue :=
  isCancelled_waiters hi g.queue

theorem wake_renumber (f : Nat → Nat) (w : Waiter) :
    Gate.wake (w.renumber f) = (Gate.wake w).renumber f := by
  unfold Gate.wake Waiter.renumber
  split <;> rfl

theorem task_wake (w : Waiter) : (Gate.wake w).task = w.task := by
  unfold Gate.wake
  split <;> rfl

theorem release_gate (g : Gate) :
    (sel.gate g).release = (sel.gate g.release.1, sel.numbers g.release.2) := by
  have hqueue : (sel.waiters g.queue).map Gate.wake = sel.waiters (g.queue.map Gate.wake) := by
    rw [waiters, waiters, List.filter_map, List.map_map, List.map_map]
    refine congrArg₂ List.map (funext fun w => wake_renumber sel.rank w) ?_
    exact List.filter_congr fun w _ => by rw [Function.comp_apply, task_wake]
  have hwoken : ((sel.waiters g.queue).filter (·.state = .pending)).map (·.task) =
      sel.numbers ((g.queue.filter (·.state = .pending)).map (·.task)) := by
    rw [waiters, numbers, List.filter_map, List.map_map, List.filter_map, List.map_map,
      List.filter_filter, List.filter_filter]
    refine congrArg _ (List.filter_congr fun w _ => Bool.and_comm _ _)
  exact Prod.ext (congrArg (Gate.mk true) hqueue) hwoken

end Selection

end KeyedBreaker
