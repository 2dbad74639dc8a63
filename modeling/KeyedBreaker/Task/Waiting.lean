namespace KeyedBreaker

inductive WaiterState where
  | pending
  | woken
  | cancelled
  deriving DecidableEq

/-- A task that waits. It stays in its queue, woken or cancelled, until it goes on. -/
structure Waiter where
  task : Nat
  state : WaiterState := .pending
  deriving DecidableEq

namespace Waiter

def isPending (task : Nat) (queue : List Waiter) : Bool :=
  queue.any fun w => w.task = task ∧ w.state = .pending

def isCancelled (task : Nat) (queue : List Waiter) : Bool :=
  queue.any fun w => w.task = task ∧ w.state = .cancelled

def cancel (task : Nat) (queue : List Waiter) : List Waiter :=
  queue.map fun w => if w.task = task then { w with state := .cancelled } else w

def leave (task : Nat) (queue : List Waiter) : List Waiter := queue.filter (·.task ≠ task)

end Waiter

structure Lock where
  holder : Option Nat := none
  queue : List Waiter := []

namespace Lock

/-- Whether a task that asks for the lock need not wait: nobody has it, and everyone who waits for
it has been cancelled. -/
def isFree (l : Lock) : Bool := l.holder.isNone && l.queue.all (·.state = .cancelled)

def take (task : Nat) (l : Lock) : Lock :=
  { holder := some task, queue := Waiter.leave task l.queue }

def join (w : Waiter) (l : Lock) : Lock := { l with queue := l.queue ++ [w] }

/-- Wakes the first waiter of a lock that nobody has, unless it has been woken or cancelled already
and will see to the lock when its task goes on. -/
def pass (l : Lock) : Lock × List Nat :=
  match l.holder, l.queue with
  | none, ⟨task, .pending⟩ :: queue => ({ l with queue := ⟨task, .woken⟩ :: queue }, [task])
  | _, _ => (l, [])

def release (l : Lock) : Lock × List Nat := { l with holder := none }.pass

def leave (task : Nat) (l : Lock) : Lock × List Nat :=
  { l with queue := Waiter.leave task l.queue }.pass

end Lock

structure Gate where
  isOpen : Bool := false
  queue : List Waiter := []

namespace Gate

def join (w : Waiter) (g : Gate) : Gate := { g with queue := g.queue ++ [w] }

def leave (task : Nat) (g : Gate) : Gate := { g with queue := Waiter.leave task g.queue }

def wake (w : Waiter) : Waiter := if w.state = .pending then { w with state := .woken } else w

def release (g : Gate) : Gate × List Nat :=
  ({ isOpen := true, queue := g.queue.map wake },
    (g.queue.filter (·.state = .pending)).map (·.task))

end Gate

end KeyedBreaker
