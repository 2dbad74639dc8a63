import KeyedBreaker.Breaker.Call
import KeyedBreaker.Breaker.Control

namespace KeyedBreaker

/-- What a guarded function does, apart from the steps that it makes. -/
structure Work where
  /-- Seconds by which the clock moves. -/
  advance : Option Binary64 := none
  monotonic : Option Binary64 := none
  /-- Where it waits before it ends. -/
  gate : Option String := none
  result : Except Failure Json := .ok .null

inductive Step where
  | call (b : Breaker) (key : String) (work : Work) (inner : List Step)
  | force (b : Breaker) (key : String) (target : Status)
  | status (b : Breaker) (key : String)
  | snapshot (b : Breaker) (key : String)
  | resetIn (b : Breaker) (key : String)
  | advance (seconds : Binary64)
  | setClock (t : Instant)
  | addFaults (access : Access) (faults : List Fault)
  | overwrite (name : String) (content : Option Content)
  | getRecord (key : String)
  | setRecord (key : String) (r : Record)
  | release (gate : String)
  | cancel (task : Nat)

/-- A step that holds the lock of its key while it acts. -/
inductive Operation where
  | call (b : Breaker) (key : String) (work : Work) (inner : List Step)
  | force (b : Breaker) (key : String) (target : Status) (attempt : Nat)

namespace Operation

def key : Operation → String
  | .call _ key .. | .force _ key .. => key

end Operation

/-- A guarded call whose function is running. -/
structure Frame where
  breaker : Breaker
  key : String
  opening : Breaker.Opening
  /-- Steps that the function has still to make. -/
  inner : List Step
  gate : Option String
  result : Except Failure Json

inductive Place where
  | starting (s : Step)
  | requesting (op : Operation)
  | queued (op : Operation)
  | acting (op : Operation)
  /-- The function of the innermost call goes on. -/
  | working
  | atGate (gate : String)
  /-- A step has ended. -/
  | returning (result : Except Failure Answer)
  | done

structure Task where
  place : Place
  /-- Innermost first. -/
  frames : List Frame := []
  /-- Cancelled while it could run: it fails as soon as it goes on or waits. -/
  cancelRequested : Bool := false

open Act

namespace Work

def start (w : Work) (key : String) : Act Unit := do
  emit (.started key)
  if let some seconds := w.advance then advanceClock seconds
  if let some seconds := w.monotonic then advanceMonotonic seconds

end Work

namespace Breaker

/-- How far a call has come when it first lets go: its function is running, or it has ended. -/
inductive Stage where
  | running (o : Opening)
  | ended (v : Json)

def enterCall (b : Breaker) (key : String) (w : Work) : Act Stage := do
  let (o, permitted) ← b.begin key
  match permitted with
  | .error f => return .ended (← b.finish key o (.error f))
  | .ok () =>
    match ← observing (w.start key) with
    | .error f => return .ended (← b.conclude key o (.error f))
    | .ok () => return .running o

end Breaker

namespace Step

/-- The action of a step that neither waits nor concerns other tasks. -/
def act? : Step → Option (Act Answer)
  | .status b key => some (.status <$> b.status key)
  | .snapshot b key => some ((.record ∘ some) <$> b.load key)
  | .resetIn b key => some (.seconds <$> b.resetIn key)
  | .advance seconds => some ((fun _ => .nothing) <$> Act.advanceClock seconds)
  | .setClock t => some ((fun _ => .nothing) <$> Act.setClock t)
  | .addFaults access faults => some ((fun _ => .nothing) <$> Act.addFaults access faults)
  | .overwrite name content => some ((fun _ => .nothing) <$> Act.overwrite name content)
  | .getRecord key => some (.record <$> readRecord key)
  | .setRecord key r => some ((.record ∘ some) <$> writeRecord key r)
  | .call .. | .force .. | .release _ | .cancel _ => none

end Step

end KeyedBreaker
