import KeyedBreaker.Event
import KeyedBreaker.Store.Basic

namespace KeyedBreaker

/-- Accesses at which faults wait: between a breaker and its store, and inside the client. -/
inductive Access where
  | read
  | write
  | clientRead
  | clientWrite
  deriving DecidableEq

inductive Fault where
  | pass
  | raise (f : Failure)
  /-- The write meets a store that claims to hold this version. -/
  | stale (actual : Int)

structure Scene where
  now : Instant
  /-- Seconds on a clock that is only good for differences. -/
  monotonic : Binary64 := Binary64.zero
  store : Store
  /-- For each kind of access, what the coming ones meet. -/
  faults : Access → List Fault := fun _ => []
  /-- Latest first. -/
  events : List Event := []

/-- What somebody does in a scene, bit by bit. Whoever tells a listener of something waits until it
comes back with a result, and others may act meanwhile. -/
inductive Act (α : Type) where
  | done (result : Except Failure α)
  | look (next : Scene → Act α)
  | change (f : Scene → Scene) (next : Act α)
  | say (e : Event) (next : Act α)
  | clock (next : Instant → Act α)
  | await (next : Except Failure Unit → Act α)

namespace Act

variable {α β : Type}

def andThen : Act α → (α → Act β) → Act β
  | .done (.ok x), g => g x
  | .done (.error f), _ => .done (.error f)
  | .look next, g => .look fun s => (next s).andThen g
  | .change f next, g => .change f (next.andThen g)
  | .say e next, g => .say e (next.andThen g)
  | .clock next, g => .clock fun t => (next t).andThen g
  | .await next, g => .await fun r => (next r).andThen g

def recover : Act α → (Failure → Act α) → Act α
  | .done (.ok x), _ => .done (.ok x)
  | .done (.error f), g => g f
  | .look next, g => .look fun s => (next s).recover g
  | .change f next, g => .change f (next.recover g)
  | .say e next, g => .say e (next.recover g)
  | .clock next, g => .clock fun t => (next t).recover g
  | .await next, g => .await fun r => (next r).recover g

instance : Monad Act where
  pure x := .done (.ok x)
  bind := andThen

instance : MonadExcept Failure Act where
  throw f := .done (.error f)
  tryCatch := recover

instance : MonadStateOf Scene Act where
  get := .look fun s => .done (.ok s)
  set s := .change (fun _ => s) (.done (.ok ()))
  modifyGet f := .look fun s => .change (fun _ => (f s).2) (.done (.ok (f s).1))

def emit (e : Event) : Act Unit := .say e (.done (.ok ()))

def note (speaker : Speaker) (n : Notice) : Act Unit := emit (.noted speaker n)

def ofTime (result : Except TimeError α) : Act α := ofExcept (result.mapError .time)

def now : Act Instant := .clock fun t => .done (.ok t)

def hold : Act Unit := .await .done

def monotonic : Act Binary64 := do return (← get).monotonic

def advanceClock (seconds : Binary64) : Act Unit := do
  let t ← ofTime ((← now).addSeconds seconds)
  modify fun s => { s with now := t }

def setClock (t : Instant) : Act Unit := modify fun s => { s with now := t }

def advanceMonotonic (seconds : Binary64) : Act Unit :=
  modify fun s => { s with monotonic := s.monotonic + seconds }

def addFaults (a : Access) (fs : List Fault) : Act Unit :=
  modify fun s => { s with faults := fun b => if b = a then s.faults b ++ fs else s.faults b }

def nextFault (a : Access) : Act Fault := do
  match (← get).faults a with
  | [] => pure .pass
  | f :: fs =>
    modify fun s => { s with faults := fun b => if b = a then fs else s.faults b }
    pure f

/-- The action in one go: the clock stands still, and listeners come back at once. A `stretch` is the
action without these restrictions. -/
def play : Act α → Scene → Except Failure α × Scene
  | .done result, s => (result, s)
  | .look next, s => (next s).play s
  | .change f next, s => next.play (f s)
  | .say e next, s => next.play { s with events := e :: s.events }
  | .clock next, s => (next s.now).play s
  | .await next, s => (next (.ok ())).play s

inductive Halt (α : Type) where
  | ended (result : Except Failure α)
  | waiting (next : Except Failure Unit → Act α)

/-- The action until it stops. The clock shows these instants when it is read, one after the other, and
then stands still. -/
def stretch : Act α → List Instant → Scene → Halt α × Scene
  | .done result, _, s => (.ended result, s)
  | .look next, ts, s => (next s).stretch ts s
  | .change f next, ts, s => next.stretch ts (f s)
  | .say e next, ts, s => next.stretch ts { s with events := e :: s.events }
  | .clock next, ts, s => (next (ts.headD s.now)).stretch ts.tail { s with now := ts.headD s.now }
  | .await next, _, s => (.waiting next, s)

def isForward : Act α → List Instant → Scene → Bool
  | .done _, _, _ | .await _, _, _ => true
  | .look next, ts, s => (next s).isForward ts s
  | .change f next, ts, s => (f s).now.isSince s.now && next.isForward ts (f s)
  | .say e next, ts, s => next.isForward ts { s with events := e :: s.events }
  | .clock next, ts, s =>
    (ts.headD s.now).isSince s.now &&
      (next (ts.headD s.now)).isForward ts.tail { s with now := ts.headD s.now }

end Act

end KeyedBreaker
