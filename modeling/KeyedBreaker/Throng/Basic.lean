import KeyedBreaker.Task.Basic

namespace KeyedBreaker

/-- What is asked of breakers. Functions are left to whoever lets time pass and parties go on. -/
inductive Demand where
  | call (b : Breaker) (key : String)
  | force (b : Breaker) (key : String) (target : Status) (attempt : Nat)

namespace Demand

def breaker : Demand → Breaker
  | .call b _ | .force b .. => b

def key : Demand → String
  | .call _ key | .force _ key .. => key

def again : Demand → Demand
  | .call b key => .call b key
  | .force b key target attempt => .force b key target (attempt + 1)

end Demand

inductive Upshot where
  | running (o : Breaker.Opening)
  | again
  | answered (a : Answer)

namespace Breaker

/-- One attempt to force a key into a status, and what follows it. -/
def enforce (b : Breaker) (key : String) (target : Status) (attempt : Nat) : Act Upshot := do
  match ← observing (b.overwriteOnce key target) with
  | .ok (previous, stored) =>
    b.confirm key target previous
    pure (.answered (.record (some stored)))
  | .error f =>
    if f.isA .stale && attempt < b.policy.attempts then
      b.backOff key target attempt
      pure .again
    else throw f

def Stage.upshot : Stage → Upshot
  | .running o => .running o
  | .ended v => .answered (.value v)

end Breaker

namespace Demand

def begin : Demand → Act Upshot
  | .call b key => Breaker.Stage.upshot <$> b.enterCall key {}
  | .force b key target attempt => b.enforce key target attempt

end Demand

inductive Standing where
  /-- Has not got the lock of its key, or pauses before its next attempt. -/
  | outside
  /-- Waits for a listener. -/
  | waiting (next : Except Failure Unit → Act Upshot)
  | working (o : Breaker.Opening)
  | over (result : Except Failure Answer)

structure Party where
  demand : Demand
  standing : Standing := .outside
  /-- Its function has been started. -/
  worked : Bool := false

/-- What lets a party go on: the key is free, a listener comes back, or a function ends. -/
inductive Cue where
  | enter
  | answer (r : Except Failure Unit)
  | conclude (result : Except Failure Json)

namespace Party

/-- An overwrite has given the lock back when it waits. -/
def holds (key : String) (p : Party) : Bool :=
  match p.demand, p.standing with
  | .call _ k, .waiting _ | .call _ k, .working _ => k = key
  | _, _ => false

def act? (p : Party) : Cue → Option (Act Upshot)
  | .enter =>
    match p.standing with
    | .outside => some p.demand.begin
    | _ => none
  | .answer r =>
    match p.standing with
    | .waiting next => some (next r)
    | _ => none
  | .conclude result =>
    match p.demand, p.standing with
    | .call b key, .working o => some ((.answered ∘ .value) <$> b.conclude key o result)
    | _, _ => none

def stop (p : Party) : Act.Halt Upshot → Party
  | .waiting next => { p with standing := .waiting next }
  | .ended (.ok (.running o)) => { p with standing := .working o, worked := true }
  | .ended (.ok .again) => { p with demand := p.demand.again, standing := .outside }
  | .ended (.ok (.answered a)) => { p with standing := .over (.ok a) }
  | .ended (.error f) => { p with standing := .over (.error f) }

end Party

/-- Parties that go on in any order: listeners may keep them waiting, and the clock may tick whenever
it is read. -/
structure Throng where
  scene : Scene
  parties : List Party := []

namespace Throng

inductive Move where
  | join (e : Demand)
  /-- The clock shows these instants meanwhile. -/
  | go (i : Nat) (cue : Cue) (readings : List Instant)
  /-- A party is cancelled before it gets the lock, or in its pause. -/
  | quit (i : Nat)
  | pass (t : Instant) (monotonic : Binary64)

def isFree (key : String) (s : Throng) : Bool :=
  !s.scene.store.hasLocks || s.parties.all fun p => !p.holds key

def deed? (s : Throng) (p : Party) (cue : Cue) : Option (Act Upshot) :=
  match cue with
  | .enter => if s.isFree p.demand.key then p.act? cue else none
  | _ => p.act? cue

def goOn (s : Throng) (i : Nat) (p : Party) (a : Act Upshot) (readings : List Instant) : Throng :=
  let (halt, scene) := a.stretch readings s.scene
  { scene, parties := s.parties.set i (p.stop halt) }

def move (s : Throng) : Move → Throng
  | .join e => { s with parties := s.parties ++ [{ demand := e }] }
  | .go i cue readings =>
    match s.parties[i]? with
    | none => s
    | some p =>
      match s.deed? p cue with
      | none => s
      | some a => s.goOn i p a readings
  | .quit i =>
    match s.parties[i]? with
    | none => s
    | some p =>
      match p.standing with
      | .outside =>
        { s with parties := s.parties.set i { p with standing := .over (.error .cancellation) } }
      | _ => s
  | .pass t monotonic => { s with scene := { s.scene with now := t, monotonic } }

def after (s : Throng) (ms : List Move) : Throng := ms.foldl move s

def isForward (s : Throng) : Move → Bool
  | .join _ | .quit _ => true
  | .go i cue readings =>
    match s.parties[i]?.bind (s.deed? · cue) with
    | none => true
    | some a => a.isForward readings s.scene
  | .pass t _ => t.isSince s.scene.now

end Throng

end KeyedBreaker
