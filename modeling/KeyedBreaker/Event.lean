import KeyedBreaker.Json.Basic
import KeyedBreaker.Log.Level
import KeyedBreaker.Record.Basic

namespace KeyedBreaker

inductive Hook where
  | state
  | rejected
  | succeeded
  | failed
  deriving DecidableEq

namespace Hook

def all : List Hook := [.state, .rejected, .succeeded, .failed]

def name : Hook → String
  | .state => "state"
  | .rejected => "rejected"
  | .succeeded => "succeeded"
  | .failed => "failed"

def ofName? (name : String) : Option Hook := all.find? (·.name = name)

end Hook

inductive Occurrence where
  | transition (key : String) (old new : Status)
  | rejected (key : String) (status : Status)
  | succeeded (key : String) (elapsed : Binary64)
  | failed (key : String) (f : Failure) (elapsed : Binary64)

namespace Occurrence

def hook : Occurrence → Hook
  | .transition .. => .state
  | .rejected .. => .rejected
  | .succeeded .. => .succeeded
  | .failed .. => .failed

def key : Occurrence → String
  | .transition key .. | .rejected key _ | .succeeded key _ | .failed key .. => key

def ofFailure (key : String) (status : Status) (f : Failure) (elapsed : Binary64) : Occurrence :=
  if status.rejects then .rejected key status else .failed key f elapsed

end Occurrence

inductive Notice where
  | transition (key : String) (old new : Status)
  | listenerFailed (key : String) (hook : Hook)
  /-- The counters of one call are lost to a conflicting write. -/
  | writeConflict (key : String) (version stored : Int)
  | overwriteConflict (key : String) (target : Status) (attempt : Nat)
  | stateChanged (key : String) (old new : Status)
  | callRejected (key : String) (status : Status)
  | callFailed (key : String) (cls : FailureClass) (elapsed : Binary64)

namespace Notice

def event : Notice → String
  | .transition .. => "circuit_breaker_transition"
  | .listenerFailed .. => "circuit_breaker_listener_failed"
  | .writeConflict .. => "circuit_breaker_state_write_conflict"
  | .overwriteConflict .. => "circuit_breaker_overwrite_conflict"
  | .stateChanged .. => "circuit_breaker_state_changed"
  | .callRejected .. => "circuit_breaker_call_rejected"
  | .callFailed .. => "circuit_breaker_call_failed"

def method : Notice → Log.Method
  | .transition .. | .callRejected .. | .callFailed .. => .info
  | .listenerFailed .. => .exception
  | .writeConflict .. | .overwriteConflict .. => .warning
  | .stateChanged _ _ new => if new.rejects then .warning else .info

def transitionFields (key : String) (old new : Status) : List (String × Json) :=
  [("breaker_key", .text key), ("old_state", .text old.name), ("new_state", .text new.name)]

def fields : Notice → List (String × Json)
  | .transition key old new | .stateChanged key old new => transitionFields key old new
  | .listenerFailed _ hook => [("hook", .text hook.name)]
  | .writeConflict key version stored =>
    [("breaker_key", .text key), ("version", .int version), ("stored_version", .int stored)]
  | .overwriteConflict key target attempt =>
    [("breaker_key", .text key), ("target_state", .text target.name), ("attempt", .int attempt)]
  | .callRejected key status => [("breaker_key", .text key), ("state", .text status.name)]
  | .callFailed key cls elapsed =>
    [("breaker_key", .text key), ("error_type", .text cls.name),
      ("elapsed_seconds", .real (elapsed.roundPlaces 6))]

/-- What a listener that keeps a log writes about an occurrence; successes are too many. -/
def ofOccurrence? : Occurrence → Option Notice
  | .transition key old new => some (.stateChanged key old new)
  | .rejected key status => some (.callRejected key status)
  | .succeeded .. => none
  | .failed key f elapsed => some (.callFailed key f.cls elapsed)

end Notice

inductive Answer where
  | nothing
  | value (v : Json)
  | status (s : Status)
  | record (r : Option Record)
  | seconds (x : Binary64)
  | flag (b : Bool)

/-- Whose log an entry is in: a breaker's own, or that of one of its listeners. Both are numbered. -/
inductive Speaker where
  | breaker (number : Nat)
  | listener (breaker number : Nat)
  deriving DecidableEq

inductive Event where
  | storeRead (key : String)
  | storeWrite (key : String) (version : Int)
  | clientRead (name : String)
  | clientWrite (name : String)
  /-- A guarded function starts. -/
  | started (key : String)
  /-- The result of an operation that a guarded function made. -/
  | inner (result : Except Failure Answer)
  | noted (speaker : Speaker) (notice : Notice)
  | heard (breaker listener : Nat) (occurrence : Occurrence)
  | paused (seconds : Binary64)

end KeyedBreaker
