namespace KeyedBreaker

inductive FailureClass where
  | general
  | runtime
  | value
  | type
  | lookup
  | index
  | system
  | connection
  | connectionReset
  | timeout
  | arithmetic
  | zeroDivision
  | overflow
  | assertion
  | notImplemented
  | transient
  | response
  | group
  | breaker
  | circuitOpen
  | circuitIsolated
  | store
  | stale
  | cancelled
  | abort
  /-- A class of the user's own. -/
  | derived (name : String) (parent : FailureClass)
  deriving DecidableEq

namespace FailureClass

def all : List FailureClass :=
  [.general, .runtime, .value, .type, .lookup, .index, .system, .connection, .connectionReset,
    .timeout, .arithmetic, .zeroDivision, .overflow, .assertion, .notImplemented, .transient,
    .response, .group, .breaker, .circuitOpen, .circuitIsolated, .store, .stale, .cancelled, .abort]

def name : FailureClass → String
  | .general => "Exception"
  | .runtime => "RuntimeError"
  | .value => "ValueError"
  | .type => "TypeError"
  | .lookup => "LookupError"
  | .index => "IndexError"
  | .system => "OSError"
  | .connection => "ConnectionError"
  | .connectionReset => "ConnectionResetError"
  | .timeout => "TimeoutError"
  | .arithmetic => "ArithmeticError"
  | .zeroDivision => "ZeroDivisionError"
  | .overflow => "OverflowError"
  | .assertion => "AssertionError"
  | .notImplemented => "NotImplementedError"
  | .transient => "TransientError"
  | .response => "HttpError"
  | .group => "ExceptionGroup"
  | .breaker => "CircuitBreakerError"
  | .circuitOpen => "CircuitOpenError"
  | .circuitIsolated => "CircuitIsolatedError"
  | .store => "BreakerStoreError"
  | .stale => "StaleStateError"
  | .cancelled => "CancelledError"
  | .abort => "BaseAbort"
  | .derived name _ => name

def ofName? (name : String) : Option FailureClass := all.find? (·.name = name)

def parents : FailureClass → List FailureClass
  | .general | .cancelled | .abort => []
  | .runtime | .value | .type | .lookup | .system | .arithmetic | .assertion | .response | .group
  | .breaker => [.general]
  | .index => [.lookup]
  | .connection | .timeout => [.system]
  | .connectionReset => [.connection]
  | .zeroDivision | .overflow => [.arithmetic]
  | .notImplemented | .transient => [.runtime]
  | .circuitOpen | .circuitIsolated => [.breaker]
  | .store => [.breaker, .transient]
  | .stale => [.store]
  | .derived _ parent => [parent]

def lineage : Nat → FailureClass → List FailureClass
  | 0, c => [c]
  | n + 1, c => c :: c.parents.flatMap (lineage n)

def depth : FailureClass → Nat
  | .derived _ parent => parent.depth + 1
  | _ => 4

def isA (c d : FailureClass) : Bool := (lineage c.depth c).contains d

/-- An ordinary failure is an outcome of the work that raised it. -/
def isOrdinary (c : FailureClass) : Bool := c.isA .general

end FailureClass

end KeyedBreaker
