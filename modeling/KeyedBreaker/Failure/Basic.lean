import KeyedBreaker.Calendar.Instant
import KeyedBreaker.Failure.Class
import KeyedBreaker.Text.Quoted

namespace KeyedBreaker

inductive Cause where
  | failure (cls : FailureClass)
  | undecodable
  deriving DecidableEq

inductive Failure where
  /-- Known by class and message alone. -/
  | plain (cls : FailureClass) (message : Option String)
  /-- A response with an unwanted status. -/
  | response (status : Int)
  | time (error : TimeError)
  /-- A quotient of counters beyond all finite numbers. -/
  | ratioRange
  | circuitOpen (key : String) (retryAfter : Binary64)
  | circuitIsolated (key : String)
  | store (key operation detail : String) (cause : Option Cause)
  | stale (key : String) (expected actual : Int)
  /-- Several failures raised together. -/
  | group (message : String) (members : List Failure)
  deriving Inhabited

namespace Cause

def name : Cause → String
  | .failure cls => cls.name
  | .undecodable => "ValidationError"

end Cause

namespace TimeError

def cls : TimeError → FailureClass
  | .mixedComparison | .mixedDifference => .type
  | .durationNaN => .value
  | .dateRange | .durationInfinite | .durationBeyondWord | .durationDays _ => .overflow

def message : TimeError → String
  | .mixedComparison => "can't compare offset-naive and offset-aware datetimes"
  | .mixedDifference => "can't subtract offset-naive and offset-aware datetimes"
  | .dateRange => "date value out of range"
  | .durationNaN => "cannot convert float NaN to integer"
  | .durationInfinite => "cannot convert float infinity to integer"
  | .durationBeyondWord => "Python int too large to convert to C int"
  | .durationDays days => "days=" ++ toString days ++ "; must have magnitude <= 999999999"

end TimeError

namespace Failure

def cls : Failure → FailureClass
  | .plain cls _ => cls
  | .response _ => .response
  | .time error => error.cls
  | .ratioRange => .overflow
  | .circuitOpen .. => .circuitOpen
  | .circuitIsolated _ => .circuitIsolated
  | .store .. => .store
  | .stale .. => .stale
  | .group .. => .group

def isA (f : Failure) (cls : FailureClass) : Bool := f.cls.isA cls

def isOrdinary (f : Failure) : Bool := f.cls.isOrdinary

/-- The versions that a conflict names. They are not known of a class of the user's own. -/
def versions : Failure → Int × Int
  | .stale _ expected actual => (expected, actual)
  | _ => (0, 0)

def storeMessage (key operation detail : String) : String :=
  "circuit_store_" ++ operation ++ "_failed: " ++ key ++ if detail = "" then "" else " " ++ detail

def staleDetail (expected actual : Int) : String :=
  "version=" ++ toString expected ++ " stored_version=" ++ toString actual

def groupMessage (message : String) (count : Nat) : String :=
  message ++ " (" ++ toString count ++ if count = 1 then " sub-exception)" else " sub-exceptions)"

def message : Failure → String
  | .plain _ message => message.getD ""
  | .response status => toString status
  | .time error => error.message
  | .ratioRange => "integer division result too large for a float"
  | .circuitOpen key retryAfter =>
    "circuit_open: " ++ key ++ " retry_after=" ++ retryAfter.generalText 6 ++ "s"
  | .circuitIsolated key => "circuit_isolated: " ++ key
  | .store key operation detail _ => storeMessage key operation detail
  | .stale key expected actual => storeMessage key "set" (staleDetail expected actual)
  | .group message members => groupMessage message members.length

mutual

def quoted : Failure → String
  | .plain cls none => cls.name ++ "()"
  | .response status => FailureClass.response.name ++ "(" ++ toString status ++ ")"
  | .group message members =>
    FailureClass.group.name ++ "(" ++ Text.quoted message ++ ", [" ++ quotedList members ++ "])"
  | f => f.cls.name ++ "(" ++ Text.quoted f.message ++ ")"

def quotedList : List Failure → String
  | [] => ""
  | [f] => f.quoted
  | f :: fs => f.quoted ++ ", " ++ quotedList fs

end

/-- Raised by a breaker for a store operation that failed in another way. -/
def storeFrom (key operation : String) (f : Failure) : Failure :=
  .store key operation f.quoted (some (.failure f.cls))

def cancellation : Failure := .plain .cancelled none

end Failure

end KeyedBreaker
