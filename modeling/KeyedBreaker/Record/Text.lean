import KeyedBreaker.Calendar.Written
import KeyedBreaker.Json.Reading
import KeyedBreaker.Json.Written
import KeyedBreaker.Record.Basic
import KeyedBreaker.Text.Numeral

namespace KeyedBreaker

namespace Instant

def toJson (t : Option Instant) : Json :=
  match t with
  | none => .null
  | some t => .text (String.ofList (t.written ['Z']))

def ofJson? : Json → Option (Option Instant)
  | .null => some none
  | .text s => (ofText? s).map some
  | .int n => (ofTimestamp? n).map some
  | .real x => (ofReal? x).map some
  | _ => none

end Instant

namespace Status

def ofJson? : Json → Option Status
  | .text s => ofName? s
  | _ => none

def optionOfJson? : Json → Option (Option Status)
  | .null => some none
  | v => (ofJson? v).map some

end Status

namespace Json

def toInt? : Json → Option Int
  | .int n => some n
  | .bool b => some (if b then 1 else 0)
  | .real x => x.toInt?.filter fun n => -2 ^ 63 < n ∧ n < 2 ^ 63
  | .text s => Text.int? s
  | _ => none

def member {α : Type} (members : List (String × Json)) (name : String) (default : α)
    (decode : Json → Option α) : Option α :=
  match member? name members with
  | none => some default
  | some v => decode v

end Json

namespace Record

def toJson (r : Record) : Json :=
  .object [("status", .text r.status.name), ("failure_count", .int r.failureCount),
    ("total_count", .int r.totalCount), ("success_count", .int r.successCount),
    ("close_at", Instant.toJson r.closeAt), ("reset_at", Instant.toJson r.resetAt),
    ("previous_status", (r.previousStatus.map fun s => Json.text s.name).getD .null),
    ("version", .int r.version)]

def ofMembers? (m : List (String × Json)) : Option Record := do
  let status ← Json.member m "status" .closed Status.ofJson?
  let failureCount ← Json.member m "failure_count" 0 Json.toInt?
  let totalCount ← Json.member m "total_count" 0 Json.toInt?
  let successCount ← Json.member m "success_count" 0 Json.toInt?
  let closeAt ← Json.member m "close_at" none Instant.ofJson?
  let resetAt ← Json.member m "reset_at" none Instant.ofJson?
  let previousStatus ← Json.member m "previous_status" none Status.optionOfJson?
  let version ← Json.member m "version" 0 Json.toInt?
  some { status, failureCount, totalCount, successCount, closeAt, resetAt, previousStatus, version }

def ofJson? : Json → Option Record
  | .object members => ofMembers? members
  | _ => none

def encode (r : Record) : String := String.ofList r.toJson.written

def nesting : Nat := 200

def decode? (text : String) : Option Record := (Json.read? nesting text).bind ofJson?

end Record

end KeyedBreaker
