import KeyedBreaker.Json.Basic
import KeyedBreaker.Log.Level

namespace KeyedBreaker.Log

abbrev Fields := List (String × Json)

inductive Logger where
  | structured
  | standard (name : String) (threshold : Int)
  | adapter (name : String) (threshold : Int) (extra : Option Fields)

inductive Emission where
  | entry (method : Method) (event : String) (fields : Fields)
  | record (name : String) (level : Level) (message : String) (extra : Fields) (hasException : Bool)

structure ReservedField where
  name : String

namespace ReservedField

def message (e : ReservedField) : String := "Attempt to overwrite '" ++ e.name ++ "' in LogRecord"

end ReservedField

/-- The attributes that a record has before any field is added, and the two that formatting adds. From
version 3.12 of the interpreter on there is `taskName` too; here it is 3.11. -/
def reservedNames : List String :=
  ["name", "msg", "args", "levelname", "levelno", "pathname", "filename", "module", "exc_info",
    "exc_text", "stack_info", "lineno", "funcName", "created", "msecs", "relativeCreated", "thread",
    "threadName", "processName", "process", "message", "asctime"]

namespace Logger

def standardRecord (name : String) (threshold : Int) (method : Method) (message : String)
    (extra : Fields) : Except ReservedField (List Emission) :=
  if method.level.number < threshold then .ok []
  else match extra.find? fun field => reservedNames.contains field.1 with
    | some field => .error ⟨field.1⟩
    | none => .ok [.record name method.level message extra (method = .exception)]

def log (l : Logger) (method : Method) (event : String) (fields : Fields) :
    Except ReservedField (List Emission) :=
  match l with
  | .structured => .ok [.entry method event fields]
  | .standard name threshold => standardRecord name threshold method event fields
  | .adapter name threshold extra =>
    standardRecord name threshold method event (extra.getD [])

end Logger

end KeyedBreaker.Log
