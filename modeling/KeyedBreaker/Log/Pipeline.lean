import KeyedBreaker.Log.Helper
import KeyedBreaker.Log.Template

namespace KeyedBreaker.Log

inductive Renderer where
  | json
  | console
  deriving DecidableEq

namespace Renderer

def name : Renderer → String
  | .json => "JSONRenderer"
  | .console => "ConsoleRenderer"

def select (json : Option Bool) (terminal : Bool) : Renderer :=
  if json.getD !terminal then .json else .console

end Renderer

structure Pipeline where
  threshold : Int
  renderer : Renderer
  /-- Fields that every line of the context has. -/
  context : Fields := []

inductive Origin where
  | structured (name : String)
  | own
  | standard (name : String)

inductive LineError where
  | reserved (e : ReservedField)
  | template (e : TemplateError)

structure Entry where
  origin : Origin
  method : Method
  event : String
  args : List Json := []
  bound : Fields := []
  fields : Fields := []

def override (below above : Fields) : Fields :=
  below.filter (fun field => !above.any (·.1 = field.1)) ++ above

namespace Entry

def event? (e : Entry) : Except LineError String := (fill e.event e.args).mapError .template

def marks (e : Entry) (event : String) : Fields :=
  let level := e.method.level.name.toList.map Char.toLower
  [("event", .text event), ("level", .text (String.ofList level)), ("timestamp", .text "T")]

end Entry

namespace Pipeline

def ofLevel? (level : String) (json : Option Bool) (terminal : Bool) (context : Fields) :
    Option Pipeline :=
  (Level.number? level).map fun threshold =>
    { threshold, renderer := Renderer.select json terminal, context }

/-- The line of an entry, or none below the level that passes. A standard logger drops an entry
whose arguments do not fit. -/
def line? (p : Pipeline) (e : Entry) : Except LineError (Option Fields) :=
  if e.method.level.number < p.threshold then .ok none
  else match e.origin with
    | .structured name => do
      let own := override e.bound e.fields
      .ok (override (override p.context own)
        (("logger", .text name) :: e.marks (← e.event?)))
    | .own => do
      let own := override e.bound e.fields
      let line := override (override p.context own) (e.marks (← e.event?))
      .ok (line.filter (·.1 ≠ "logger"))
    | .standard _ => do
      match e.fields.find? fun field => reservedNames.contains field.1 with
      | some field => .error (.reserved ⟨field.1⟩)
      | none =>
        let absent : Fields :=
          if e.method = .exception then [("exc_info", .array [.null, .null, .null])] else []
        match fill e.event e.args with
        | .ok event => .ok (some (override p.context (absent ++ e.marks event)))
        | .error _ => .ok none

end Pipeline

end KeyedBreaker.Log
