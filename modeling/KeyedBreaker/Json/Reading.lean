import KeyedBreaker.Json.Token

namespace KeyedBreaker.Json

/-- An open container with what it holds so far, last first. An object also has the name of the
member whose value is awaited. -/
inductive Frame where
  | array (items : List Json)
  | object (members : List (String × Json)) (name : String)

inductive Awaits where
  | value
  | itemOrEnd
  | nameOrEnd
  | name
  | colon
  | commaOrEnd

inductive Partial where
  | unfinished (awaits : Awaits) (stack : List Frame)
  | finished (value : Json)

def supply (v : Json) : List Frame → Partial
  | [] => .finished v
  | .array items :: stack => .unfinished .commaOrEnd (.array (v :: items) :: stack)
  | .object members name :: stack => .unfinished .commaOrEnd (.object ((name, v) :: members) "" :: stack)

def begin (stack : List Frame) : Token → Option Partial
  | .openArray => some (.unfinished .itemOrEnd (.array [] :: stack))
  | .openObject => some (.unfinished .nameOrEnd (.object [] "" :: stack))
  | .value v => some (supply v stack)
  | _ => none

def nameMember (name : String) : List Frame → Option Partial
  | .object members _ :: stack => some (.unfinished .colon (.object members name :: stack))
  | _ => none

def finish : List Frame → Token → Option Partial
  | .array items :: stack, .closeArray => some (supply (.array items.reverse) stack)
  | .object members _ :: stack, .closeObject => some (supply (.object members.reverse) stack)
  | _, _ => none

def proceed : List Frame → Option Partial
  | .array items :: stack => some (.unfinished .value (.array items :: stack))
  | .object members name :: stack => some (.unfinished .name (.object members name :: stack))
  | [] => none

def takeToken (limit : Nat) : Partial → Token → Option Partial
  | .finished _, _ => none
  | .unfinished .value stack, t => begin stack t
  | .unfinished .itemOrEnd stack, t =>
    match t with
    | .closeArray => finish stack t
    | t => if stack.length ≤ limit then begin stack t else none
  | .unfinished .nameOrEnd stack, t =>
    match t with
    | .closeObject => finish stack t
    | .value (.text name) => if stack.length ≤ limit then nameMember name stack else none
    | _ => none
  | .unfinished .name stack, t =>
    match t with
    | .value (.text name) => nameMember name stack
    | _ => none
  | .unfinished .colon stack, t =>
    match t with
    | .colon => some (.unfinished .value stack)
    | _ => none
  | .unfinished .commaOrEnd stack, t =>
    match t with
    | .comma => proceed stack
    | t => finish stack t

def read? (limit : Nat) (text : String) : Option Json := do
  match ← (← tokens? text.toList).foldlM (takeToken limit) (.unfinished .value []) with
  | .finished v => some v
  | .unfinished .. => none

end KeyedBreaker.Json
