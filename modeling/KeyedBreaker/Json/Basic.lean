import KeyedBreaker.Binary64.Decimal

namespace KeyedBreaker

inductive Json where
  | null
  | bool (value : Bool)
  | int (value : Int)
  | real (value : Binary64)
  | text (value : String)
  | array (items : List Json)
  | object (members : List (String × Json))
  deriving BEq, Inhabited

namespace Json

/-- The value of a member; of several with one name, the last. -/
def member? (name : String) (members : List (String × Json)) : Option Json :=
  (members.reverse.find? (·.1 = name)).map (·.2)

def get? (name : String) : Json → Option Json
  | .object members => member? name members
  | _ => none

end Json

end KeyedBreaker
