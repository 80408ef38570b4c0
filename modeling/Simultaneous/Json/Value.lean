import Simultaneous.Json.Number

/-!
JSON values. Numbers stay literals, and objects keep their members in order, repeated keys
included, so that whoever reads a value decides what is in range and what may repeat.
-/

namespace Simultaneous

/-- A JSON value. A string or key is missing if an escape in it denotes half of a surrogate pair. -/
inductive Json where
  | null
  | bool (b : Bool)
  | number (l : Json.Literal)
  | string (s : Option String)
  | array (items : List Json)
  | object (members : List (Option String × Json))

namespace Json

def real? : Json → Option Float
  | number l => l.real?
  | _ => none

def natural? : Json → Option Nat
  | number l => l.natural?
  | _ => none

def text? : Json → Option String
  | string s => s
  | _ => none

def bool? : Json → Option Bool
  | bool b => some b
  | _ => none

def items? : Json → Option (List Json)
  | array items => some items
  | _ => none

def members? : Json → Option (List (String × Json))
  | object members => members.mapM fun (key?, value) => key?.map (·, value)
  | _ => none

def member? (j : Json) (key : String) : Option Json :=
  j.members?.bind fun members => (members.find? (·.1 = key)).map (·.2)

end Json

end Simultaneous
