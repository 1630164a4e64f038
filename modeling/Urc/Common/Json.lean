import Mathlib.Data.Nat.Notation

/-! # JSON values -/

namespace Urc

/-- A `serde_json::Value`; the members of an object stand in the order in which the map gives
them. -/
inductive Json
  | null
  | bool (b : Bool)
  | number (text : String)
  | string (s : String)
  | array (items : List Json)
  | object (members : List (String × Json))

namespace Json

def get (key : String) : Json → Option Json
  | .object members => (members.find? (·.1 = key)).map (·.2)
  | _ => none

def asStr : Json → Option String
  | .string s => some s
  | _ => none

def asBool : Json → Option Bool
  | .bool b => some b
  | _ => none

def asArray : Json → Option (List Json)
  | .array items => some items
  | _ => none

def asObject : Json → Option (List (String × Json))
  | .object members => some members
  | _ => none

end Json

end Urc
