/-!
JSON values.
-/

namespace QueryGraph

/-- A JSON value. Numbers are kept as they are written; the fields of an object keep their
order. -/
inductive Json where
  | null
  | bool (value : Bool)
  | number (literal : List Char)
  | string (text : String)
  | array (items : List Json)
  | object (fields : List (String × Json))
  deriving Repr

instance : Inhabited Json := ⟨.null⟩

namespace Json

def ofNat (n : Nat) : Json :=
  .number (Nat.toDigits 10 n)

/-- The field of an object; of fields with one name the last. -/
def field? (name : String) : Json → Option Json
  | .object fields => fields.reverse.lookup name
  | _ => none

end Json

end QueryGraph
