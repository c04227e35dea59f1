import QueryGraph.Number.Double

namespace QueryGraph

open QueryGraph.Number

inductive Constant where
  | int (value : Int64)
  | double (value : Double)
  | bool (value : Bool)
  | string (value : String)
  deriving DecidableEq, Repr, Inhabited

namespace Constant

/-- Equality as numbers for doubles, plain equality otherwise. -/
def equals : Constant → Constant → Bool
  | .int a, .int b => a == b
  | .double a, .double b => a.equals b
  | .bool a, .bool b => a == b
  | .string a, .string b => a == b
  | _, _ => false

end Constant

end QueryGraph
