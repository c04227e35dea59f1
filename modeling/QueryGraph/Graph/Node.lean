import QueryGraph.Constant
import QueryGraph.Entries
import QueryGraph.Operator
import QueryGraph.Text.Hex

namespace QueryGraph

abbrev NodeId := Nat

/-- An id as labels and messages show it: eight hexadecimal digits or more. -/
def NodeId.describe (id : NodeId) : String :=
  String.ofList (Text.hexPadded 8 id)

inductive NodeKind where
  | constant (value : Constant)
  | binary (left : NodeId) (op : Operator) (right : NodeId)
  /-- Field access with a constant key. -/
  | lookup (on : NodeId) (key : String)
  | list (values : List NodeId)
  | dict (values : Entries NodeId)
  /-- A table made of a list of rows. -/
  | table (inner : NodeId)
  /-- A free variable, bound to a constant when the graph is rendered. -/
  | variable (name : String)
  /-- The current row inside an operator call, written `@`. -/
  | placeholder
  /-- An operator call, which is only of use as a step of a pipeline. -/
  | call (space name : String) (arguments : Entries NodeId)
  /-- A base piped through operator calls, in order. -/
  | pipeline (base : NodeId) (steps : List NodeId)
  | conditional (condition thenDo elseDo : NodeId)
  deriving DecidableEq, Repr

namespace NodeKind

/-- The operands in order. A node that is used twice is listed twice. -/
def operands : NodeKind → List NodeId
  | .constant _ | .variable _ | .placeholder => []
  | .binary left _ right => [left, right]
  | .lookup on _ => [on]
  | .list values => values
  | .dict values => Entries.values values
  | .table inner => [inner]
  | .call _ _ arguments => Entries.values arguments
  | .pipeline base steps => base :: steps
  | .conditional condition thenDo elseDo => [condition, thenDo, elseDo]

/-- The operands whose placeholders are the node's own. The placeholders in the arguments of an
operator call belong to the call. -/
def openOperands : NodeKind → List NodeId
  | .call _ _ _ => []
  | .pipeline base _ => [base]
  | kind => kind.operands

def describe : NodeKind → String
  | .constant _ => "constant"
  | .binary _ _ _ => "binary"
  | .lookup _ _ => "lookup"
  | .list _ => "list"
  | .dict _ => "dict"
  | .table _ => "table"
  | .variable _ => "var"
  | .placeholder => "placeholder"
  | .call _ _ _ => "opcall"
  | .pipeline _ _ => "pipeline"
  | .conditional _ _ _ => "conditional"

/-- Whether the node may stand where an expression is expected. -/
def isValue : NodeKind → Bool
  | .call _ _ _ => false
  | _ => true

/-- Whether the node may become a statement under a name of its own. -/
def isNameable : NodeKind → Bool
  | .variable _ | .placeholder | .call _ _ _ => false
  | _ => true

end NodeKind

structure Node where
  id : NodeId
  /-- The statement name that was asked for, if any. -/
  name : Option String
  kind : NodeKind
  /-- How many distinct nodes have this one as an operand. -/
  fanOut : Nat
  deriving DecidableEq, Repr

end QueryGraph
