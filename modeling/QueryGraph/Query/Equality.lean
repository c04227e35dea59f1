import QueryGraph.Query

namespace QueryGraph

mutual

def Expr.equals : Expr → Expr → Bool
  | .atom a, .atom b => a.equals b
  | .binary left op right, .binary left' op' right' =>
    left.equals left' && op == op' && right.equals right'
  | .lookup on property, .lookup on' property' => on.equals on' && property == property'
  | .list values, .list values' => listEquals values values'
  | .dict values, .dict values' =>
    values.length == values'.length && entriesWithin values values'
  | .table inner, .table inner' => inner.equals inner'
  | .reference name, .reference name' => name == name'
  | .placeholder, .placeholder => true
  | .call call, .call call' => call.equals call'
  | .pipeline base steps, .pipeline base' steps' => base.equals base' && callsEqual steps steps'
  | .conditional condition thenDo elseDo, .conditional condition' thenDo' elseDo' =>
    condition.equals condition' && thenDo.equals thenDo' && elseDo.equals elseDo'
  | _, _ => false

def listEquals : List Expr → List Expr → Bool
  | [], [] => true
  | expr :: rest, expr' :: rest' => expr.equals expr' && listEquals rest rest'
  | _, _ => false

/-- Whether every key has an equal value in the other dictionary. -/
def entriesWithin : List (String × Expr) → List (String × Expr) → Bool
  | [], _ => true
  | (key, expr) :: rest, other =>
    (match other.lookup key with
      | some expr' => expr.equals expr'
      | none => false) && entriesWithin rest other

def operandEquals : Option Expr → Option Expr → Bool
  | none, none => true
  | some expr, some expr' => expr.equals expr'
  | _, _ => false

def Call.equals : Call → Call → Bool
  | { operand, space, name, arguments }, call =>
    operandEquals operand call.operand && space == call.space && name == call.name &&
      (arguments.length == call.arguments.length && entriesWithin arguments call.arguments)

def callsEqual : List Call → List Call → Bool
  | [], [] => true
  | call :: rest, call' :: rest' => call.equals call' && callsEqual rest rest'
  | _, _ => false

end

def Statement.equals (a b : Statement Expr) : Bool :=
  a.name == b.name && a.body.equals b.body

def statementsEqual : List (Statement Expr) → List (Statement Expr) → Bool
  | [], [] => true
  | statement :: rest, statement' :: rest' =>
    statement.equals statement' && statementsEqual rest rest'
  | _, _ => false

def Query.equals (a b : Query) : Bool :=
  statementsEqual a.statements b.statements && a.final.equals b.final

end QueryGraph
