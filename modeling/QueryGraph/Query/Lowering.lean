import QueryGraph.Query

/-!
Lowering: every pipeline becomes the chain of nested calls that the engine evaluates, each step
taking the stage before it as its operand.
-/

namespace QueryGraph

mutual

def Expr.lower : Expr → Expr
  | .atom value => .atom value
  | .binary left op right => .binary left.lower op right.lower
  | .lookup on property => .lookup on.lower property
  | .list values => .list (lowerList values)
  | .dict values => .dict (lowerEntries values)
  | .table inner => .table inner.lower
  | .reference name => .reference name
  | .placeholder => .placeholder
  | .call call => .call call.lower
  | .pipeline base steps => chain base.lower (lowerCalls steps)
  | .conditional condition thenDo elseDo =>
    .conditional condition.lower thenDo.lower elseDo.lower
where
  /-- Feeds a stage through calls. An operand that a call brings along gives way to it. -/
  chain (stage : Expr) : List Call → Expr
    | [] => stage
    | call :: rest => chain (.call { call with operand := some stage }) rest

def lowerList : List Expr → List Expr
  | [] => []
  | expr :: rest => expr.lower :: lowerList rest

def lowerEntries : List (String × Expr) → List (String × Expr)
  | [] => []
  | (key, expr) :: rest => (key, expr.lower) :: lowerEntries rest

def lowerOperand : Option Expr → Option Expr
  | none => none
  | some expr => some expr.lower

def Call.lower : Call → Call
  | { operand, space, name, arguments } =>
    { operand := lowerOperand operand, space, name, arguments := lowerEntries arguments }

def lowerCalls : List Call → List Call
  | [] => []
  | call :: rest => call.lower :: lowerCalls rest

end

def Statement.lower (statement : Statement Expr) : Statement Expr :=
  ⟨statement.name, statement.body.lower⟩

def Query.lower (query : Query) : Query :=
  ⟨query.statements.map Statement.lower, query.final.lower⟩

end QueryGraph
