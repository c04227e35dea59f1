import QueryGraph.Constant
import QueryGraph.Entries
import QueryGraph.Operator

/-!
Queries as the engine receives them: statements that name expressions, then a final expression
that may refer to them.
-/

namespace QueryGraph

mutual

/-- An expression of a query. -/
inductive Expr where
  | atom (value : Constant)
  | binary (left : Expr) (op : String) (right : Expr)
  /-- Field access with a constant key. -/
  | lookup (on : Expr) (property : String)
  | list (values : List Expr)
  | dict (values : List (String × Expr))
  /-- A table made of a list of rows. -/
  | table (inner : Expr)
  /-- A reference to a statement. -/
  | reference (name : String)
  /-- The current row inside an operator call, written `@`. -/
  | placeholder
  | call (call : Call)
  /-- A base piped through operator calls, in order. -/
  | pipeline (base : Expr) (steps : List Call)
  | conditional (condition thenDo elseDo : Expr)

/-- An operator call. It has no operand while it is a step of a pipeline. -/
structure Call where
  operand : Option Expr
  space : String
  name : String
  arguments : List (String × Expr)

end

deriving instance Repr for Expr, Call

instance : Inhabited Expr := ⟨.placeholder⟩

/-- An expression, in some form, under a name. -/
structure Statement (ε : Type) where
  name : String
  body : ε
  deriving Repr, Inhabited

/-- Statements in dependency order, then the final expression. -/
structure Query where
  statements : List (Statement Expr)
  final : Expr
  deriving Repr, Inhabited

namespace Expr

def ofOperator (left : Expr) (op : Operator) (right : Expr) : Expr :=
  .binary left op.symbol right

end Expr

/-- A query of one expression and no statements. -/
def Query.ofExpr (expr : Expr) : Query :=
  ⟨[], expr⟩

end QueryGraph
