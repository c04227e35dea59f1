import QueryGraph.Graph.Node

namespace QueryGraph

/-- Why a variable has no constant. -/
inductive UnboundReason where
  | missing
  /-- What it was to be bound to instead of a constant. -/
  | notConstant (kind : String)
  deriving DecidableEq, Repr

def UnboundReason.describe : UnboundReason → String
  | missing => "no binding supplied"
  | notConstant kind => "bound to a " ++ kind ++ " instead of a constant"

/-- Where a placeholder shows up outside an operator call. -/
inductive EscapePlace where
  | topLevel (root : NodeId)
  | statement (name : String)
  deriving DecidableEq, Repr

def EscapePlace.describe : EscapePlace → String
  | topLevel root => "top-level expression " ++ root.describe
  | statement name => "statement '" ++ name ++ "'"

inductive RenderError where
  | placeholderEscape (place : EscapePlace)
  | unboundVariable (name : String) (reason : UnboundReason)
  | detachedCall (space name : String)
  | duplicateStatement (name : String)
  | unknownNode (id : NodeId)
  | notACall (id : NodeId)
  | invalidBindings (reason : String)
  | noRoots
  deriving DecidableEq, Repr

def RenderError.message : RenderError → String
  | placeholderEscape place =>
    "placeholder '@' escapes its operator call in " ++ place.describe
  | unboundVariable name reason =>
    "variable '$" ++ name ++ "' is unbound: " ++ reason.describe
  | detachedCall space name =>
    "operator call " ++ space ++ "." ++ name ++ " is used outside a pipeline"
  | duplicateStatement name => "statement '" ++ name ++ "' is defined twice"
  | unknownNode id => "node " ++ id.describe ++ " does not belong to this graph"
  | notACall id => "pipeline step " ++ id.describe ++ " is not an operator call"
  | invalidBindings reason => "invalid bindings: " ++ reason
  | noRoots => "nothing to render"

end QueryGraph
