import QueryGraph.Graph.Node
import QueryGraph.Render.Error

/-!
Back ends: what a rendering is made of, kind of node by kind of node. A back end never sees the
graph; it only puts together what became of the operands.
-/

namespace QueryGraph

/-- How expressions, of type `ε`, and operator calls, of type `κ`, are put together. -/
structure Backend (ε κ : Type) where
  constant : Constant → ε
  binary : Operator → ε → ε → ε
  lookup : ε → String → ε
  list : List ε → ε
  dict : List (String × ε) → ε
  table : ε → ε
  /-- A reference to a statement. Variables are references to their binding statements. -/
  reference : String → ε
  placeholder : ε
  call : String → String → List (String × ε) → κ
  pipeline : ε → List κ → ε
  conditional : ε → ε → ε → ε

/-- What became of a node. -/
inductive Rendered (ε κ : Type) where
  | value (value : ε)
  | call (call : κ)
  deriving Repr

namespace Backend

variable {ε κ : Type}

def entries (value : NodeId → Except RenderError ε) :
    List (String × NodeId) → Except RenderError (List (String × ε))
  | [] => .ok []
  | (key, id) :: rest => do
    let first ← value id
    let others ← entries value rest
    return (key, first) :: others

/-- Renders a node, given what its operands are as values and as calls. Operands are asked for
in order, and the first that is not as it should be decides the error. -/
def node (backend : Backend ε κ) (value : NodeId → Except RenderError ε)
    (call : NodeId → Except RenderError κ) : NodeKind → Except RenderError (Rendered ε κ)
  | .constant constant => return .value (backend.constant constant)
  | .binary left op right => do
    let left ← value left
    let right ← value right
    return .value (backend.binary op left right)
  | .lookup on key => do
    let on ← value on
    return .value (backend.lookup on key)
  | .list values => do
    let values ← values.mapM value
    return .value (backend.list values)
  | .dict values => do
    let values ← entries value values
    return .value (backend.dict values)
  | .table inner => do
    let inner ← value inner
    return .value (backend.table inner)
  | .variable name => return .value (backend.reference name)
  | .placeholder => return .value backend.placeholder
  | .call space name arguments => do
    let arguments ← entries value arguments
    return .call (backend.call space name arguments)
  | .pipeline base steps => do
    let base ← value base
    let steps ← steps.mapM call
    return .value (backend.pipeline base steps)
  | .conditional condition thenDo elseDo => do
    let condition ← value condition
    let thenDo ← value thenDo
    let elseDo ← value elseDo
    return .value (backend.conditional condition thenDo elseDo)

end Backend

end QueryGraph
