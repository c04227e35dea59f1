import QueryGraph.Graph.Walk
import QueryGraph.Render.Backend

/-!
One pass of a back end over a graph. Every node is rendered once, after its operands; all nodes
that use it see the same result.
-/

namespace QueryGraph

/-- What has become of the nodes rendered so far. -/
abbrev Results (ε κ : Type) := List (NodeId × Rendered ε κ)

/-- What is done with the rendering of a value before the nodes that use it see it. A state of
type `σ` is carried along. -/
abbrev Finish (ε σ : Type) := σ → Node → ε → Except RenderError (ε × σ)

/-- The state of a pass. -/
structure Traversal (ε κ σ : Type) where
  /-- The nodes that are rendered, in order. -/
  done : List Node
  results : Results ε κ
  state : σ

/-- Lets every rendering stand where it is. -/
def inline {ε : Type} : Finish ε Unit :=
  fun _ _ value => .ok (value, ())

namespace Graph

/-- The error of an id that is not that of a value of the graph. -/
def notAValue (graph : Graph) (id : NodeId) : RenderError :=
  match graph.find? id with
  | some ⟨_, _, .call space name _, _⟩ => .detachedCall space name
  | _ => .unknownNode id

/-- The error of an id that is not that of an operator call of the graph. -/
def notACall (graph : Graph) (id : NodeId) : RenderError :=
  match graph.find? id with
  | some _ => .notACall id
  | none => .unknownNode id

def checkValue (graph : Graph) (id : NodeId) : Except RenderError Unit :=
  match graph.find? id with
  | some node => if node.kind.isValue then .ok () else .error (graph.notAValue id)
  | none => .error (graph.notAValue id)

def checkCall (graph : Graph) (id : NodeId) : Except RenderError Unit :=
  match graph.find? id with
  | some node => if node.kind.isValue then .error (graph.notACall id) else .ok ()
  | none => .error (graph.notACall id)

end Graph

namespace Traversal

variable {ε κ σ : Type}

def start (state : σ) : Traversal ε κ σ :=
  ⟨[], [], state⟩

/-- What has become of a value, if it is rendered. -/
def cached (traversal : Traversal ε κ σ) (id : NodeId) : Option ε :=
  match traversal.results.lookup id with
  | some (.value value) => some value
  | _ => none

def cachedCall (traversal : Traversal ε κ σ) (id : NodeId) : Option κ :=
  match traversal.results.lookup id with
  | some (.call call) => some call
  | _ => none

def value (graph : Graph) (traversal : Traversal ε κ σ) (id : NodeId) : Except RenderError ε :=
  match traversal.cached id with
  | some value => .ok value
  | none => .error (graph.notAValue id)

def call (graph : Graph) (traversal : Traversal ε κ σ) (id : NodeId) : Except RenderError κ :=
  match traversal.cachedCall id with
  | some call => .ok call
  | none => .error (graph.notACall id)

/-- Renders a node whose operands are rendered. -/
def complete (backend : Backend ε κ) (finish : Finish ε σ) (graph : Graph)
    (traversal : Traversal ε κ σ) (node : Node) : Except RenderError (Traversal ε κ σ) := do
  let rendered ← backend.node (traversal.value graph) (traversal.call graph) node.kind
  match rendered with
  | .call call =>
    return { traversal with
      done := traversal.done ++ [node]
      results := (node.id, .call call) :: traversal.results }
  | .value value =>
    let (value, state) ← finish traversal.state node value
    return ⟨traversal.done ++ [node], (node.id, .value value) :: traversal.results, state⟩

/-- Renders the nodes on the way to `id` that are not rendered yet. -/
def advance (backend : Backend ε κ) (finish : Finish ε σ) (graph : Graph)
    (traversal : Traversal ε κ σ) (id : NodeId) : Except RenderError (Traversal ε κ σ) :=
  let ahead := (graph.walkTo traversal.done id).drop traversal.done.length
  ahead.foldlM (complete backend finish graph) traversal

/-- Renders a value. -/
def visit (backend : Backend ε κ) (finish : Finish ε σ) (graph : Graph)
    (traversal : Traversal ε κ σ) (id : NodeId) :
    Except RenderError (ε × Traversal ε κ σ) := do
  graph.checkValue id
  let traversal ← traversal.advance backend finish graph id
  let value ← traversal.value graph id
  return (value, traversal)

/-- Renders an operator call. -/
def visitCall (backend : Backend ε κ) (finish : Finish ε σ) (graph : Graph)
    (traversal : Traversal ε κ σ) (id : NodeId) :
    Except RenderError (κ × Traversal ε κ σ) := do
  graph.checkCall id
  let traversal ← traversal.advance backend finish graph id
  let call ← traversal.call graph id
  return (call, traversal)

end Traversal

end QueryGraph
