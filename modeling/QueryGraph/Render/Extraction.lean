import QueryGraph.Bindings
import QueryGraph.Query
import QueryGraph.Render.Traversal

/-!
Rendering a graph into statements and a final expression.

A node that several nodes use, or that has a name, becomes a statement, and the nodes that use
it refer to the statement; every other node stays where it is used. Nodes that a placeholder is
part of cannot leave their operator call and stay in place in any case. Statements come in the
order in which a walk completes their nodes, so none refers to a later one; the constants of
the free variables come before all others.
-/

namespace QueryGraph

structure Options where
  /-- What stands before the id in the name of a statement that was not given one. -/
  labelPrefix : String
  /-- Whether bindings of variables that do not occur become statements too. -/
  bindUnreferenced : Bool
  deriving DecidableEq, Repr

namespace Options

def standard : Options :=
  ⟨"_", false⟩

instance : Inhabited Options := ⟨standard⟩

/-- The name of the statement of a node that was not given one. -/
def label (options : Options) (id : NodeId) : String :=
  options.labelPrefix ++ id.describe

end Options

/-- Statements and a final expression in the form that a back end gives them. -/
structure Rendering (ε : Type) where
  statements : List (Statement ε)
  final : ε
  deriving Repr

namespace Extraction

variable {ε κ : Type}

/-- The statements so far, and the nodes they were made of. -/
structure State (ε : Type) where
  statements : List (Statement ε)
  hoisted : List NodeId

/-- What is settled before the first node is rendered. -/
structure Plan where
  options : Options
  /-- Nodes that a placeholder is part of. -/
  capturing : List NodeId
  /-- Roots that become statements whatever their use. -/
  forced : List NodeId

def State.push (state : State ε) (statement : Statement ε) : Except RenderError (State ε) :=
  if state.statements.any fun other => other.name == statement.name then
    .error (.duplicateStatement statement.name)
  else .ok { state with statements := state.statements ++ [statement] }

/-- The name of the statement that a node becomes. -/
def statementName (options : Options) (node : Node) : String :=
  node.name.getD (options.label node.id)

/-- Makes a statement of a node; what is left in its place is a reference. -/
def hoist (backend : Backend ε κ) (plan : Plan) (state : State ε) (node : Node) (body : ε) :
    Except RenderError (ε × State ε) := do
  let name := statementName plan.options node
  let state ← state.push ⟨name, body⟩
  return (backend.reference name, { state with hoisted := node.id :: state.hoisted })

/-- Whether a node becomes a statement, placeholders permitting. -/
def Plan.wants (plan : Plan) (node : Node) : Bool :=
  node.kind.isNameable &&
    (decide (1 < node.fanOut) || node.name.isSome || plan.forced.contains node.id)

/-- Decides what becomes of a rendered node. -/
def finish (backend : Backend ε κ) (plan : Plan) : Finish ε (State ε) :=
  fun state node body =>
    if !plan.wants node then .ok (body, state)
    else if plan.capturing.contains node.id then
      match node.name with
      | some name => .error (.placeholderEscape (.statement name))
      | none => .ok (body, state)
    else hoist backend plan state node body

/-- Whether an id is that of a root that can be rendered. -/
def checkRoot (graph : Graph) (capturing : List NodeId) (root : NodeId) :
    Except RenderError Unit := do
  graph.checkValue root
  if capturing.contains root then throw (.placeholderEscape (.topLevel root))

def checkRoots (graph : Graph) (capturing : List NodeId) :
    List NodeId → Except RenderError Unit
  | [] => .ok ()
  | root :: rest => do
    checkRoot graph capturing root
    checkRoots graph capturing rest

/-- The statements of the free variables. -/
def boundVariables (backend : Backend ε κ) (bindings : Bindings) :
    List String → Except RenderError (List (Statement ε))
  | [] => .ok []
  | name :: rest =>
    match bindings.get? name with
    | none => .error (.unboundVariable name .missing)
    | some value => do
      let others ← boundVariables backend bindings rest
      return ⟨name, backend.constant value⟩ :: others

/-- The statements of the bindings of other variables. -/
def unreferenced (backend : Backend ε κ) (bindings : Bindings) (free : List String) :
    List (Statement ε) :=
  (bindings.entries.filter fun entry => !free.contains entry.1).map fun entry =>
    ⟨entry.1, backend.constant entry.2⟩

/-- Renders a root that is not the last, and sees to it that it becomes a statement. -/
def renderRoot (backend : Backend ε κ) (graph : Graph) (plan : Plan)
    (traversal : Traversal ε κ (State ε)) (root : NodeId) :
    Except RenderError (Traversal ε κ (State ε)) := do
  let (body, traversal) ← traversal.visit backend (finish backend plan) graph root
  match graph.find? root with
  | none => throw (.unknownNode root)
  | some node =>
    if traversal.state.hoisted.contains root then return traversal
    else
      let (_, state) ← hoist backend plan traversal.state node body
      return { traversal with state }

/-- Whether the last root is used by some node. -/
def isUsed (graph : Graph) (root : NodeId) : Bool :=
  ((graph.find? root).map fun node => decide (0 < node.fanOut)).getD false

end Extraction

open Extraction in
/-- Renders roots: all but the last become statements, the last is the final expression. A root
that another node uses is a statement before its first use, so the final expression may be a
reference itself. -/
def Graph.extract {ε κ : Type} (backend : Backend ε κ) (graph : Graph) (roots : List NodeId)
    (bindings : Bindings) (options : Options) : Except RenderError (Rendering ε) :=
  match roots.getLast? with
  | none => .error .noRoots
  | some last => do
    let rest := roots.dropLast
    let reach := graph.reach roots
    let capturing := Graph.capturing reach
    checkRoots graph capturing roots
    let forced := if !rest.isEmpty && isUsed graph last then rest ++ [last] else rest
    let plan : Plan := ⟨options, capturing, forced⟩
    let free := Graph.freeVariables reach
    let bound ← boundVariables backend bindings free
    let others := if options.bindUnreferenced then unreferenced backend bindings free else []
    let traversal ← rest.foldlM (renderRoot backend graph plan)
      (Traversal.start ⟨bound ++ others, []⟩)
    let (final, traversal) ← traversal.visit backend (finish backend plan) graph last
    return ⟨traversal.state.statements, final⟩

end QueryGraph
