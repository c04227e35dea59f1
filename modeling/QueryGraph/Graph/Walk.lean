import QueryGraph.Graph

/-!
Walking a graph from its roots, operands first and from left to right, each node once; and what
one walk tells about the nodes on it.
-/

namespace QueryGraph.Graph

/-- Appends to `done` the nodes that are completed on a walk to `id`, in the order of their
completion: a node is complete when its operands are. Operands being older than the nodes that
use them, `depth` need not exceed the number of nodes. -/
def walk (graph : Graph) : Nat → List Node → NodeId → List Node
  | 0, done, _ => done
  | depth + 1, done, id =>
    if done.any fun node => node.id == id then done
    else match graph.find? id with
      | none => done
      | some node => node.kind.operands.foldl (walk graph depth) done ++ [node]

/-- Goes on with a walk, to the nodes below `id` that are not done. -/
def walkTo (graph : Graph) (done : List Node) (id : NodeId) : List Node :=
  graph.walk graph.nodes.length done id

/-- The nodes reachable from the roots, in the order of their completion. -/
def reach (graph : Graph) (roots : List NodeId) : List Node :=
  roots.foldl graph.walkTo []

/-- Whether a placeholder outside any operator call is part of a node, given which of its
operands have one. -/
def captures (capturing : List NodeId) : NodeKind → Bool
  | .placeholder => true
  | kind => kind.openOperands.any fun id => capturing.contains id

/-- The nodes on a walk that a placeholder outside any operator call is part of. -/
def capturing (done : List Node) : List NodeId :=
  done.foldl (fun found node => if captures found node.kind then node.id :: found else found) []

/-- Adds the name of a variable node to the names that are there, if it is new. -/
def meetVariable (names : List String) (node : Node) : List String :=
  match node.kind with
  | .variable name => if names.contains name then names else names ++ [name]
  | _ => names

/-- The names of the variables on a walk, in the order in which they are first met. -/
def freeVariables (done : List Node) : List String :=
  done.foldl meetVariable []

end QueryGraph.Graph
