import QueryGraph.Graph.Node

/-!
Expression graphs: nodes in the order of their creation, every operand older than the nodes that
use it.
-/

namespace QueryGraph

structure Graph where
  nodes : List Node
  deriving Repr, Inhabited

namespace Graph

def find? (graph : Graph) (id : NodeId) : Option Node :=
  graph.nodes.find? fun node => node.id == id

/-- The nodes that no node uses, in order, but for those that mean nothing by themselves. -/
def roots (graph : Graph) : List NodeId :=
  (graph.nodes.filter fun node => node.fanOut == 0 && node.kind.isNameable).map (·.id)

end Graph

end QueryGraph
