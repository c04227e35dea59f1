import QueryGraph.Render.Extraction

namespace QueryGraph

/-- The back end for queries. -/
def Backend.tree : Backend Expr Call where
  constant := Expr.atom
  binary op left right := .ofOperator left op right
  lookup := Expr.lookup
  list := Expr.list
  dict entries := .dict (Entries.ofList entries)
  table := Expr.table
  reference := Expr.reference
  placeholder := Expr.placeholder
  call space name arguments :=
    { operand := none, space, name, arguments := Entries.ofList arguments }
  pipeline := Expr.pipeline
  conditional := Expr.conditional

/-- Renders roots as a query. -/
def Graph.serialize (graph : Graph) (roots : List NodeId) (bindings : Bindings)
    (options : Options) : Except RenderError Query := do
  let rendering ← graph.extract Backend.tree roots bindings options
  return ⟨rendering.statements, rendering.final⟩

end QueryGraph
