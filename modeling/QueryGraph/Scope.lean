import QueryGraph.Graph.Builder
import QueryGraph.Render.Text
import QueryGraph.Render.Tree

/-!
A scope is a builder whose top-level expressions are rendered together when it closes.
-/

namespace QueryGraph

/-- A thread of the program. -/
abbrev Thread :=
  Nat

structure Scope where
  builder : Builder
  options : Options
  /-- Where it was opened; it is used on no other thread. -/
  thread : Thread
  deriving Repr, Inhabited

/-- Why closing a scope yields nothing. -/
inductive ScopeError where
  | build (error : BuildError)
  | render (error : RenderError)
  deriving DecidableEq, Repr

namespace Scope

/-- A scope without nodes. With a registry the options are the standard ones. -/
def empty (registry : Option Registry) (options : Options) (thread : Thread) : Scope :=
  ⟨.empty registry, if registry.isSome then .standard else options, thread⟩

/-- The top-level expressions: the nodes that no node uses. -/
def roots (scope : Scope) : Except ScopeError (List NodeId) :=
  let roots := scope.builder.graph.roots
  if roots.isEmpty then .error (.build .emptyScope) else .ok roots

/-- The top-level expressions as a query. -/
def execute (scope : Scope) (bindings : Bindings) : Except ScopeError Query := do
  let roots ← scope.roots
  (scope.builder.finish.serialize roots bindings scope.options).mapError .render

/-- The top-level expressions as text. -/
def print (scope : Scope) (bindings : Bindings) : Except ScopeError String := do
  let roots ← scope.roots
  (scope.builder.finish.print roots bindings scope.options).mapError .render

end Scope

end QueryGraph
