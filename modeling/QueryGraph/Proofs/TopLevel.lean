import Mathlib.Data.Set.Finite.Lemmas
import QueryGraph.Proofs.Builders
import QueryGraph.Proofs.Failures
import QueryGraph.Proofs.FanOut
import QueryGraph.Proofs.Inlining

namespace QueryGraph

namespace Graph

variable {graph : Graph} {next : NodeId}

/-- Whether no node of the graph has the id among its operands. -/
def Unused (graph : Graph) (id : NodeId) : Prop :=
  ∀ user ∈ graph.nodes, id ∉ user.kind.operands

/-- Whether a node means something by itself and is part of nothing else. -/
def TopLevel (graph : Graph) (node : Node) : Prop :=
  node.kind.isNameable = true ∧ graph.Unused node.id

instance (graph : Graph) (node : Node) : Decidable (graph.TopLevel node) :=
  inferInstanceAs (Decidable (node.kind.isNameable = true ∧
    ∀ user ∈ graph.nodes, node.id ∉ user.kind.operands))

theorem Counted.fanOut_eq_zero_iff (counted : graph.Counted next) {node : Node}
    (inside : node ∈ graph.nodes) : node.fanOut = 0 ↔ graph.Unused node.id := by
  rw [counted.fanOut node inside, List.length_eq_zero_iff, users, List.filter_eq_nil_iff]
  simp [Unused]

theorem Counted.roots_eq (counted : graph.Counted next) :
    graph.roots = (graph.nodes.filter fun node => decide (graph.TopLevel node)).map (·.id) := by
  unfold roots
  congr 1
  apply List.filter_congr
  intro node inside
  rw [Bool.eq_iff_iff, Bool.and_eq_true, beq_iff_eq, decide_eq_true_iff,
    counted.fanOut_eq_zero_iff inside]
  exact and_comm

theorem Counted.mem_roots (counted : graph.Counted next) {id : NodeId} :
    id ∈ graph.roots ↔ ∃ node ∈ graph.nodes, graph.TopLevel node ∧ node.id = id := by
  simp only [counted.roots_eq, List.mem_map, List.mem_filter, decide_eq_true_iff, and_assoc]

theorem Reaches.eq_or_composed {source target : NodeId} (path : graph.Reaches source target) :
    source = target ∨ ∃ node, graph.find? source = some node ∧ node.kind.operands ≠ [] := by
  cases path with
  | refl => exact Or.inl rfl
  | step found isOperand _ => exact Or.inr ⟨_, found, List.ne_nil_of_mem isOperand⟩

theorem Reaches.eq_of_unused {source target : NodeId} (path : graph.Reaches source target)
    (unused : graph.Unused target) : source = target := by
  induction path with
  | refl => rfl
  | step found isOperand _ ih =>
    cases ih unused
    exact absurd isOperand (unused _ (mem_of_find? found).1)

/-- Of the nodes that lead to a node, the youngest is used by none. -/
theorem WellFormed.exists_unused_above (wf : graph.WellFormed) {node : Node}
    (inside : node ∈ graph.nodes) :
    ∃ top ∈ graph.nodes, graph.Unused top.id ∧ graph.Reaches top.id node.id := by
  have finite : {above | above ∈ graph.nodes ∧ graph.Reaches above.id node.id}.Finite :=
    (List.finite_toSet graph.nodes).subset fun _ above => above.1
  obtain ⟨top, ⟨topInside, path⟩, youngest⟩ :=
    Set.exists_max_image _ Node.id finite ⟨node, inside, .refl _⟩
  refine ⟨top, topInside, ?_, path⟩
  intro user userInside isOperand
  have above : graph.Reaches user.id node.id :=
    .step (wf.find?_eq_some.2 ⟨userInside, rfl⟩) isOperand path
  have older := wf.older user userInside top.id isOperand
  exact Nat.not_lt.2 (youngest user ⟨userInside, above⟩) older

theorem Counted.covered (counted : graph.Counted next) {node : Node}
    (inside : node ∈ graph.nodes) (isNameable : node.kind.isNameable = true) :
    graph.ReachedFrom graph.roots node.id ∨
      ∃ call ∈ graph.nodes, (∃ space name arguments, call.kind = .call space name arguments) ∧
        call.fanOut = 0 ∧ graph.Reaches call.id node.id := by
  have wf := counted.toWellFormed
  obtain ⟨top, topInside, unused, path⟩ := wf.exists_unused_above inside
  cases isValue : top.kind.isValue with
  | false =>
    have isCall := NodeKind.isValue_eq_false_iff.1 isValue
    have idle := (counted.fanOut_eq_zero_iff topInside).2 unused
    exact Or.inr ⟨top, topInside, isCall, idle, path⟩
  | true =>
    have topNameable : top.kind.isNameable = true := by
      rcases path.eq_or_composed with same | ⟨other, found, composed⟩
      · rwa [wf.eq_of_id topInside inside same]
      · obtain ⟨otherInside, same⟩ := mem_of_find? found
        rw [wf.eq_of_id otherInside topInside same] at composed
        exact NodeKind.isNameable_of_operands isValue composed
    exact Or.inl ⟨top.id, counted.mem_roots.2 ⟨top, topInside, ⟨topNameable, unused⟩, rfl⟩, path⟩

variable {roots : List NodeId} {bindings : Bindings} {options : Options} {error : RenderError}

theorem WellFormed.fails_of_serialize (wf : graph.WellFormed)
    (failed : graph.serialize roots bindings options = .error error) :
    graph.Fails roots bindings options error := by
  rcases List.eq_nil_or_concat roots with rfl | ⟨rest, last, rfl⟩
  · cases failed
    exact .noRoots rfl
  · rw [List.concat_eq_append, serialize, wf.extract_eq] at failed
    rcases Outcome.bind_eq_error.1 failed with failed | ⟨_, _, failed⟩
    · rw [List.concat_eq_append]
      exact wf.fails_of_outline (Outcome.map_eq_error.1 failed)
    · cases failed

/-- Whether an error says that there is nothing to render, or that it is not for rendering. -/
inductive BadRoot : RenderError → Prop where
  | noRoots : BadRoot .noRoots
  | unknownNode (id : NodeId) : BadRoot (.unknownNode id)
  | detachedCall (space name : String) : BadRoot (.detachedCall space name)
  | notACall (id : NodeId) : BadRoot (.notACall id)

theorem Counted.not_badRoot (counted : graph.Counted next) (nonempty : graph.roots ≠ [])
    (fails : graph.Fails graph.roots bindings options error) : ¬ BadRoot error := by
  have wf := counted.toWellFormed
  obtain ⟨noCall, unknown, detached⟩ := fails.origin
  intro bad
  cases bad with
  | noRoots =>
    cases fails with
    | noRoots empty => exact nonempty empty
    | root _ _ fault => cases fault
  | unknownNode id =>
    obtain ⟨isRoot, missing⟩ := unknown id rfl
    obtain ⟨node, inside, _, same⟩ := counted.mem_roots.1 isRoot
    exact missing node inside same
  | detachedCall space name =>
    obtain ⟨call, callInside, isRoot, arguments, isCall⟩ := detached space name rfl
    obtain ⟨node, inside, top, same⟩ := counted.mem_roots.1 isRoot
    have isNameable := top.1
    rw [wf.eq_of_id inside callInside same, isCall] at isNameable
    cases isNameable
  | notACall id => exact noCall id rfl

end Graph

namespace Scope

/-- Scopes that some course of a session leads to, whatever calls are made on them and elsewhere. -/
def Reached (scope : Scope) : Prop :=
  ∃ (steps : List Session.Step) (index : Nat),
    (Session.start.run steps).slots[index]? = some (.scope scope)

theorem Reached.builder {scope : Scope} (reached : scope.Reached) : scope.builder.Reached := by
  obtain ⟨steps, index, found⟩ := reached
  exact ⟨steps, index, by simp [Session.builder?, found, Slot.builder?]⟩

theorem roots_of_empty {scope : Scope} (empty : scope.builder.graph.roots = []) :
    scope.roots = .error (.build .emptyScope) := by
  simp [roots, empty]

theorem roots_of_nonempty {scope : Scope} (nonempty : scope.builder.graph.roots ≠ []) :
    scope.roots = .ok scope.builder.graph.roots := by
  simp [roots, nonempty]

theorem mapError_eq_render {α : Type} {outcome : Except RenderError α} {error : RenderError} :
    outcome.mapError ScopeError.render = .error (.render error) ↔ outcome = .error error := by
  cases outcome <;> simp [Except.mapError]

theorem mapError_ne_build {α : Type} {outcome : Except RenderError α} {error : BuildError} :
    outcome.mapError ScopeError.render ≠ .error (.build error) := by
  cases outcome <;> simp [Except.mapError]

/-- What is to come of closing a scope, where `render` is what is done with its roots. -/
structure Closes {α : Type} (scope : Scope) (render : List NodeId → Except RenderError α)
    (outcome : Except ScopeError α) : Prop where
  empty : outcome = .error (.build .emptyScope) ↔
    ∀ node ∈ scope.builder.graph.nodes, ¬ scope.builder.graph.TopLevel node
  renders : (∃ node ∈ scope.builder.graph.nodes, scope.builder.graph.TopLevel node) →
    outcome = (render scope.builder.finish.roots).mapError .render
  errors : ∀ error, outcome = .error (.render error) → ¬ Graph.BadRoot error

theorem closes_of_fails {α : Type} {scope : Scope} {next : NodeId} {bindings : Bindings}
    (counted : scope.builder.graph.Counted next) {render : List NodeId → Except RenderError α}
    (fails : ∀ error, render scope.builder.graph.roots = .error error →
      scope.builder.graph.Fails scope.builder.graph.roots bindings scope.options error) :
    scope.Closes render (scope.roots >>= fun roots => (render roots).mapError .render) := by
  by_cases empty : scope.builder.graph.roots = []
  · have noTop : ∀ node ∈ scope.builder.graph.nodes, ¬ scope.builder.graph.TopLevel node := by
      intro node inside top
      have isRoot := counted.mem_roots.2 ⟨node, inside, top, rfl⟩
      rw [empty] at isRoot
      cases isRoot
    rw [roots_of_empty empty, Outcome.error_bind]
    constructor
    · exact iff_of_true rfl noTop
    · rintro ⟨node, inside, top⟩
      exact absurd top (noTop node inside)
    · exact nofun
  · rw [roots_of_nonempty empty, Outcome.ok_bind]
    constructor
    · refine iff_of_false mapError_ne_build fun noTop => ?_
      obtain ⟨id, isRoot⟩ := List.exists_mem_of_ne_nil _ empty
      obtain ⟨node, inside, top, _⟩ := counted.mem_roots.1 isRoot
      exact noTop node inside top
    · exact fun _ => rfl
    · intro error failed
      exact counted.not_badRoot empty (fails error (mapError_eq_render.1 failed))

/-- What holds of a scope at any time. -/
structure Complete (scope : Scope) : Prop where
  covered : ∀ node ∈ scope.builder.graph.nodes, node.kind.isNameable = true →
    scope.builder.graph.ReachedFrom scope.builder.graph.roots node.id ∨
      ∃ call ∈ scope.builder.graph.nodes,
        (∃ space name arguments, call.kind = .call space name arguments) ∧ call.fanOut = 0 ∧
          scope.builder.graph.Reaches call.id node.id
  roots : scope.builder.graph.roots = (scope.builder.graph.nodes.filter fun node =>
    decide (scope.builder.graph.TopLevel node)).map (·.id)
  ascending : scope.builder.graph.roots.Pairwise (· < ·)
  apart : ∀ root ∈ scope.builder.graph.roots, ∀ other ∈ scope.builder.graph.roots,
    scope.builder.graph.Reaches other root → other = root
  execute : ∀ bindings, scope.Closes
    (fun roots => scope.builder.finish.serialize roots bindings scope.options)
    (scope.execute bindings)
  print : ∀ bindings, scope.Closes
    (fun roots => scope.builder.finish.print roots bindings scope.options)
    (scope.print bindings)

/-- Nothing that could be rendered is lost when a scope closes. -/
theorem Reached.complete {scope : Scope} (reached : scope.Reached) : scope.Complete := by
  obtain ⟨next, counted⟩ := Graph.counted_kept.reached reached.builder
  have wf := counted.toWellFormed
  constructor
  · exact fun node inside isNameable => counted.covered inside isNameable
  · exact counted.roots_eq
  · rw [counted.roots_eq]
    exact wf.ascending.sublist (List.filter_sublist.map _)
  · intro root isRoot other _ path
    obtain ⟨node, _, top, rfl⟩ := counted.mem_roots.1 isRoot
    exact path.eq_of_unused top.2
  · intro bindings
    exact closes_of_fails counted fun _ failed => wf.fails_of_serialize failed
  · intro bindings
    exact closes_of_fails counted fun _ failed =>
      wf.fails_of_serialize (Graph.print_eq_error.1 failed)

/-- A scope with two expressions at the top, and a third one that only an idle call looks at. A
value of the dictionary was displaced before it was made, so nothing uses that one either. -/
def sample : Scope where
  builder := ⟨⟨[
    ⟨1, none, .variable "rows", 1⟩,
    ⟨2, none, .constant (.int 5), 0⟩,
    ⟨3, none, .constant (.int 7), 1⟩,
    ⟨4, none, .list [3], 1⟩,
    ⟨5, none, .call "std" "take" [("count", 4)], 0⟩,
    ⟨6, none, .dict [("size", 1)], 0⟩]⟩, none⟩
  options := ⟨"q", true⟩
  thread := 0

theorem reached_sample : sample.Reached :=
  ⟨[.openScope none ⟨"q", true⟩, .make 0 (.variable "rows"), .make 0 (.constant (.int 5)),
    .make 0 (.constant (.int 7)), .make 0 (.list [3]),
    .make 0 (.call "std" "take" [("count", 4)]), .make 0 (.dict [("size", 2), ("size", 1)])],
    0, rfl⟩

theorem sample_complete : sample.Reached ∧ sample.Complete ∧
    sample.builder.graph.roots = [2, 6] ∧
    sample.execute .empty = .error (.render (.unboundVariable "rows" .missing)) :=
  ⟨reached_sample, reached_sample.complete, rfl, rfl⟩

end Scope

end QueryGraph
