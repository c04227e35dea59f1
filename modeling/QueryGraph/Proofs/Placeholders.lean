import QueryGraph.Proofs.Parts
import QueryGraph.Proofs.References
import QueryGraph.Proofs.Statements

namespace QueryGraph

open Extraction

theorem mem_openParts_valueOf {kind : NodeKind} {value : NodeId → Expr} {call : NodeId → Call}
    (steps : ∀ id ∈ kind.callOperands, (call id).operand = none) {part : Expr}
    (isOpen : part ∈ (Backend.tree.valueOf value call kind).openParts) :
    ∃ id ∈ kind.openOperands, value id = part := by
  cases kind with
  | constant | «variable» | placeholder | call => cases isOpen
  | dict entries =>
    obtain ⟨entry, listed, rfl⟩ := List.mem_map.1 isOpen
    obtain ⟨pair, member, rfl⟩ := List.mem_map.1 (Entries.mem_of_mem_ofList listed)
    exact ⟨pair.2, List.mem_map_of_mem member, rfl⟩
  | pipeline base ids =>
    rcases List.mem_cons.1 isOpen with rfl | isOpen
    · exact ⟨base, List.mem_singleton_self _, rfl⟩
    · obtain ⟨step, listed, given⟩ := List.mem_flatMap.1 isOpen
      obtain ⟨id, member, rfl⟩ := List.mem_map.1 listed
      rw [steps id member] at given
      cases given
  | list ids => exact List.mem_map.1 isOpen
  | table inner | lookup on key => exact (List.mem_map (f := value) (l := [_])).1 isOpen
  | binary left op right => exact (List.mem_map (f := value) (l := [left, right])).1 isOpen
  | conditional condition thenDo elseDo =>
    exact (List.mem_map (f := value) (l := [condition, thenDo, elseDo])).1 isOpen

theorem isPlaceholder_of_valueOf {kind : NodeKind} {value : NodeId → Expr}
    {call : NodeId → Call} (isValue : kind.isValue = true)
    (same : Backend.tree.valueOf value call kind = .placeholder) : kind = .placeholder := by
  cases kind with
  | placeholder => rfl
  | call => cases isValue
  | _ => cases same

namespace Graph

variable {graph : Graph} {plan : Plan}

theorem WellFormed.callImage_operand (wf : graph.WellFormed) {settle : Node → Expr → Expr}
    {node : Node} (inside : node ∈ graph.nodes) :
    (graph.callImage Backend.tree settle node.id).operand = none := by
  rw [wf.callImage_eq inside]
  cases node.kind <;> rfl

/-- What becomes of a node has a placeholder outside operator calls only if the node itself does,
as long as this holds of the operands. -/
theorem WellFormed.captures_of_body (wf : graph.WellFormed) {settle : Node → Expr → Expr}
    {node : Node} (inside : node ∈ graph.nodes) (isValue : node.kind.isValue = true)
    (operands : ∀ id ∈ node.kind.openOperands,
      (graph.image Backend.tree settle id).Escapes → graph.Captures id)
    (escapes : (graph.body Backend.tree settle node).Escapes) : graph.Captures node.id := by
  have steps : ∀ id ∈ node.kind.callOperands,
      (graph.callImage Backend.tree settle id).operand = none := by
    intro id isStep
    obtain ⟨step, stepInside, rfl, _⟩ := wf.calls node inside id isStep
    exact wf.callImage_operand stepInside
  rw [wf.captures_iff inside]
  obtain same | ⟨part, isOpen, path⟩ := Expr.escapes_iff.1 escapes
  · exact Or.inl (isPlaceholder_of_valueOf isValue same)
  · obtain ⟨id, isOperand, rfl⟩ := mem_openParts_valueOf steps isOpen
    exact Or.inr ⟨id, isOperand, operands id isOperand path⟩

theorem WellFormed.captures_of_image (wf : graph.WellFormed) (plan : Plan) {node : Node}
    (inside : node ∈ graph.nodes) (isValue : node.kind.isValue = true)
    (escapes : (graph.image Backend.tree (plan.settle Backend.tree) node.id).Escapes) :
    graph.Captures node.id := by
  -- An operator call has no image as a value, so the induction is over the values only.
  refine wf.induction (motive := fun id => (∃ node ∈ graph.nodes, node.id = id ∧
    node.kind.isValue = true) → (graph.image Backend.tree (plan.settle Backend.tree) id).Escapes →
      graph.Captures id) ?_ inside ⟨node, inside, rfl, isValue⟩ escapes
  rintro node inside ih ⟨other, otherInside, same, isValue⟩ escapes
  cases wf.eq_of_id otherInside inside same
  rw [wf.image_eq inside, Plan.settle] at escapes
  split at escapes
  · exact absurd escapes (Expr.not_escapes_of_closed (by rintro ⟨⟩) rfl)
  · refine wf.captures_of_body inside isValue (fun id isOpen => ?_) escapes
    have isOperand := NodeKind.mem_operands_of_mem_openOperands isOpen
    rw [NodeKind.openOperands_eq isValue] at isOpen
    exact ih id isOperand (wf.values _ inside id isOpen)

theorem WellFormed.captures_of_statement (wf : graph.WellFormed) (plan : Plan) {node : Node}
    (inside : node ∈ graph.nodes) (isValue : node.kind.isValue = true)
    (escapes : (statementOf Backend.tree graph plan node).body.Escapes) :
    graph.Captures node.id := by
  refine wf.captures_of_body inside isValue (fun id isOpen => ?_) escapes
  rw [NodeKind.openOperands_eq isValue] at isOpen
  obtain ⟨operand, operandInside, rfl, operandIsValue⟩ := wf.values node inside id isOpen
  exact wf.captures_of_image plan operandInside operandIsValue

variable {rest : List NodeId} {last : NodeId} {bindings : Bindings} {options : Options}
  {outline : Outline}

theorem Outlines.not_captures_hoisted
    (outlines : graph.Outlines rest last bindings options outline) (wf : graph.WellFormed)
    {node : Node} (isHoisted : node ∈ outline.hoisted) : ¬ graph.Captures node.id := by
  rcases (outlines.mem_hoisted wf).1 isHoisted with becomes | ⟨_, isRoot, _⟩
  · exact becomes.free
  · exact outlines.not_captures_root wf (List.mem_append_left _ isRoot)

/-- A query has no placeholder outside the arguments of operator calls, neither in the body of a
statement nor in the final expression. -/
theorem Built.placeholders_enclosed (built : graph.Built) {roots : List NodeId} {query : Query}
    (serialized : graph.serialize roots bindings options = .ok query) :
    (∀ statement ∈ query.statements, ¬ statement.body.Escapes) ∧ ¬ query.final.Escapes := by
  have wf := built.wellFormed
  obtain ⟨rendering, rendered, h⟩ := Outcome.bind_eq_ok.1 serialized
  cases h
  obtain ⟨rest, last, rfl⟩ := exists_last_of_extract rendered
  rw [wf.extract_eq] at rendered
  obtain ⟨outline, h, rfl⟩ := Outcome.map_eq_ok.1 rendered
  have outlines := wf.outline_ok h
  constructor
  · intro statement member escapes
    rcases List.mem_append.1 member with member | member
    · obtain ⟨entry, _, rfl⟩ := List.mem_map.1 member
      exact absurd escapes (Expr.not_escapes_of_closed (by rintro ⟨⟩) rfl)
    · obtain ⟨node, isHoisted, rfl⟩ := List.mem_map.1 member
      have inside := (wf.mem_reach.1 (outlines.reached node isHoisted)).1
      exact outlines.not_captures_hoisted wf isHoisted (wf.captures_of_statement outline.plan inside
        (outlines.admitted.isValue isHoisted) escapes)
  · intro escapes
    obtain ⟨node, inside, rfl, isValue, _⟩ := outlines.renderable last (by simp)
    exact outlines.not_captures_root wf (by simp)
      (wf.captures_of_image outline.plan inside isValue escapes)

theorem sample_placeholders_enclosed : ∃ query : Query,
    sample.serialize [7, 9] (.ofList [("rows", .bool true)]) .standard = .ok query ∧
    (∀ statement ∈ query.statements, ¬ statement.body.Escapes) ∧ ¬ query.final.Escapes :=
  have ⟨query, serialized⟩ : ∃ query, sample.serialize [7, 9]
      (.ofList [("rows", .bool true)]) .standard = .ok query := ⟨_, rfl⟩
  ⟨query, serialized, built_sample.placeholders_enclosed serialized⟩

end Graph

end QueryGraph
