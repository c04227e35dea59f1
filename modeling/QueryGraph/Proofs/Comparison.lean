import QueryGraph.Proofs.References

namespace QueryGraph

open Extraction

variable {ε κ ε' κ' : Type} {backend : Backend ε κ} {backend' : Backend ε' κ'}
  {onValue : ε → ε' → Prop} {onCall : κ → κ' → Prop}

/-- Whether two statements have one name and related bodies. -/
def Statement.Related (relation : ε → ε' → Prop) (statement : Statement ε)
    (statement' : Statement ε') : Prop :=
  statement.name = statement'.name ∧ relation statement.body statement'.body

structure Rendering.Related (relation : ε → ε' → Prop) (rendering : Rendering ε)
    (rendering' : Rendering ε') : Prop where
  statements : List.Forall₂ (Statement.Related relation) rendering.statements rendering'.statements
  final : relation rendering.final rendering'.final

namespace Graph

variable {graph : Graph} {roots rest : List NodeId} {last : NodeId} {bindings : Bindings}
  {options : Options} {outline : Outline}

/-- Whether what two back ends make of roots is related, piece by piece. -/
structure Agreement (graph : Graph) (roots : List NodeId) (bindings : Bindings)
    (options : Options) (backend : Backend ε κ) (backend' : Backend ε' κ')
    (onValue : ε → ε' → Prop) (onCall : κ → κ' → Prop) : Prop where
  nodes : ∀ node ∈ graph.reach roots, backend.Agree backend' onValue onCall node.kind
  references : ∀ node ∈ graph.nodes, onValue (backend.reference (statementName options node))
    (backend'.reference (statementName options node))
  constants : ∀ name value, bindings.get? name = some value →
    onValue (backend.constant value) (backend'.constant value)

theorem Agreement.settled
    (agreement : graph.Agreement roots bindings options backend backend' onValue onCall)
    {plan : Plan} (same : plan.options = options) {node : Node} (inside : node ∈ graph.nodes)
    {body : ε} {body' : ε'} (bodies : onValue body body') :
    onValue (plan.settle backend node body) (plan.settle backend' node body') := by
  unfold Plan.settle
  split
  · rw [same]
    exact agreement.references node inside
  · exact bodies

theorem Outlines.render_related
    (outlines : graph.Outlines rest last bindings options outline) (wf : graph.WellFormed)
    (agreement : graph.Agreement (rest ++ [last]) bindings options backend backend' onValue onCall) :
    (outline.render backend graph last).Related onValue (outline.render backend' graph last) := by
  have planned : outline.plan.options = options := congrArg Plan.options outlines.plan
  have below (node : Node) (member : node ∈ graph.reach (rest ++ [last])) :
      ∀ other ∈ graph.postorder node.id, backend.Agree backend' onValue onCall other.kind :=
    fun other met => agreement.nodes other (wf.mem_reach_below member met)
  constructor
  · refine List.rel_append (List.forall₂_map_map fun entry member => ?_)
      (List.forall₂_map_map fun node member => ?_)
    · exact ⟨rfl, agreement.constants entry.1 entry.2 (outlines.constants entry member)⟩
    · have reached := outlines.reached node member
      have inside := (wf.mem_reach.1 reached).1
      refine ⟨rfl, wf.body_agree _ inside (outlines.admitted.isValue member) (below node reached) ?_⟩
      intro id isOperand other met _ bodies
      obtain ⟨operand, operandInside, rfl⟩ := wf.operand inside isOperand
      exact agreement.settled planned ((wf.mem_postorder operandInside).1 met).1 bodies
  · obtain ⟨root, inside, rfl, isValue, _⟩ := outlines.renderable last (by simp)
    have reached : root ∈ graph.reach (rest ++ [root.id]) :=
      wf.mem_reach.2 ⟨inside, root.id, by simp, .refl _⟩
    refine (wf.images_agree _ inside (below root reached) ?_).value isValue
    intro other met _ bodies
    exact agreement.settled planned ((wf.mem_postorder inside).1 met).1 bodies

/-- What one back end renders the other one does, and the renderings are related. -/
theorem WellFormed.extract_related (wf : graph.WellFormed)
    (agreement : graph.Agreement roots bindings options backend backend' onValue onCall)
    {rendering : Rendering ε}
    (rendered : graph.extract backend roots bindings options = .ok rendering) : ∃ rendering',
      graph.extract backend' roots bindings options = .ok rendering' ∧
        rendering.Related onValue rendering' := by
  obtain ⟨rest, last, rfl⟩ := exists_last_of_extract rendered
  rw [wf.extract_eq] at rendered
  obtain ⟨outline, h, rfl⟩ := Outcome.map_eq_ok.1 rendered
  refine ⟨outline.render backend' graph last, ?_, (wf.outline_ok h).render_related wf agreement⟩
  rw [wf.extract_eq, h]
  rfl

end Graph

end QueryGraph
