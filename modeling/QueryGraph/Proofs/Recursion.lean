import QueryGraph.Proofs.WellFormed

namespace QueryGraph.Graph

variable {graph : Graph} {α : Type}

theorem WellFormed.induction (wf : graph.WellFormed) {motive : NodeId → Prop}
    (h : ∀ node ∈ graph.nodes, (∀ id ∈ node.kind.operands, motive id) → motive node.id)
    {node : Node} (inside : node ∈ graph.nodes) : motive node.id := by
  induction age : node.id using Nat.strongRecOn generalizing node with
  | ind id ih =>
    subst age
    apply h node inside
    intro operand isOperand
    rcases NodeKind.mem_operands.1 isOperand with isValue | isCall
    · obtain ⟨other, inside', rfl, _⟩ := wf.values node inside operand isValue
      exact ih other.id (wf.older node inside other.id isOperand) inside' rfl
    · obtain ⟨other, inside', rfl, _⟩ := wf.calls node inside operand isCall
      exact ih other.id (wf.older node inside other.id isOperand) inside' rfl

theorem WellFormed.operand (wf : graph.WellFormed) {node : Node} (inside : node ∈ graph.nodes)
    {id : NodeId} (isOperand : id ∈ node.kind.operands) :
    ∃ operand ∈ graph.nodes, operand.id = id := by
  rcases NodeKind.mem_operands.1 isOperand with isValue | isCall
  · obtain ⟨operand, inside', same, _⟩ := wf.values node inside id isValue
    exact ⟨operand, inside', same⟩
  · obtain ⟨operand, inside', same, _⟩ := wf.calls node inside id isCall
    exact ⟨operand, inside', same⟩

/-- The number of nodes older than a node: how deep its operands can be nested. -/
def age (graph : Graph) (id : NodeId) : Nat :=
  (graph.nodes.filter fun node => decide (node.id < id)).length

theorem age_lt_length {node : Node} (inside : node ∈ graph.nodes) :
    graph.age node.id < graph.nodes.length := by
  refine List.length_filter_lt_length_iff_exists.2 ⟨node, inside, ?_⟩
  simp

theorem age_lt_age {operand : Node} (inside : operand ∈ graph.nodes) {id : NodeId}
    (older : operand.id < id) : graph.age operand.id < graph.age id := by
  have nested : (graph.nodes.filter fun node => decide (node.id < operand.id)) =
      (graph.nodes.filter fun node => decide (node.id < id)).filter
        fun node => decide (node.id < operand.id) := by
    rw [List.filter_filter]
    apply List.filter_congr
    intro node _
    by_cases less : node.id < operand.id
    · simp [less, Nat.lt_trans less older]
    · simp [less]
  rw [age, nested]
  refine List.length_filter_lt_length_iff_exists.2 ⟨operand, ?_, by simp⟩
  simpa using ⟨inside, older⟩

theorem WellFormed.age_operand_lt (wf : graph.WellFormed) {node : Node}
    (inside : node ∈ graph.nodes) {id : NodeId} (isOperand : id ∈ node.kind.operands) :
    graph.age id < graph.age node.id := by
  obtain ⟨operand, inside', rfl⟩ := wf.operand inside isOperand
  exact age_lt_age inside' (wf.older node inside operand.id isOperand)

/-- What a step makes of a node, given what it makes of the operands; nothing is looked at more
than `depth` nodes deep, and what is not a node at all gets a value of its own. -/
def recurseAt (graph : Graph) (missing : α) (step : Node → (NodeId → α) → α) :
    Nat → NodeId → α
  | 0, _ => missing
  | depth + 1, id =>
    match graph.find? id with
    | none => missing
    | some node => step node (recurseAt graph missing step depth)

/-- Plain recursion over the operands of a node. -/
def recurse (graph : Graph) (missing : α) (step : Node → (NodeId → α) → α) (id : NodeId) : α :=
  graph.recurseAt missing step graph.nodes.length id

/-- Whether a step looks at nothing but the operands of a node. -/
def Local (step : Node → (NodeId → α) → α) : Prop :=
  ∀ (node : Node) (f g : NodeId → α), (∀ id ∈ node.kind.operands, f id = g id) →
    step node f = step node g

section

variable {missing : α} {step : Node → (NodeId → α) → α}

/-- Depths that are enough for a node all lead to the same value. -/
theorem WellFormed.recurseAt_congr (wf : graph.WellFormed) (isLocal : Local step)
    {depth depth' : Nat} {node : Node} (inside : node ∈ graph.nodes)
    (enough : graph.age node.id < depth) (enough' : graph.age node.id < depth') :
    graph.recurseAt missing step depth node.id =
      graph.recurseAt missing step depth' node.id := by
  induction depth generalizing depth' node with
  | zero => cases enough
  | succ depth ih =>
    cases depth' with
    | zero => cases enough'
    | succ depth' =>
      simp only [recurseAt, wf.find?_eq_some.2 ⟨inside, rfl⟩]
      apply isLocal
      intro id isOperand
      obtain ⟨operand, inside', rfl⟩ := wf.operand inside isOperand
      have less := wf.age_operand_lt inside isOperand
      exact ih inside' (by omega) (by omega)

theorem WellFormed.recurse_eq (wf : graph.WellFormed) (isLocal : Local step) {node : Node}
    (inside : node ∈ graph.nodes) :
    graph.recurse missing step node.id = step node (graph.recurse missing step) := by
  have enough := age_lt_length inside
  rw [recurse, wf.recurseAt_congr isLocal inside enough (Nat.lt_succ_of_lt enough)]
  simp only [recurseAt, wf.find?_eq_some.2 ⟨inside, rfl⟩]
  rfl

end

end QueryGraph.Graph
