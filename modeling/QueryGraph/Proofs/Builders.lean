import QueryGraph.Proofs.Recursion

namespace QueryGraph

/-- Builders that some course of a session leads to, whatever calls are made and whatever ids they
are made with. -/
def Builder.Reached (b : Builder) : Prop :=
  ∃ (steps : List Session.Step) (index : Nat),
    (Session.start.run steps).builder? index = some b

theorem Session.Kept.reached {property : NodeId → Builder → Prop} (kept : Kept property)
    {b : Builder} (reached : b.Reached) : ∃ next, property next b := by
  obtain ⟨steps, index, found⟩ := reached
  obtain ⟨slot, found, isOpen⟩ := Option.bind_eq_some_iff.1 found
  have start : Session.start.All property := fun slot member => by cases member
  exact ⟨_, ((start.run kept steps).slot found).builder isOpen⟩

theorem NodeKind.isValue_eq_false_iff {kind : NodeKind} :
    kind.isValue = false ↔ ∃ space name arguments, kind = .call space name arguments := by
  cases kind <;> simp [isValue]

namespace Graph

variable {graph : Graph}

/-- Whether a node of the graph has one id for its own and the other for an operand. -/
def Uses (graph : Graph) (id user : NodeId) : Prop :=
  ∃ node ∈ graph.nodes, node.id = user ∧ id ∈ node.kind.operands

theorem WellFormed.wellFounded_uses (wf : graph.WellFormed) : WellFounded graph.Uses := by
  refine Subrelation.wf ?_ Nat.lt_wfRel.wf
  rintro id user ⟨node, inside, rfl, isOperand⟩
  exact wf.older node inside id isOperand

theorem WellFormed.operand_before (wf : graph.WellFormed) {before after : List Node}
    {node : Node} (parts : graph.nodes = before ++ node :: after) {id : NodeId}
    (isOperand : id ∈ node.kind.operands) : ∃ operand ∈ before, operand.id = id := by
  have inside : node ∈ graph.nodes := by simp [parts]
  have less := wf.older node inside id isOperand
  obtain ⟨operand, member, rfl⟩ := wf.operand inside isOperand
  rw [parts, List.mem_append, List.mem_cons] at member
  rcases member with earlier | rfl | later
  · exact ⟨operand, earlier, rfl⟩
  · exact absurd less (Nat.lt_irrefl _)
  · have ascending := wf.ascending
    rw [parts, List.map_append, List.map_cons, List.pairwise_append] at ascending
    have order := List.rel_of_pairwise_cons ascending.2.1 (List.mem_map_of_mem later)
    exact absurd less (Nat.lt_asymm order)

/-- A walk may go deeper than operands can be nested, and comes to its end all the same. -/
theorem WellFormed.walk_congr (wf : graph.WellFormed) {depth depth' : Nat} {done : List Node}
    {id : NodeId}
    (enough : ∀ node ∈ graph.nodes, node.id = id → graph.age id < depth ∧ graph.age id < depth') :
    graph.walk depth done id = graph.walk depth' done id := by
  induction depth generalizing depth' done id with
  | zero =>
    have missing : graph.find? id = none := by
      apply Option.eq_none_iff_forall_not_mem.2
      intro node found
      obtain ⟨inside, same⟩ := mem_of_find? found
      exact Nat.not_lt_zero _ (enough node inside same).1
    cases depth' with
    | zero => rfl
    | succ depth' => simp [walk, missing]
  | succ depth ih =>
    cases found : graph.find? id with
    | none =>
      cases depth' with
      | zero => simp [walk, found]
      | succ depth' => simp [walk, found]
    | some node =>
      obtain ⟨inside, rfl⟩ := mem_of_find? found
      obtain ⟨bound, bound'⟩ := enough node inside rfl
      cases depth' with
      | zero => cases bound'
      | succ depth' =>
        have below : node.kind.operands.foldl (graph.walk depth) done =
            node.kind.operands.foldl (graph.walk depth') done := by
          apply List.foldl_ext
          intro sofar operand isOperand
          apply ih
          intro _ _ _
          have less := wf.age_operand_lt inside isOperand
          omega
        simp only [walk, found, below]

theorem WellFormed.walk_eq_walkTo (wf : graph.WellFormed) {depth : Nat} (done : List Node)
    (id : NodeId) (enough : graph.nodes.length ≤ depth) :
    graph.walk depth done id = graph.walkTo done id := by
  apply wf.walk_congr
  rintro node inside rfl
  have less := age_lt_length inside
  exact ⟨Nat.lt_of_lt_of_le less enough, less⟩

end Graph

namespace Builder

/-- Whether the registry, if there is one, knows every operator that is called. -/
def Registered (b : Builder) : Prop :=
  ∀ node ∈ b.graph.nodes, ∀ space name arguments, node.kind = .call space name arguments →
    ∀ registry, b.registry = some registry → registry.contains space name = true

theorem knows_iff {b : Builder} {space name : String} : b.knows space name = true ↔
    ∀ registry, b.registry = some registry → registry.contains space name = true := by
  unfold knows
  cases b.registry <;> simp

theorem registered_kept : Session.Kept fun _ b => b.Registered where
  empty _ _ := nofun
  later _ _ := id
  make next b request registered admits := by
    intro node member space name arguments isCall
    rcases mem_insert member with ⟨old, inside, same⟩ | rfl
    · exact registered old inside space name arguments (same.kind ▸ isCall)
    · cases request with
      | call space' name' arguments' =>
        cases isCall
        exact knows_iff.1 (admits.registered space name arguments' rfl)
      | _ => cases isCall
  setName next b id name registered mayName := by
    intro node member space name arguments isCall
    obtain ⟨old, inside, rfl⟩ := List.mem_map.1 member
    exact registered old inside space name arguments (old.withName_kind ▸ isCall)

/-- What holds of a builder at any time. -/
structure Sound (b : Builder) : Prop where
  distinct : (b.graph.nodes.map (·.id)).Nodup
  /-- Operands are nodes of the same builder, and were there before the nodes that use them. -/
  earlier : ∀ before node after, b.graph.nodes = before ++ node :: after →
    ∀ id ∈ node.kind.operands, ∃ operand ∈ before, operand.id = id
  acyclic : WellFounded b.graph.Uses
  /-- What a walk completes does not depend on how deep it may go. -/
  ends : ∀ depth done id, b.graph.nodes.length ≤ depth →
    b.graph.walk depth done id = b.graph.walkTo done id
  values : ∀ node ∈ b.graph.nodes, ∀ id ∈ node.kind.valueOperands,
    ∃ operand ∈ b.graph.nodes, operand.id = id ∧ operand.kind.isValue = true
  calls : ∀ node ∈ b.graph.nodes, ∀ id ∈ node.kind.callOperands,
    ∃ operand ∈ b.graph.nodes, operand.id = id ∧
      ∃ space name arguments, operand.kind = .call space name arguments
  words : ∀ node ∈ b.graph.nodes, ∀ word ∈ node.kind.words, isIdentifier word = true
  names : ∀ node ∈ b.graph.nodes, ∀ name, node.kind = .variable name → isName name = true
  named : ∀ node ∈ b.graph.nodes, ∀ name, node.name = some name →
    isName name = true ∧ node.kind.isNameable = true
  registered : b.Registered

theorem Reached.sound {b : Builder} (reached : b.Reached) : b.Sound := by
  obtain ⟨next, below⟩ := Graph.wellFormedBelow_kept.reached reached
  have wf := below.toWellFormed
  obtain ⟨_, registered⟩ := registered_kept.reached reached
  exact {
    distinct := wf.ascending.imp Nat.ne_of_lt
    earlier := fun _ _ _ parts _ isOperand => wf.operand_before parts isOperand
    acyclic := wf.wellFounded_uses
    ends := fun _ done id enough => wf.walk_eq_walkTo done id enough
    values := wf.values
    calls := by
      intro node inside id isStep
      obtain ⟨step, stepInside, same, isCall⟩ := wf.calls node inside id isStep
      exact ⟨step, stepInside, same, NodeKind.isValue_eq_false_iff.1 isCall⟩
    words := fun node inside => (wf.spelled node inside).words
    names := by
      intro node inside name isVariable
      exact (wf.spelled node inside).names name (by rw [isVariable]; rfl)
    named := wf.named
    registered }

/-- A builder with a registry that was also asked for nodes it refused. -/
def sample : Builder where
  graph := ⟨[
    ⟨1, none, .variable "rows", 1⟩,
    ⟨3, none, .constant (.int 5), 1⟩,
    ⟨4, some "total", .dict [("size", 3)], 1⟩,
    ⟨5, none, .call "std" "take" [("count", 4)], 1⟩,
    ⟨6, none, .pipeline 1 [5, 5], 0⟩]⟩
  registry := some .standard

theorem reached_sample : sample.Reached :=
  ⟨[.openBuilder (some .standard), .openBuilder none, .make 0 (.variable "rows"),
    .make 1 .placeholder, .make 0 (.table 2), .make 0 (.constant (.int 5)),
    .make 0 (.dict [("size", 1), ("size", 3)]), .setName 0 4 "table", .setName 0 4 "total",
    .setName 0 4 "sum", .setName 0 1 "input", .make 0 (.call "std" "sort" []),
    .make 0 (.call "std" "take" [("count", 4)]), .make 0 (.list [5]),
    .make 0 (.pipeline 1 [5, 5])], 0, rfl⟩

theorem sample_sound : sample.Reached ∧ sample.Sound :=
  ⟨reached_sample, reached_sample.sound⟩

end Builder

end QueryGraph
