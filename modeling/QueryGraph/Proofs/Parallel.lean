import QueryGraph.Proofs.Builders
import QueryGraph.Proofs.Renaming

namespace QueryGraph

open QueryGraph.Graph

instance (graph graph' : Graph) (id id' : NodeId) : Decidable (graph.Counterparts graph' id id') :=
  inferInstanceAs (Decidable (_ ∨ _))

namespace NodeKind

variable {f : NodeId → NodeId} {request : NodeKind}

theorem rename_eq_call {space name : String} :
    (∃ arguments, request.rename f = .call space name arguments) ↔
      ∃ arguments, request = .call space name arguments := by
  cases request <;> simp [rename]

end NodeKind

theorem Node.rename_congr {f g : NodeId → NodeId} {node : Node} (id : f node.id = g node.id)
    (operands : ∀ id ∈ node.kind.operands, f id = g id) : node.rename f = node.rename g := by
  rw [Node.rename, Node.rename, id, NodeKind.rename_congr operands]

/-- Builders with graphs that differ in their ids alone, all of them below the next free ones. -/
structure Builder.Abreast (next next' : NodeId) (b b' : Builder) : Prop where
  registry : b'.registry = b.registry
  below : b.graph.WellFormedBelow next
  below' : b'.graph.WellFormedBelow next'
  renamed : ∃ f, Renamed f b.graph b'.graph

namespace Graph.Renamed

variable {f : NodeId → NodeId} {b b' : Builder} (renamed : Renamed f b.graph b'.graph)

include renamed

theorem hasValue {id id' : NodeId} (counterparts : b.graph.Counterparts b'.graph id id') :
    b'.hasValue id' = b.hasValue id := by
  unfold Builder.hasValue Builder.find?
  rcases renamed.counterparts_iff.1 counterparts with ⟨node, inside, rfl, rfl⟩ | ⟨missing, missing'⟩
  · simp [renamed.find? inside, renamed.wf.find?_eq_some.2 ⟨inside, rfl⟩]
  · simp [missing, missing']

theorem hasCall {id id' : NodeId} (counterparts : b.graph.Counterparts b'.graph id id') :
    b'.hasCall id' = b.hasCall id := by
  unfold Builder.hasCall Builder.find?
  rcases renamed.counterparts_iff.1 counterparts with ⟨node, inside, rfl, rfl⟩ | ⟨missing, missing'⟩
  · simp [renamed.find? inside, renamed.wf.find?_eq_some.2 ⟨inside, rfl⟩]
  · simp [missing, missing']

theorem mayName_iff {id id' : NodeId} (counterparts : b.graph.Counterparts b'.graph id id')
    {name : String} : b'.MayName id' name ↔ b.MayName id name := by
  rw [Builder.mayName_iff, Builder.mayName_iff, Builder.find?, Builder.find?]
  rcases renamed.counterparts_iff.1 counterparts with ⟨node, inside, rfl, rfl⟩ | ⟨missing, missing'⟩
  · simp [renamed.find? inside, renamed.wf.find?_eq_some.2 ⟨inside, rfl⟩]
  · simp [missing, missing']

theorem admits_iff (registry : b'.registry = b.registry) {g : NodeId → NodeId}
    {request : NodeKind}
    (counterparts : ∀ id ∈ request.operands, b.graph.Counterparts b'.graph id (g id)) :
    b'.Admits (request.rename g) ↔ b.Admits request := by
  have values : ∀ id ∈ request.valueOperands, b'.hasValue (g id) = b.hasValue id := fun id member =>
    renamed.hasValue (counterparts id (NodeKind.mem_operands.2 (Or.inl member)))
  have calls : ∀ id ∈ request.callOperands, b'.hasCall (g id) = b.hasCall id := fun id member =>
    renamed.hasCall (counterparts id (NodeKind.mem_operands.2 (Or.inr member)))
  have registered (space name : String) : b'.knows space name = b.knows space name := by
    rw [Builder.knows, Builder.knows, registry]
  rw [Builder.admits_iff, Builder.admits_iff]
  simp only [NodeKind.valueOperands_rename, NodeKind.callOperands_rename, NodeKind.words_rename,
    NodeKind.variableName?_rename, List.forall_mem_map, registered]
  refine and_congr (forall₂_congr fun id member => by rw [values id member])
    (and_congr (forall₂_congr fun id member => by rw [calls id member])
      (and_congr_right fun _ => and_congr_right fun _ => ?_))
  refine forall₂_congr fun space name => ?_
  rw [← forall_exists_index (p := fun arguments => request.rename g = .call space name arguments)
    (q := fun _ => b.knows space name = true), NodeKind.rename_eq_call,
    forall_exists_index]

/-- Of the operands of a request that is admitted only one renaming can be right. -/
theorem rename_eq {g : NodeId → NodeId} {request : NodeKind} (admits : b.Admits request)
    (counterparts : ∀ id ∈ request.operands, b.graph.Counterparts b'.graph id (g id)) :
    request.rename g = request.rename f := by
  refine NodeKind.rename_congr fun id isOperand => ?_
  obtain ⟨node, inside, rfl⟩ := Builder.exists_operand admits.values admits.calls isOperand
  exact renamed.eq_of_counterparts inside (counterparts node.id isOperand)

theorem usedBy {kind : NodeKind} (operands : ∀ id ∈ kind.operands, id ∈ b.graph.ids) {node : Node}
    (inside : node ∈ b.graph.nodes) :
    (node.rename f).usedBy (kind.rename f) = (node.usedBy kind).rename f := by
  rw [Node.usedBy, Node.usedBy, NodeKind.operands_rename, Node.rename_id,
    renamed.contains_map operands inside]
  split
  · rfl
  · rfl

theorem withName {id id' : NodeId} (counterparts : b.graph.Counterparts b'.graph id id')
    (name : String) {node : Node} (inside : node ∈ b.graph.nodes) :
    (node.rename f).withName id' name = (node.withName id name).rename f := by
  have same : f node.id = id' ↔ node.id = id := by
    rcases renamed.counterparts_iff.1 counterparts with
      ⟨other, inside', rfl, rfl⟩ | ⟨missing, missing'⟩
    · constructor
      · intro same
        rw [renamed.eq_of_id inside inside' same]
      · rintro same
        rw [same]
    · constructor
      · rintro rfl
        simp [renamed.find? inside] at missing'
      · rintro rfl
        simp [renamed.wf.find?_eq_some.2 ⟨inside, rfl⟩] at missing
  rw [Node.withName, Node.withName, Node.rename_id]
  by_cases isTarget : node.id = id
  · rw [if_pos isTarget, if_pos (same.2 isTarget)]
    rfl
  · rw [if_neg isTarget, if_neg (mt same.1 isTarget)]

end Graph.Renamed

namespace Builder.Abreast

variable {next next' : NodeId} {b b' : Builder}

theorem empty (next next' : NodeId) (registry : Option Registry) :
    Abreast next next' (.empty registry) (.empty registry) where
  registry := rfl
  below := .empty next
  below' := .empty next'
  renamed := ⟨id, (WellFormedBelow.empty next).toWellFormed,
    (WellFormedBelow.empty next').toWellFormed, rfl⟩

theorem later (abreast : Abreast next next' b b') {later later' : NodeId} (le : next ≤ later)
    (le' : next' ≤ later') : Abreast later later' b b' where
  registry := abreast.registry
  below := ⟨abreast.below.toWellFormed, fun node inside =>
    Nat.lt_of_lt_of_le (abreast.below.below node inside) le⟩
  below' := ⟨abreast.below'.toWellFormed, fun node inside =>
    Nat.lt_of_lt_of_le (abreast.below'.below node inside) le'⟩
  renamed := abreast.renamed

theorem insert (abreast : Abreast next next' b b') {f : NodeId → NodeId}
    (renamed : Renamed f b.graph b'.graph) {kind : NodeKind} (accepts : b.Accepts kind)
    (accepts' : b'.Accepts (kind.rename f)) :
    Abreast (next + 1) (next' + 1) (b.insert next kind) (b'.insert next' (kind.rename f)) := by
  have below := abreast.below.insert accepts
  have below' := abreast.below'.insert accepts'
  refine ⟨abreast.registry, below, below', fun id => if id = next then next' else f id,
    below.toWellFormed, below'.toWellFormed, ?_⟩
  have known : ∀ id ∈ kind.operands, id ∈ b.graph.ids := fun id isOperand =>
    mem_ids.2 (exists_operand accepts.values accepts.calls isOperand)
  have older {id : NodeId} (isNode : id ∈ b.graph.ids) :
      f id = if id = next then next' else f id := by
    obtain ⟨node, inside, rfl⟩ := mem_ids.1 isNode
    rw [if_neg (Nat.ne_of_lt (abreast.below.below node inside))]
  rw [nodes_insert, nodes_insert, renamed.nodes, List.map_append, List.map_singleton, List.map_map,
    List.map_map]
  congr 1
  · refine List.map_congr_left fun node inside => ?_
    rw [Function.comp_apply, renamed.usedBy known inside]
    refine Node.rename_congr (older (mem_ids.2 ⟨node, inside, node.usedBy_id.symm⟩)) ?_
    intro id isOperand
    rw [Node.usedBy_kind] at isOperand
    exact older (renamed.operand_mem_ids inside isOperand)
  · simp only [Node.rename, if_true]
    rw [NodeKind.rename_congr fun id isOperand => older (known id isOperand)]

theorem make (abreast : Abreast next next' b b') {g : NodeId → NodeId} {request : NodeKind}
    (counterparts : ∀ id ∈ request.operands, b.graph.Counterparts b'.graph id (g id))
    (admits : b.Admits request) : Abreast (next + 1) (next' + 1) (b.insert next request.merged)
      (b'.insert next' (request.rename g).merged) := by
  obtain ⟨f, renamed⟩ := abreast.renamed
  have accepts' := ((renamed.admits_iff abreast.registry counterparts).2 admits).accepts
  rw [renamed.rename_eq admits counterparts, NodeKind.merged_rename] at accepts' ⊢
  exact abreast.insert renamed admits.accepts accepts'

theorem withName (abreast : Abreast next next' b b') {id id' : NodeId} {name : String}
    (counterparts : b.graph.Counterparts b'.graph id id') (mayName : b.MayName id name) :
    Abreast next next' (b.withName id name) (b'.withName id' name) := by
  obtain ⟨f, renamed⟩ := abreast.renamed
  have below := abreast.below.withName mayName
  have below' := abreast.below'.withName ((renamed.mayName_iff counterparts).2 mayName)
  refine ⟨abreast.registry, below, below', f, below.toWellFormed, below'.toWellFormed, ?_⟩
  rw [Builder.withName, Builder.withName, renamed.nodes, List.map_map, List.map_map]
  exact List.map_congr_left fun node inside => renamed.withName counterparts name inside

end Builder.Abreast

end QueryGraph
