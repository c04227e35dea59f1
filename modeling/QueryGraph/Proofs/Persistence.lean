import QueryGraph.Proofs.Locality
import QueryGraph.Proofs.Slots

namespace QueryGraph

namespace Graph

theorem find?_map {change : Node → Node} (ids : ∀ node, (change node).id = node.id) {id : NodeId}
    (fixed : ∀ node, node.id = id → change node = node) (graph : Graph) :
    (Graph.mk (graph.nodes.map change)).find? id = graph.find? id := by
  simp only [find?, List.find?_map, Function.comp_def, ids]
  cases found : graph.nodes.find? fun node => node.id == id with
  | none => rfl
  | some node =>
    have same : node.id = id := (mem_of_find? found).2
    rw [Option.map_some, fixed node same]

end Graph

namespace Builder

variable {b : Builder} {id : NodeId}

theorem find?_insert {new : NodeId} {kind : NodeKind} (older : id ≠ new)
    (spared : id ∉ kind.operands) : (b.insert new kind).graph.find? id = b.graph.find? id := by
  have fixed : ∀ node : Node, node.id = id → node.usedBy kind = node := by
    rintro node rfl
    simp [Node.usedBy, spared]
  rw [← Graph.find?_map (fun node => node.usedBy_id) fixed b.graph]
  simp [Graph.find?, nodes_insert, Ne.symm older]

theorem find?_withName {target : NodeId} {name : String} (other : id ≠ target) :
    (b.withName target name).graph.find? id = b.graph.find? id := by
  refine Graph.find?_map (fun node => node.withName_id) ?_ b.graph
  rintro node rfl
  simp [Node.withName, other]

end Builder

namespace Session

/-- Whether a step, if it is about a slot, neither makes a node that has one of some nodes as an
operand, nor names one of them. -/
def Step.Spares (index : Nat) (nodes : NodeId → Prop) : Step → Prop
  | .make slot request => slot = index → ∀ id ∈ request.merged.operands, ¬ nodes id
  | .setName slot id _ => slot = index → ¬ nodes id
  | _ => True

end Session

open Session in
theorem Slot.Yields.find? {slot : Slot} {next next' : NodeId} {step : Step} {index : Nat}
    {nodes : NodeId → Prop} {graph : Graph} (yields : slot.Yields next step graph next')
    (about : step.slot? = some index) (spares : step.Spares index nodes)
    (older : ∀ id, nodes id → id < next) :
    ∃ before, slot.graph? = some before ∧ ∀ id, nodes id → graph.find? id = before.find? id := by
  cases yields with
  | kept isGraph => exact ⟨graph, isGraph, fun _ _ => rfl⟩
  | @made _ request b isOpen _ =>
    refine ⟨b.graph, graph?_of_builder? isOpen, fun id isNode => ?_⟩
    refine Builder.find?_insert (Nat.ne_of_lt (older id isNode)) fun isOperand => ?_
    exact spares (Option.some.inj about) id isOperand isNode
  | @named _ target name b isOpen _ =>
    refine ⟨b.graph, graph?_of_builder? isOpen, fun id isNode => Builder.find?_withName ?_⟩
    rintro rfl
    exact spares (Option.some.inj about) isNode

namespace Session

variable {session : Session} {index : Nat} {nodes : NodeId → Prop} {graph : Graph}

theorem find?_step {step : Step} (inside : index < session.slots.length)
    (spares : step.Spares index nodes) (older : ∀ id, nodes id → id < session.nextId)
    (found : (session.step step).2.graph? index = some graph) :
    ∃ before, session.graph? index = some before ∧
      ∀ id, nodes id → graph.find? id = before.find? id := by
  have isSlot := List.getElem?_eq_getElem inside
  rw [graph?, isSlot, Option.bind_some]
  by_cases about : step.slot? = some index
  · rw [graph?, (step_found about isSlot).1, List.getElem?_set_self inside,
      Option.bind_some] at found
    exact (Slot.yields_after found).find? about spares older
  · rw [graph?, slots_elsewhere about inside, isSlot, Option.bind_some] at found
    exact ⟨graph, found, fun _ _ => rfl⟩

/-- Nodes that are left alone from some time on are what they were then. -/
theorem find?_run {more : List Step} (inside : index < session.slots.length)
    (spares : ∀ step ∈ more, step.Spares index nodes)
    (older : ∀ id, nodes id → id < session.nextId)
    (found : (session.run more).graph? index = some graph) :
    ∃ before, session.graph? index = some before ∧
      ∀ id, nodes id → graph.find? id = before.find? id := by
  induction more generalizing session with
  | nil => exact ⟨graph, found, fun _ _ => rfl⟩
  | cons step rest ih =>
    rw [List.forall_mem_cons] at spares
    have inside' := Nat.lt_of_lt_of_le inside (session.length_le_step step)
    have older' : ∀ id, nodes id → id < (session.step step).2.nextId := fun id isNode =>
      Nat.lt_of_lt_of_le (older id isNode) (session.nextId_le_step step)
    obtain ⟨middle, isMiddle, later⟩ := ih inside' spares.2 older' found
    obtain ⟨before, isBefore, first⟩ := find?_step inside spares.1 older isMiddle
    exact ⟨before, isBefore, fun id isNode => (later id isNode).trans (first id isNode)⟩

end Session

namespace Graph

open Session

theorem WellFormedBelow.reached_lt {graph : Graph} {next : NodeId} (wf : graph.WellFormedBelow next)
    {roots : List NodeId} (given : ∀ root ∈ roots, root < next) {id : NodeId}
    (reached : graph.ReachedFrom roots id) : id < next := by
  obtain ⟨root, isRoot, path⟩ := reached
  have closed : ∀ node ∈ graph.nodes, node.id < next → ∀ id ∈ node.kind.operands, id < next := by
    intro node inside _ id isOperand
    obtain ⟨operand, operandInside, rfl⟩ := wf.operand inside isOperand
    exact wf.below operand operandInside
  exact path.within (· < next) closed (given root isRoot)

/-- What roots come to depends on the nodes below them alone. So it is the same in graphs that are
alike there. And it stays the same, for roots whose ids have been given out, while a builder makes
other nodes, as long as these do not use the nodes below the roots, and those are not named. -/
theorem output_local :
    (∀ graph graph' : Graph, graph.Built → graph'.Built →
      ∀ roots, AlikeBelow roots graph graph' → SameOutput roots graph graph') ∧
    ∀ (steps more : List Step) (index : Nat) (graph graph' : Graph),
      (start.run steps).graph? index = some graph →
      (start.run (steps ++ more)).graph? index = some graph' →
      ∀ roots : List NodeId, (∀ root ∈ roots, root < (start.run steps).nextId) →
        (∀ step ∈ more, step.Spares index (graph.ReachedFrom roots)) →
          SameOutput roots graph graph' := by
  have alike : ∀ graph graph' : Graph, graph.Built → graph'.Built →
      ∀ roots, AlikeBelow roots graph graph' → SameOutput roots graph graph' :=
    fun graph graph' built built' roots alike =>
      Overlap.sameOutput ⟨built.wellFormed, built'.wellFormed, alike⟩
  refine ⟨alike, ?_⟩
  intro steps more index graph graph' found found' roots given spares
  obtain ⟨slot, isSlot, isGraph⟩ := Option.bind_eq_some_iff.1 found
  refine alike graph graph' ⟨steps, index, found⟩ ⟨steps ++ more, index, found'⟩ roots
    (alikeBelow_of_find? ?_)
  have inside := (List.getElem?_eq_some_iff.1 isSlot).1
  obtain ⟨registry, below⟩ := ((all_wellFormed steps).slot isSlot).graph isGraph
  have older : ∀ id, graph.ReachedFrom roots id → id < (start.run steps).nextId :=
    fun id reached => below.reached_lt given reached
  rw [run, List.foldl_append] at found'
  obtain ⟨before, isBefore, same⟩ := find?_run inside spares older found'
  cases found.symm.trans isBefore
  exact same

/-- The sample with other nodes on top, so that one node has three users for its two. -/
def otherTop : Graph where
  nodes := [
    ⟨1, none, .variable "rows", 1⟩,
    ⟨2, none, .placeholder, 1⟩,
    ⟨3, none, .lookup 2 "price", 1⟩,
    ⟨4, none, .constant (.int 5), 2⟩,
    ⟨5, none, .binary 3 .greaterThan 4, 1⟩,
    ⟨6, none, .call "std" "filter" [("where", 5)], 1⟩,
    ⟨7, none, .pipeline 1 [6], 3⟩,
    ⟨8, none, .lookup 7 "count", 1⟩,
    ⟨9, none, .list [7, 4], 0⟩,
    ⟨10, some "both", .dict [("rows", 7), ("count", 8)], 0⟩]

/-- The steps that lead to the sample but for its last node. -/
def belowTop : List Step :=
  [.openBuilder none, .make 0 (.variable "rows"), .make 0 .placeholder, .make 0 (.lookup 2 "price"),
    .make 0 (.constant (.int 5)), .make 0 (.binary 3 .greaterThan 4),
    .make 0 (.call "std" "filter" [("where", 5)]), .make 0 (.pipeline 1 [6]),
    .make 0 (.lookup 7 "count")]

/-- The sample without its last node. -/
def sampleBelow : Graph where
  nodes := [
    ⟨1, none, .variable "rows", 1⟩,
    ⟨2, none, .placeholder, 1⟩,
    ⟨3, none, .lookup 2 "price", 1⟩,
    ⟨4, none, .constant (.int 5), 1⟩,
    ⟨5, none, .binary 3 .greaterThan 4, 1⟩,
    ⟨6, none, .call "std" "filter" [("where", 5)], 1⟩,
    ⟨7, none, .pipeline 1 [6], 1⟩,
    ⟨8, none, .lookup 7 "count", 0⟩]

theorem run_belowTop (steps : List Step) : start.run (belowTop ++ steps) =
    Session.run ⟨[.builder ⟨sampleBelow, none⟩], 9, fun _ => false⟩ steps := by
  rw [Session.run, List.foldl_append]
  rfl

theorem built_otherTop : otherTop.Built := by
  refine ⟨belowTop ++ [.make 0 (.list [7, 4]), .make 0 (.dict [("rows", 7), ("count", 8)]),
    .setName 0 10 "both"], 0, ?_⟩
  rw [run_belowTop]
  rfl

/-- The sample after more calls. -/
def sampleLater : Graph where
  nodes := sample.nodes.dropLast ++ [
    ⟨9, some "all", .list [7, 8, 4], 1⟩,
    ⟨10, none, .table 9, 0⟩]

theorem sample_output_local :
    (AlikeBelow [7, 8] sample otherTop ∧ SameOutput [7, 8] sample otherTop) ∧
      SameOutput [7, 8] sample sampleLater := by
  have known : ∀ root ∈ [7, 8], ∃ node ∈ sample.nodes, node.id = root := by decide
  have alike : AlikeBelow [7, 8] sample otherTop :=
    built_sample.wellFormed.alikeBelow built_otherTop.wellFormed known (by decide) (by decide)
  have reached : ∀ id, sample.ReachedFrom [7, 8] id → id < 9 := by
    intro id reached
    obtain ⟨node, met, rfl⟩ := built_sample.wellFormed.mem_reach_of_reached known reached
    exact (by decide : ∀ node ∈ sample.reach [7, 8], node.id < 9) node met
  refine ⟨⟨alike, output_local.1 sample otherTop built_sample built_otherTop [7, 8] alike⟩, ?_⟩
  refine output_local.2 (belowTop ++ [.make 0 (.list [7, 8, 4])])
    [.setName 0 9 "all", .make 0 (.table 9)] 0 sample sampleLater ?_ ?_ [7, 8] (by decide) ?_
  · rw [run_belowTop]
    rfl
  · rw [List.append_assoc, run_belowTop]
    rfl
  have spared : ¬ sample.ReachedFrom [7, 8] 9 := fun isReached =>
    Nat.lt_irrefl 9 (reached 9 isReached)
  intro step isStep
  rcases List.mem_pair.1 isStep with rfl | rfl
  · exact fun _ => spared
  · rintro - id isOperand
    rw [List.mem_singleton.1 isOperand]
    exact spared

end Graph

end QueryGraph
