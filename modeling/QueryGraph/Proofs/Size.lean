import Mathlib.Algebra.GroupWithZero.Nat
import Mathlib.Algebra.Order.BigOperators.Group.List
import Mathlib.Algebra.Order.Group.Nat
import Mathlib.Data.List.Perm.Subperm
import QueryGraph.Proofs.FanOut
import QueryGraph.Proofs.Unreferenced

namespace List

variable {α : Type}

theorem sum_map_filter (p : α → Bool) (f : α → Nat) (l : List α) :
    (l.map f).sum = ((l.filter p).map f).sum + ((l.filter fun a => !p a).map f).sum := by
  rw [← sum_append, ← map_append]
  exact (((filter_append_perm p l).map f).sum_nat).symm

theorem sum_map_le_of_subset {l m : List α} (f : α → Nat) (distinct : l.Nodup) (subset : l ⊆ m) :
    (l.map f).sum ≤ (m.map f).sum := by
  obtain ⟨l', same, sublist⟩ := subperm_of_subset distinct subset
  rw [← (same.map f).sum_nat]
  exact (sublist.map f).sum_le_sum fun _ _ => Nat.zero_le _

theorem sum_map_le_add [BEq α] [LawfulBEq α] {l once : List α} {f : α → Nat}
    (single : ∀ a ∈ once, l.count a ≤ 1) (small : ∀ a ∈ l, a ∉ once → f a ≤ 1) :
    (l.map f).sum ≤ (once.map f).sum + l.length := by
  have distinct : (l.filter once.contains).Nodup := by
    refine nodup_iff_count.2 fun a => ?_
    by_cases listed : a ∈ once
    · exact (filter_sublist.count_le a).trans (single a listed)
    · rw [count_eq_zero_of_not_mem (by simp [listed])]
      exact Nat.zero_le _
  have large : ((l.filter once.contains).map f).sum ≤ (once.map f).sum :=
    sum_map_le_of_subset f distinct fun a member => by simpa using (mem_filter.1 member).2
  have others : ((l.filter fun a => !once.contains a).map f).sum ≤ l.length := by
    have one : ((l.filter fun a => !once.contains a).map f).sum ≤
        ((l.filter fun a => !once.contains a).map fun _ => 1).sum := by
      refine sum_le_sum fun a member => ?_
      obtain ⟨listed, other⟩ := mem_filter.1 member
      exact small a listed (by simpa using other)
    have shorter := length_filter_le (fun a => !once.contains a) l
    rw [map_const', sum_replicate_nat] at one
    omega
  rw [sum_map_filter once.contains]
  omega

end List

namespace QueryGraph

open Extraction

mutual

/-- The number of expressions and operator calls that an expression is made of, with itself. -/
def Expr.size : Expr → Nat
  | .atom _ | .reference _ | .placeholder => 1
  | .binary left _ right => left.size + right.size + 1
  | .lookup on _ => on.size + 1
  | .list values => listSize values + 1
  | .dict values => entriesSize values + 1
  | .table inner => inner.size + 1
  | .call call => call.size
  | .pipeline base steps => base.size + callsSize steps + 1
  | .conditional condition thenDo elseDo => condition.size + thenDo.size + elseDo.size + 1

def listSize : List Expr → Nat
  | [] => 0
  | expr :: rest => expr.size + listSize rest

def entriesSize : List (String × Expr) → Nat
  | [] => 0
  | (_, expr) :: rest => expr.size + entriesSize rest

def operandSize : Option Expr → Nat
  | none => 0
  | some expr => expr.size

def Call.size : Call → Nat
  | { operand, space := _, name := _, arguments } =>
    operandSize operand + entriesSize arguments + 1

def callsSize : List Call → Nat
  | [] => 0
  | call :: rest => call.size + callsSize rest

end

/-- The number of expressions and operator calls in the bodies of the statements and in the final
expression. -/
def Query.size (query : Query) : Nat :=
  (query.statements.map fun statement => statement.body.size).sum + query.final.size

theorem listSize_eq_sum (values : List Expr) : listSize values = (values.map Expr.size).sum := by
  induction values with
  | nil => rfl
  | cons expr rest ih => rw [listSize, ih, List.map_cons, List.sum_cons]

theorem entriesSize_eq_sum (entries : List (String × Expr)) :
    entriesSize entries = (entries.map fun entry => entry.2.size).sum := by
  induction entries with
  | nil => rfl
  | cons entry rest ih => rw [entriesSize, ih, List.map_cons, List.sum_cons]

theorem callsSize_eq_sum (calls : List Call) : callsSize calls = (calls.map Call.size).sum := by
  induction calls with
  | nil => rfl
  | cons call rest ih => rw [callsSize, ih, List.map_cons, List.sum_cons]

namespace NodeKind

variable {kind : NodeKind} {value : NodeId → Expr} {call : NodeId → Call}

theorem operands_eq_append (kind : NodeKind) :
    kind.operands = kind.valueOperands ++ kind.callOperands := by
  cases kind <;> simp [operands, valueOperands, callOperands]

theorem size_entries {entries : Entries NodeId} (distinct : entries.keys.Nodup) :
    entriesSize (Entries.ofList (entries.map fun entry => (entry.1, value entry.2))) =
      (entries.values.map fun id => (value id).size).sum := by
  rw [Entries.ofList_map distinct, entriesSize_eq_sum, Entries.values, List.map_map, List.map_map]
  rfl

theorem size_valueOf (isValue : kind.isValue = true) (distinct : kind.entryKeys.Nodup) :
    (Backend.tree.valueOf value call kind).size =
      (kind.valueOperands.map fun id => (value id).size).sum +
        (kind.callOperands.map fun id => (call id).size).sum + 1 := by
  cases kind with
  | constant | «variable» | placeholder => rfl
  | call => cases isValue
  | binary left op right =>
    simp [Backend.valueOf, Backend.tree, Expr.ofOperator, Expr.size, valueOperands, callOperands,
      operands]
  | lookup | table =>
    simp [Backend.valueOf, Backend.tree, Expr.size, valueOperands, callOperands, operands]
  | list values =>
    simp [Backend.valueOf, Backend.tree, Expr.size, valueOperands, callOperands, operands,
      listSize_eq_sum, Function.comp_def]
  | dict entries =>
    simp [Backend.valueOf, Backend.tree, Expr.size, valueOperands, callOperands, operands,
      size_entries distinct]
  | pipeline base steps =>
    simp [Backend.valueOf, Backend.tree, Expr.size, valueOperands, callOperands,
      callsSize_eq_sum, Function.comp_def]
  | conditional =>
    simp [Backend.valueOf, Backend.tree, Expr.size, valueOperands, callOperands, operands,
      Nat.add_assoc]

theorem size_callOf (isCall : kind.isValue = false) (distinct : kind.entryKeys.Nodup) :
    (Backend.tree.callOf value kind).size =
      (kind.valueOperands.map fun id => (value id).size).sum + 1 := by
  cases kind with
  | call space name arguments =>
    simp [Backend.callOf, Backend.tree, Call.size, operandSize, valueOperands, operands,
      size_entries distinct]
  | _ => cases isCall

end NodeKind

/-- Whether a node that is part of others is written out in them. -/
def Extraction.Plan.inlines (plan : Plan) (node : Node) : Bool :=
  !plan.hoists node && !node.kind.operands.isEmpty

theorem Extraction.Plan.inlines_iff {plan : Plan} {node : Node} :
    plan.inlines node = true ↔ ¬ plan.hoists node = true ∧ node.kind.operands ≠ [] := by
  simp [inlines]

namespace Graph

variable {graph : Graph} {settle : Node → Expr → Expr}

/-- The size of what stands in an operand slot for a node. -/
def sizeInPlace (graph : Graph) (settle : Node → Expr → Expr) (id : NodeId) : Nat :=
  match graph.find? id with
  | none => 0
  | some node =>
    if node.kind.isValue then (graph.image Backend.tree settle id).size
    else (graph.callImage Backend.tree settle id).size

/-- The size of what is made of a node. -/
def bodySize (graph : Graph) (settle : Node → Expr → Expr) (node : Node) : Nat :=
  (node.kind.operands.map (graph.sizeInPlace settle)).sum + 1

/-- The operands of the nodes that roots reach, as often as they are listed. -/
def slots (graph : Graph) (roots : List NodeId) : List NodeId :=
  (graph.reach roots).flatMap fun node => node.kind.operands

theorem WellFormed.sum_sizeInPlace (wf : graph.WellFormed) {node : Node}
    (inside : node ∈ graph.nodes) :
    (node.kind.operands.map (graph.sizeInPlace settle)).sum =
      (node.kind.valueOperands.map fun id => (graph.image Backend.tree settle id).size).sum +
        (node.kind.callOperands.map fun id =>
          (graph.callImage Backend.tree settle id).size).sum := by
  rw [NodeKind.operands_eq_append, List.map_append, List.sum_append]
  congr 2
  · apply List.map_congr_left
    intro id isOperand
    obtain ⟨operand, operandInside, rfl, isValue⟩ := wf.values node inside id isOperand
    simp [sizeInPlace, wf.find?_eq_some.2 ⟨operandInside, rfl⟩, isValue]
  · apply List.map_congr_left
    intro id isOperand
    obtain ⟨operand, operandInside, rfl, isCall⟩ := wf.calls node inside id isOperand
    simp [sizeInPlace, wf.find?_eq_some.2 ⟨operandInside, rfl⟩, isCall]

theorem WellFormed.size_body (wf : graph.WellFormed) {node : Node} (inside : node ∈ graph.nodes)
    (isValue : node.kind.isValue = true) :
    (graph.body Backend.tree settle node).size = graph.bodySize settle node := by
  rw [body, NodeKind.size_valueOf isValue (wf.spelled node inside).distinct, bodySize,
    wf.sum_sizeInPlace inside]

theorem WellFormed.sizeInPlace_eq (wf : graph.WellFormed) {plan : Plan} {node : Node}
    (inside : node ∈ graph.nodes) :
    graph.sizeInPlace (plan.settle Backend.tree) node.id =
      if plan.hoists node then 1 else graph.bodySize (plan.settle Backend.tree) node := by
  simp only [sizeInPlace, wf.find?_eq_some.2 ⟨inside, rfl⟩]
  by_cases isValue : node.kind.isValue = true
  · rw [if_pos isValue, wf.image_eq inside]
    by_cases hoists : plan.hoists node = true
    · rw [if_pos hoists, Plan.settle, if_pos hoists]
      rfl
    · rw [if_neg hoists, Plan.settle, if_neg hoists]
      exact wf.size_body inside isValue
  · have noSteps : node.kind.callOperands = [] := by
      cases kind : node.kind <;> first | rfl | simp [kind, NodeKind.isValue] at isValue
    rw [if_neg isValue, if_neg (mt Plan.isValue_of_hoists isValue), wf.callImage_eq inside,
      NodeKind.size_callOf (by simpa using isValue) (wf.spelled node inside).distinct, bodySize,
      wf.sum_sizeInPlace inside, noSteps]
    rfl

section

variable {done : List Node}

theorem sum_bodySize (graph : Graph) (settle : Node → Expr → Expr) (done : List Node) :
    (done.map (graph.bodySize settle)).sum =
      ((done.flatMap fun node => node.kind.operands).map (graph.sizeInPlace settle)).sum +
        done.length := by
  induction done with
  | nil => rfl
  | cons node rest ih =>
    rw [List.map_cons, List.sum_cons, ih, List.flatMap_cons, List.map_append, List.sum_append,
      List.length_cons, bodySize]
    omega

/-- What is written out in its place, but only once, is paid for by the node itself; any other
operand costs no more than its slot. -/
theorem Completed.sum_le (completed : graph.Completed done)
    {inlined : Node → Bool}
    (small : ∀ node ∈ done, inlined node = false → graph.sizeInPlace settle node.id ≤ 1)
    (large : ∀ node ∈ done, inlined node = true →
      graph.sizeInPlace settle node.id = graph.bodySize settle node)
    (once : ∀ node ∈ done, inlined node = true →
      (done.flatMap fun node => node.kind.operands).count node.id ≤ 1)
    {apart : List Node} (distinct : apart.Nodup)
    (unused : ∀ node ∈ apart, node ∈ done ∧ (inlined node = true →
      node.id ∉ done.flatMap fun node => node.kind.operands)) :
    (apart.map (graph.bodySize settle)).sum ≤
      done.length + (done.flatMap fun node => node.kind.operands).length := by
  have total := sum_bodySize graph settle done
  generalize parts : (done.flatMap fun node => node.kind.operands) = slots at *
  have placed : ((done.filter fun node => inlined node && slots.contains node.id).map
      (graph.bodySize settle)) = ((done.filter fun node => inlined node &&
        slots.contains node.id).map (·.id)).map (graph.sizeInPlace settle) := by
    rw [List.map_map]
    apply List.map_congr_left
    intro node member
    simp only [List.mem_filter, Bool.and_eq_true] at member
    exact (large node member.1 member.2.1).symm
  rw [List.sum_map_filter fun node => inlined node && slots.contains node.id, placed] at total
  have written : (slots.map (graph.sizeInPlace settle)).sum ≤
      (((done.filter fun node => inlined node && slots.contains node.id).map (·.id)).map
        (graph.sizeInPlace settle)).sum + slots.length := by
    apply List.sum_map_le_add
    · intro id isPlaced
      obtain ⟨node, member, rfl⟩ := List.mem_map.1 isPlaced
      simp only [List.mem_filter, Bool.and_eq_true] at member
      exact once node member.1 member.2.1
    · intro id isSlot other
      rw [← parts] at isSlot
      obtain ⟨user, userMember, isOperand⟩ := List.mem_flatMap.1 isSlot
      obtain ⟨node, member, rfl⟩ := completed.operand userMember isOperand
      refine small node member (Bool.eq_false_iff.2 fun isInlined => other ?_)
      exact List.mem_map_of_mem (List.mem_filter.2 ⟨member, by simpa [isInlined, ← parts] using
        ⟨user, userMember, isOperand⟩⟩)
  have rest : (apart.map (graph.bodySize settle)).sum ≤
      ((done.filter fun node => !(inlined node && slots.contains node.id)).map
        (graph.bodySize settle)).sum := by
    refine List.sum_map_le_of_subset _ distinct fun node member => List.mem_filter.2 ?_
    obtain ⟨isDone, notPlaced⟩ := unused node member
    refine ⟨isDone, ?_⟩
    cases isInlined : inlined node with
    | false => rfl
    | true => simpa using notPlaced isInlined
  omega

end

variable {rest : List NodeId} {last : NodeId} {bindings : Bindings} {options : Options}
  {outline : Outline}

theorem Built.not_mem_slots (built : graph.Built) {node : Node} (inside : node ∈ graph.nodes)
    (isLast : node.id = last) (nameable : node.kind.isNameable = true)
    (free : ¬ graph.Captures node.id) (stays : ¬ graph.BecomesStatement rest last node) :
    node.id ∉ graph.slots (rest ++ [last]) := by
  have wf := built.wellFormed
  intro isSlot
  obtain ⟨user, reached, isOperand⟩ := List.mem_flatMap.1 isSlot
  obtain ⟨userInside, root, isRoot, path⟩ := wf.mem_reach.1 reached
  have used : 0 < node.fanOut := by
    obtain ⟨_, _, counted⟩ := counted_kept.built built
    rw [counted.fanOut node inside]
    exact List.length_pos_of_mem (List.mem_filter.2 ⟨userInside, by simpa using isOperand⟩)
  refine stays ⟨inside, ⟨last, by simp, isLast ▸ .refl _⟩, nameable, free,
    Or.inr (Or.inr (Or.inr ⟨isLast, ?_, used⟩))⟩
  -- The only root is younger than all else that it reaches.
  rintro rfl
  obtain rfl : root = node.id := by simpa [isLast] using isRoot
  have older := wf.older user userInside node.id isOperand
  have younger := wf.le_of_mem_postorder inside ((wf.mem_postorder inside).2 ⟨userInside, path⟩)
  exact absurd older (Nat.not_lt_of_le younger)

theorem WellFormed.sizeInPlace_small (wf : graph.WellFormed) {plan : Plan} {node : Node}
    (inside : node ∈ graph.nodes) (small : plan.inlines node = false) :
    graph.sizeInPlace (plan.settle Backend.tree) node.id = 1 := by
  rw [wf.sizeInPlace_eq inside]
  split
  · rfl
  · rename_i stays
    have noOperands : node.kind.operands = [] := by
      by_contra composed
      rw [Plan.inlines_iff.2 ⟨stays, composed⟩] at small
      cases small
    rw [bodySize, noOperands]
    rfl

theorem WellFormed.sizeInPlace_large (wf : graph.WellFormed) {plan : Plan} {node : Node}
    (inside : node ∈ graph.nodes) (large : plan.inlines node = true) :
    graph.sizeInPlace (plan.settle Backend.tree) node.id =
      graph.bodySize (plan.settle Backend.tree) node := by
  rw [wf.sizeInPlace_eq inside, if_neg (Plan.inlines_iff.1 large).1]

theorem Outlines.not_inlines (outlines : graph.Outlines rest last bindings options outline)
    (wf : graph.WellFormed) {node : Node} (member : node ∈ outline.hoisted) :
    ¬ outline.plan.inlines node = true := by
  intro inlines
  obtain ⟨stays, composed⟩ := Plan.inlines_iff.1 inlines
  rcases (outlines.mem_hoisted wf).1 member with becomes | ⟨_, _, isVariable⟩
  · exact stays ((outlines.hoists_iff wf (outlines.reached node member)).2 becomes)
  · cases kind : node.kind <;> simp [kind, NodeKind.variableName?] at isVariable
    simp [kind, NodeKind.operands] at composed

theorem Outlines.size_statements (outlines : graph.Outlines rest last bindings options outline)
    (wf : graph.WellFormed) :
    ((outline.render Backend.tree graph last).statements.map fun statement =>
      statement.body.size).sum = outline.bound.length +
        (outline.hoisted.map (graph.bodySize (outline.plan.settle Backend.tree))).sum := by
  have constants : (bindingStatements Backend.tree outline.bound).map
      (fun statement => statement.body.size) = outline.bound.map fun _ => 1 := by
    rw [bindingStatements, List.map_map]
    rfl
  have bodies : (outline.hoisted.map (statementOf Backend.tree graph outline.plan)).map
      (fun statement => statement.body.size) =
        outline.hoisted.map (graph.bodySize (outline.plan.settle Backend.tree)) := by
    rw [List.map_map]
    apply List.map_congr_left
    intro node member
    exact wf.size_body (wf.mem_reach.1 (outlines.reached node member)).1
      (outlines.admitted.isValue member)
  rw [Outline.render, List.map_append, List.sum_append, constants, bodies, List.map_const',
    List.sum_replicate_nat, Nat.mul_one]

/-- The statements and the final expression are no larger than the nodes and their operand slots
together, if what is written out is used once. -/
theorem Outlines.size_render_le (outlines : graph.Outlines rest last bindings options outline)
    (built : graph.Built)
    (once : ∀ node ∈ graph.reach (rest ++ [last]), node.kind.operands ≠ [] →
      ¬ graph.BecomesStatement rest last node →
      (graph.slots (rest ++ [last])).count node.id ≤ 1) :
    (outline.hoisted.map (graph.bodySize (outline.plan.settle Backend.tree))).sum +
        graph.sizeInPlace (outline.plan.settle Backend.tree) last ≤
      (graph.reach (rest ++ [last])).length + (graph.slots (rest ++ [last])).length + 1 := by
  have wf := built.wellFormed
  have completed := (wf.reach_eq (rest ++ [last])).1
  have small (node : Node) (member : node ∈ graph.reach (rest ++ [last]))
      (isSmall : outline.plan.inlines node = false) :
      graph.sizeInPlace (outline.plan.settle Backend.tree) node.id ≤ 1 :=
    Nat.le_of_eq (wf.sizeInPlace_small (completed.inside member) isSmall)
  have large (node : Node) (member : node ∈ graph.reach (rest ++ [last]))
      (isLarge : outline.plan.inlines node = true) :=
    wf.sizeInPlace_large (completed.inside member) isLarge
  have once' (node : Node) (member : node ∈ graph.reach (rest ++ [last]))
      (isLarge : outline.plan.inlines node = true) :
      (graph.slots (rest ++ [last])).count node.id ≤ 1 := by
    obtain ⟨stays, composed⟩ := Plan.inlines_iff.1 isLarge
    exact once node member composed (mt (outlines.hoists_iff wf member).2 stays)
  have statements (node : Node) (member : node ∈ outline.hoisted) :=
    outlines.not_inlines wf member
  have free : ¬ graph.Captures last := outlines.not_captures_root wf (by simp)
  obtain ⟨root, inside, rfl, isValue, _⟩ := outlines.renderable last (by simp)
  have reached : root ∈ graph.reach (rest ++ [root.id]) := wf.mem_reach_root inside (by simp)
  cases isLarge : outline.plan.inlines root with
  | false =>
    have others := completed.sum_le small large once' outlines.admitted.distinct
      fun node member => ⟨outlines.reached node member, fun h => absurd h (statements node member)⟩
    have last := small root reached isLarge
    rw [← slots] at others
    omega
  | true =>
    obtain ⟨stays, composed⟩ := Plan.inlines_iff.1 isLarge
    have unused : root.id ∉ graph.slots (rest ++ [root.id]) :=
      built.not_mem_slots inside rfl (NodeKind.isNameable_of_operands isValue composed) free
        (mt (outlines.hoists_iff wf reached).2 stays)
    have distinct := List.nodup_append_singleton outlines.admitted.distinct
      fun member => statements root member isLarge
    have others := completed.sum_le small large once' distinct fun node member => by
      rcases List.mem_append.1 member with member | isLast
      · exact ⟨outlines.reached node member, fun h => absurd h (statements node member)⟩
      · rw [List.mem_singleton.1 isLast]
        exact ⟨reached, fun _ => unused⟩
    rw [List.map_append, List.sum_append, ← slots] at others
    rw [large root reached isLarge]
    simpa using Nat.le_succ_of_le others

/-- The query made of roots is no larger than the nodes below them, their operand slots, the roots
and the statements that bind constants together, if no node that is not a statement but has operands
of its own is listed twice among the operands. -/
theorem Built.size_le (built : graph.Built) {query : Query}
    (serialized : graph.serialize (rest ++ [last]) bindings options = .ok query)
    (once : ∀ node ∈ graph.reach (rest ++ [last]), node.kind.operands ≠ [] →
      ¬ graph.BecomesStatement rest last node →
      (graph.slots (rest ++ [last])).count node.id ≤ 1) :
    ∃ (bound : Entries Constant) (statements : List (Statement Expr)),
      query.statements = bindingStatements Backend.tree bound ++ statements ∧
      bound.keys = graph.boundNames (rest ++ [last]) bindings options ∧
      query.size ≤ (graph.reach (rest ++ [last])).length +
        (graph.slots (rest ++ [last])).length + (rest ++ [last]).length + 2 * bound.length := by
  have wf := built.wellFormed
  obtain ⟨rendering, rendered, h⟩ := Outcome.bind_eq_ok.1 serialized
  cases h
  rw [wf.extract_eq] at rendered
  obtain ⟨outline, h, rfl⟩ := Outcome.map_eq_ok.1 rendered
  have outlines := wf.outline_ok h
  refine ⟨outline.bound, _, rfl, outlines.keys_eq wf, ?_⟩
  have nodes := outlines.size_render_le built once
  obtain ⟨root, inside, rfl, isValue, _⟩ := outlines.renderable last (by simp)
  have final : (outline.render Backend.tree graph root.id).final.size =
      graph.sizeInPlace (outline.plan.settle Backend.tree) root.id := by
    simp [sizeInPlace, wf.find?_eq_some.2 ⟨inside, rfl⟩, isValue, Outline.render]
  rw [Query.size, outlines.size_statements wf, final, List.length_append, List.length_singleton]
  omega

theorem sample_size_le : ∃ (query : Query) (bound : Entries Constant)
      (statements : List (Statement Expr)),
    sample.serialize [8, 9] (.ofList [("rows", .bool true)]) .standard = .ok query ∧
    query.statements = bindingStatements Backend.tree bound ++ statements ∧
    bound.keys = ["rows"] ∧ query.size = 15 ∧
    query.size ≤ (sample.reach [8, 9]).length + (sample.slots [8, 9]).length + 2 +
      2 * bound.length := by
  have decided : ∀ node ∈ sample.reach ([8] ++ [9]),
      (sample.planOf [8] 9 .standard).hoists node = true ∨ node.kind.operands = [] ∨
        (sample.slots ([8] ++ [9])).count node.id ≤ 1 := by
    decide
  obtain ⟨query, serialized⟩ : ∃ query, sample.serialize ([8] ++ [9])
      (.ofList [("rows", .bool true)]) .standard = .ok query := ⟨_, rfl⟩
  obtain ⟨bound, statements, parts, keys, small⟩ :=
    built_sample.size_le serialized fun node member composed stays =>
      ((decided node member).resolve_left
        (mt (built_sample.wellFormed.hoists_iff member).1 stays)).resolve_left composed
  refine ⟨query, bound, statements, serialized, parts, keys, ?_, small⟩
  cases serialized
  rfl

/-- A chain of sums, each of the one before with itself. -/
def doubled : Graph where
  nodes := [
    ⟨1, none, .constant (.int 1), 1⟩,
    ⟨2, none, .binary 1 .add 1, 1⟩,
    ⟨3, none, .binary 2 .add 2, 1⟩,
    ⟨4, none, .binary 3 .add 3, 0⟩]

theorem built_doubled : doubled.Built :=
  ⟨[.openBuilder none, .make 0 (.constant (.int 1)), .make 0 (.binary 1 .add 1),
    .make 0 (.binary 2 .add 2), .make 0 (.binary 3 .add 3)], 0, rfl⟩

/-- A pipeline in which every step is the same operator call. -/
def stepwise : Graph where
  nodes := [
    ⟨1, none, .constant (.int 1), 1⟩,
    ⟨2, none, .list [1, 1, 1], 1⟩,
    ⟨3, none, .call "std" "take" [("rows", 2)], 1⟩,
    ⟨4, none, .constant (.int 2), 1⟩,
    ⟨5, none, .pipeline 4 [3, 3, 3], 0⟩]

theorem built_stepwise : stepwise.Built :=
  ⟨[.openBuilder none, .make 0 (.constant (.int 1)), .make 0 (.list [1, 1, 1]),
    .make 0 (.call "std" "take" [("rows", 2)]), .make 0 (.constant (.int 2)),
    .make 0 (.pipeline 4 [3, 3, 3])], 0, rfl⟩

/-- What one node uses twice is written out twice, an expression as well as an operator call, and
the query is then larger than nodes, slots, roots and constants together. -/
theorem repeated_use_exceeds_size :
    (doubled.Built ∧ (∀ node ∈ doubled.nodes, node.kind ≠ .placeholder) ∧
      ∃ query, doubled.serialize [4] .empty .standard = .ok query ∧
        query.statements = [] ∧
        (doubled.reach [4]).length + (doubled.slots [4]).length + 1 + 2 * 0 < query.size) ∧
    (stepwise.Built ∧ (∀ node ∈ stepwise.nodes, node.kind ≠ .placeholder) ∧
      ∃ query, stepwise.serialize [5] .empty .standard = .ok query ∧
        query.statements = [] ∧
        (stepwise.reach [5]).length + (stepwise.slots [5]).length + 1 + 2 * 0 < query.size) :=
  ⟨⟨built_doubled, by decide, _, rfl, rfl, by decide⟩,
    ⟨built_stepwise, by decide, _, rfl, rfl, by decide⟩⟩

end Graph

end QueryGraph
