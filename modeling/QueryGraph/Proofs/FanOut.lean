import QueryGraph.Proofs.Lists
import QueryGraph.Proofs.WellFormed

namespace QueryGraph

namespace Entries

variable {α : Type}

theorem mem_insert_iff {key : String} {value : α} {entries : Entries α}
    (distinct : entries.keys.Nodup) {entry : String × α} :
    entry ∈ insert key value entries ↔
      entry = (key, value) ∨ (entry ∈ entries ∧ entry.1 ≠ key) := by
  induction entries with
  | nil => simp [insert]
  | cons first rest ih =>
    have others : ∀ entry ∈ rest, entry.1 ≠ first.1 := by
      intro entry inside same
      have repeated : entry.1 ∈ keys rest := List.mem_map_of_mem inside
      rw [same] at repeated
      exact (List.nodup_cons.1 distinct).1 repeated
    unfold insert
    split
    · rename_i same
      subst same
      grind
    · rename_i other
      rw [List.mem_cons, ih (List.nodup_cons.1 distinct).2]
      grind

/-- Of the values that come under one key the last is the one that stays. -/
theorem mem_ofList_iff {pairs : List (String × α)} {key : String} {value : α} :
    (key, value) ∈ ofList pairs ↔
      ∃ before after, pairs = before ++ (key, value) :: after ∧ key ∉ keys after := by
  induction pairs using List.reverseRecOn with
  | nil => simp [ofList, insertAll]
  | append_singleton pairs last ih =>
    obtain ⟨key', value'⟩ := last
    have step : ofList (pairs ++ [(key', value')]) = insert key' value' (ofList pairs) := by
      simp [ofList, insertAll]
    rw [step, mem_insert_iff (nodup_keys_ofList pairs), ih]
    constructor
    · rintro (same | ⟨⟨before, after, rfl, final⟩, other⟩)
      · cases same
        exact ⟨pairs, [], rfl, List.not_mem_nil⟩
      · refine ⟨before, after ++ [(key', value')], by simp, ?_⟩
        simpa [keys, other] using final
    · rintro ⟨before, after, parts, final⟩
      rcases List.append_singleton_eq_append_cons parts with
        ⟨_, _, same⟩ | ⟨after, rfl, rfl⟩
      · exact Or.inl same.symm
      · simp only [keys, List.map_append, List.mem_append, List.map_cons, List.map_nil,
          List.mem_singleton, not_or] at final
        exact Or.inr ⟨⟨before, after, rfl, final.1⟩, final.2⟩

end Entries

namespace NodeKind

/-- Whether an entry of a dictionary as it was asked for comes to stay: a later one under the same
key displaces it. -/
def Stays (pairs : List (String × NodeId)) (id : NodeId) : Prop :=
  ∃ before key after, pairs = before ++ (key, id) :: after ∧ key ∉ Entries.keys after

/-- Whether a node has use for another when it is made as asked for. -/
def Consumes (request : NodeKind) (id : NodeId) : Prop :=
  match request with
  | .dict values => Stays values id
  | .call _ _ arguments => Stays arguments id
  | kind => id ∈ kind.operands

theorem mem_values_ofList {pairs : List (String × NodeId)} {id : NodeId} :
    id ∈ Entries.values (Entries.ofList pairs) ↔ Stays pairs id := by
  rw [Entries.values, List.mem_map]
  constructor
  · rintro ⟨⟨key, id⟩, inside, rfl⟩
    obtain ⟨before, after, parts, final⟩ := Entries.mem_ofList_iff.1 inside
    exact ⟨before, key, after, parts, final⟩
  · rintro ⟨before, key, after, parts, final⟩
    exact ⟨(key, id), Entries.mem_ofList_iff.2 ⟨before, after, parts, final⟩, rfl⟩

theorem mem_operands_merged {request : NodeKind} {id : NodeId} :
    id ∈ request.merged.operands ↔ request.Consumes id := by
  cases request with
  | dict values => exact mem_values_ofList
  | call space name arguments => exact mem_values_ofList
  | _ => rfl

end NodeKind

@[simp] theorem Node.withName_fanOut {id : NodeId} {name : String} (node : Node) :
    (node.withName id name).fanOut = node.fanOut := by
  unfold Node.withName
  split <;> rfl

theorem Node.usedBy_fanOut {kind : NodeKind} (node : Node) :
    (node.usedBy kind).fanOut = node.fanOut + if node.id ∈ kind.operands then 1 else 0 := by
  by_cases isOperand : node.id ∈ kind.operands <;> simp [Node.usedBy, isOperand]

namespace Graph

/-- The nodes that have the id among their operands. -/
def users (graph : Graph) (id : NodeId) : List Node :=
  graph.nodes.filter fun node => node.kind.operands.contains id

/-- A graph, none of whose ids is `next` or above, in which every node knows how many others use
it. -/
structure Counted (next : NodeId) (graph : Graph) : Prop extends graph.WellFormedBelow next where
  fanOut : ∀ node ∈ graph.nodes, node.fanOut = (graph.users node.id).length

end Graph

theorem Builder.users_insert {b : Builder} (id : NodeId) (kind : NodeKind) (other : NodeId) :
    ((b.insert id kind).graph.users other).length =
      (b.graph.users other).length + if other ∈ kind.operands then 1 else 0 := by
  rw [Graph.users, Builder.nodes_insert, List.filter_append, List.length_append, List.filter_map,
    List.length_map]
  by_cases isOperand : other ∈ kind.operands
  · simp [Graph.users, isOperand, Function.comp_def]
  · simp [Graph.users, isOperand, Function.comp_def]

namespace Graph

theorem Counted.insert {next : NodeId} {b : Builder} {kind : NodeKind}
    (counted : b.graph.Counted next) (accepts : b.Accepts kind) :
    (b.insert next kind).graph.Counted (next + 1) := by
  have wf := counted.toWellFormedBelow.insert accepts
  refine ⟨wf, ?_⟩
  intro node member
  rw [Builder.users_insert]
  rw [Builder.nodes_insert] at member
  rcases List.mem_append.1 member with isOld | isNew
  · obtain ⟨old, inside, rfl⟩ := List.mem_map.1 isOld
    rw [Node.usedBy_fanOut, Node.usedBy_id, counted.fanOut old inside]
  · obtain rfl := List.mem_singleton.1 isNew
    -- whatever has the new id for an operand would be younger than itself
    have unused : b.graph.users next = [] := by
      refine List.filter_eq_nil_iff.2 ?_
      intro user inside isUser
      have less := counted.older user inside next (by simpa using isUser)
      exact Nat.lt_asymm less (counted.below user inside)
    have notOwn : next ∉ kind.operands :=
      fun isOperand => Nat.lt_irrefl _ (wf.older _ member next isOperand)
    simp [unused, notOwn]

theorem Counted.withName {next : NodeId} {b : Builder} {id : NodeId} {name : String}
    (counted : b.graph.Counted next) (mayName : b.MayName id name) :
    (b.withName id name).graph.Counted next := by
  refine ⟨counted.toWellFormedBelow.withName mayName, ?_⟩
  intro node member
  obtain ⟨old, inside, rfl⟩ := List.mem_map.1 member
  simp [counted.fanOut old inside, users, Builder.withName, List.filter_map, Function.comp_def]

theorem counted_kept : Session.Kept fun next b => b.graph.Counted next where
  empty next _ := ⟨WellFormedBelow.empty next, nofun⟩
  later next b counted :=
    ⟨wellFormedBelow_kept.later next b counted.toWellFormedBelow, counted.fanOut⟩
  make _ _ _ counted admits := counted.insert admits.accepts
  setName _ _ _ _ counted mayName := counted.withName mayName

/-- The count of a node is the number of nodes that use it. A node that is made adds one to the
counts of those it uses and leaves the others as they are. -/
theorem Built.fanOut_exact {graph : Graph} (built : graph.Built) :
    (graph.nodes.map (·.id)).Nodup ∧
    (∀ node ∈ graph.nodes, node.fanOut = (graph.users node.id).length) ∧
    ∀ registry next request id later,
      (BuildM.make request).run ⟨⟨graph, registry⟩, next⟩ = .ok id later →
      ∀ old ∈ graph.nodes, ∃ node ∈ later.builder.graph.nodes, node.id = old.id ∧
        (request.Consumes old.id → node.fanOut = old.fanOut + 1) ∧
        (¬ request.Consumes old.id → node.fanOut = old.fanOut) := by
  obtain ⟨next, registry, counted⟩ := counted_kept.built built
  refine ⟨counted.ascending.imp Nat.ne_of_lt, counted.fanOut, ?_⟩
  intro registry next request id later made old inside
  obtain ⟨_, _, rfl⟩ := BuildM.make_iff.1 made
  refine ⟨old.usedBy request.merged, List.mem_append_left _ (List.mem_map_of_mem inside),
    old.usedBy_id, ?_, ?_⟩
  · intro consumes
    rw [Node.usedBy_fanOut, if_pos (NodeKind.mem_operands_merged.2 consumes)]
  · intro spares
    rw [Node.usedBy_fanOut, if_neg (mt NodeKind.mem_operands_merged.1 spares), Nat.add_zero]

/-- Nodes that use others more than once. -/
def repeating : Graph where
  nodes := [
    ⟨1, none, .constant (.int 5), 2⟩,
    ⟨2, none, .binary 1 .add 1, 2⟩,
    ⟨3, none, .list [1, 1, 2], 1⟩,
    ⟨4, none, .call "std" "take" [("count", 2)], 1⟩,
    ⟨5, none, .pipeline 3 [4, 4], 1⟩,
    ⟨6, none, .dict [("rows", 5)], 0⟩]

theorem built_repeating : repeating.Built :=
  ⟨[.openBuilder none, .make 0 (.constant (.int 5)), .make 0 (.binary 1 .add 1),
    .make 0 (.list [1, 9]), .make 0 (.list [1, 1, 2]),
    .make 0 (.call "std" "take" [("count", 1), ("count", 2)]), .make 0 (.conditional 1 2 4),
    .make 0 (.pipeline 3 [4, 4]), .make 0 (.dict [("rows", 3), ("rows", 5)]), .finish 0],
    0, rfl⟩

theorem repeating_fanOut : repeating.Built ∧
    (∀ node ∈ repeating.nodes, node.fanOut = (repeating.users node.id).length) ∧
    ∃ later, (BuildM.make (.dict [("rows", 3), ("rows", 5)])).run ⟨⟨repeating, none⟩, 7⟩ =
        .ok 7 later ∧
      ∀ old ∈ repeating.nodes, ∃ node ∈ later.builder.graph.nodes, node.id = old.id ∧
        (NodeKind.Consumes (.dict [("rows", 3), ("rows", 5)]) old.id →
          node.fanOut = old.fanOut + 1) ∧
        (¬ NodeKind.Consumes (.dict [("rows", 3), ("rows", 5)]) old.id →
          node.fanOut = old.fanOut) :=
  ⟨built_repeating, built_repeating.fanOut_exact.2.1, _, rfl,
    built_repeating.fanOut_exact.2.2 none 7 _ _ _ rfl⟩

end Graph

end QueryGraph
