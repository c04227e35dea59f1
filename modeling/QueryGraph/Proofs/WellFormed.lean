import Mathlib.Data.List.Nodup
import QueryGraph.Proofs.Built
import QueryGraph.Proofs.Outcome

namespace QueryGraph

namespace Entries

variable {α : Type}

theorem mem_of_mem_insert {key : String} {value : α} {entries : Entries α}
    {entry : String × α} (h : entry ∈ insert key value entries) :
    entry = (key, value) ∨ entry ∈ entries := by
  induction entries with
  | nil => exact Or.inl (List.mem_singleton.1 h)
  | cons first rest ih =>
    simp only [insert] at h
    split at h
    · rcases List.mem_cons.1 h with rfl | h
      · exact Or.inl rfl
      · exact Or.inr (List.mem_cons_of_mem _ h)
    · rcases List.mem_cons.1 h with rfl | h
      · exact Or.inr List.mem_cons_self
      · exact (ih h).imp_right (List.mem_cons_of_mem _)

theorem forall_values_insert {condition : α → Prop} {entries : Entries α} {key : String} {value : α}
    (all : ∀ other ∈ entries.values, condition other) (new : condition value) :
    ∀ other ∈ (entries.insert key value).values, condition other := by
  intro other member
  obtain ⟨entry, listed, rfl⟩ := List.mem_map.1 member
  rcases mem_of_mem_insert listed with rfl | listed
  · exact new
  · exact all _ (List.mem_map_of_mem listed)

theorem mem_of_mem_insertAll {pairs : List (String × α)} {entries : Entries α}
    {entry : String × α} (h : entry ∈ insertAll entries pairs) :
    entry ∈ entries ∨ entry ∈ pairs := by
  induction pairs generalizing entries with
  | nil => exact Or.inl h
  | cons pair rest ih =>
    rcases ih h with h | h
    · rcases mem_of_mem_insert h with rfl | h
      · exact Or.inr List.mem_cons_self
      · exact Or.inl h
    · exact Or.inr (List.mem_cons_of_mem _ h)

theorem mem_of_mem_ofList {pairs : List (String × α)} {entry : String × α}
    (h : entry ∈ ofList pairs) : entry ∈ pairs :=
  (mem_of_mem_insertAll h).resolve_left (List.not_mem_nil)

theorem mem_keys_of_mem_ofList {pairs : List (String × α)} {key : String}
    (h : key ∈ keys (ofList pairs)) : key ∈ keys pairs := by
  obtain ⟨entry, member, rfl⟩ := List.mem_map.1 h
  exact List.mem_map_of_mem (mem_of_mem_ofList member)

theorem mem_values_of_mem_ofList {pairs : List (String × α)} {value : α}
    (h : value ∈ values (ofList pairs)) : value ∈ values pairs := by
  obtain ⟨entry, member, rfl⟩ := List.mem_map.1 h
  exact List.mem_map_of_mem (mem_of_mem_ofList member)

theorem insert_of_fresh {key : String} {value : α} {entries : Entries α}
    (fresh : key ∉ entries.keys) : insert key value entries = entries ++ [(key, value)] := by
  induction entries with
  | nil => rfl
  | cons entry rest ih =>
    simp only [keys, List.map_cons, List.mem_cons, not_or] at fresh
    have other : entry.1 ≠ key := fun same => fresh.1 same.symm
    simp [insert, other, ih fresh.2]

theorem insertAll_of_distinct {entries pairs : Entries α}
    (distinct : (keys (entries ++ pairs)).Nodup) : insertAll entries pairs = entries ++ pairs := by
  induction pairs generalizing entries with
  | nil => simp [insertAll]
  | cons pair rest ih =>
    have fresh : pair.1 ∉ entries.keys := by
      intro known
      simp only [keys, List.map_append, List.map_cons, List.nodup_append] at distinct
      exact distinct.2.2 pair.1 known pair.1 List.mem_cons_self rfl
    have first : insertAll entries (pair :: rest) =
        insertAll (entries ++ [(pair.1, pair.2)]) rest := by
      rw [← insert_of_fresh fresh]
      rfl
    rw [List.append_cons] at distinct
    rw [first, ih distinct, ← List.append_cons]

theorem ofList_of_distinct {pairs : Entries α} (distinct : pairs.keys.Nodup) :
    ofList pairs = pairs :=
  insertAll_of_distinct distinct

theorem map_insert {β : Type} (f : α → β) (key : String) (value : α) (entries : Entries α) :
    (insert key value entries).map (fun entry => (entry.1, f entry.2)) =
      insert key (f value) (entries.map fun entry => (entry.1, f entry.2)) := by
  induction entries with
  | nil => rfl
  | cons first rest ih => by_cases same : first.1 = key <;> simp [insert, same, ih]

/-- It does not matter whether values are exchanged before keys are merged or after. -/
theorem map_ofList {β : Type} (f : α → β) (pairs : List (String × α)) :
    (ofList pairs).map (fun entry => (entry.1, f entry.2)) =
      ofList (pairs.map fun entry => (entry.1, f entry.2)) := by
  have step : ∀ entries : Entries α,
      (insertAll entries pairs).map (fun entry => (entry.1, f entry.2)) =
        insertAll (entries.map fun entry => (entry.1, f entry.2))
          (pairs.map fun entry => (entry.1, f entry.2)) := by
    induction pairs with
    | nil => exact fun _ => rfl
    | cons pair rest ih =>
      intro entries
      have others := ih (insert pair.1 pair.2 entries)
      rw [map_insert] at others
      exact others
  exact step []

theorem ofList_map {β : Type} {pairs : Entries α} (distinct : pairs.keys.Nodup) (f : α → β) :
    ofList (pairs.map fun entry => (entry.1, f entry.2)) =
      pairs.map fun entry => (entry.1, f entry.2) := by
  rw [← map_ofList, ofList_of_distinct distinct]

end Entries

namespace NodeKind

theorem openOperands_eq {kind : NodeKind} (noCall : kind.isValue = true) :
    kind.openOperands = kind.valueOperands := by
  cases kind <;> first | rfl | cases noCall

theorem isValue_of_mem_openOperands {kind : NodeKind} {id : NodeId}
    (isOpen : id ∈ kind.openOperands) : kind.isValue = true := by
  cases kind <;> first | rfl | cases isOpen

theorem mem_operands_of_mem_openOperands {kind : NodeKind} {id : NodeId}
    (isOpen : id ∈ kind.openOperands) : id ∈ kind.operands := by
  rw [openOperands_eq (isValue_of_mem_openOperands isOpen)] at isOpen
  exact mem_operands.2 (Or.inl isOpen)

theorem isNameable_of_operands {kind : NodeKind} (isValue : kind.isValue = true)
    (composed : kind.operands ≠ []) : kind.isNameable = true := by
  cases kind with
  | «variable» | placeholder => simp [operands] at composed
  | call => cases isValue
  | _ => rfl

/-- The keys that must not be repeated within the node. -/
def entryKeys : NodeKind → List String
  | .dict values => Entries.keys values
  | .call _ _ arguments => Entries.keys arguments
  | _ => []

/-- Whether all that is spelled out in a node can be read back. -/
structure Spelled (kind : NodeKind) : Prop where
  words : ∀ word ∈ kind.words, isIdentifier word = true
  distinct : kind.entryKeys.Nodup
  names : ∀ name, kind.variableName? = some name → isName name = true

end NodeKind

namespace Graph

structure WellFormed (graph : Graph) : Prop where
  ascending : (graph.nodes.map (·.id)).Pairwise (· < ·)
  older : ∀ node ∈ graph.nodes, ∀ id ∈ node.kind.operands, id < node.id
  values : ∀ node ∈ graph.nodes, ∀ id ∈ node.kind.valueOperands,
    ∃ operand ∈ graph.nodes, operand.id = id ∧ operand.kind.isValue = true
  calls : ∀ node ∈ graph.nodes, ∀ id ∈ node.kind.callOperands,
    ∃ operand ∈ graph.nodes, operand.id = id ∧ operand.kind.isValue = false
  spelled : ∀ node ∈ graph.nodes, node.kind.Spelled
  named : ∀ node ∈ graph.nodes, ∀ name, node.name = some name →
    isName name = true ∧ node.kind.isNameable = true

theorem mem_of_find? {graph : Graph} {id : NodeId} {node : Node}
    (found : graph.find? id = some node) : node ∈ graph.nodes ∧ node.id = id := by
  refine ⟨List.mem_of_find?_eq_some found, ?_⟩
  simpa using List.find?_some found

theorem WellFormed.eq_of_id {graph : Graph} (wf : graph.WellFormed) {a b : Node}
    (ha : a ∈ graph.nodes) (hb : b ∈ graph.nodes) (same : a.id = b.id) : a = b := by
  have distinct : (graph.nodes.map (·.id)).Nodup :=
    wf.ascending.imp fun less => Nat.ne_of_lt less
  exact List.inj_on_of_nodup_map distinct ha hb same

theorem WellFormed.find?_eq_some {graph : Graph} (wf : graph.WellFormed) {id : NodeId}
    {node : Node} : graph.find? id = some node ↔ node ∈ graph.nodes ∧ node.id = id := by
  constructor
  · exact mem_of_find?
  · rintro ⟨inside, rfl⟩
    cases found : graph.find? node.id with
    | none =>
      have absent := List.find?_eq_none.1 found node inside
      simp at absent
    | some other =>
      have inside' := mem_of_find? found
      rw [wf.eq_of_id inside'.1 inside inside'.2]

end Graph

namespace Builder

variable {b : Builder}

theorem hasValue_iff {id : NodeId} :
    b.hasValue id = true ↔ ∃ node ∈ b.graph.nodes, b.find? id = some node ∧
      node.id = id ∧ node.kind.isValue = true := by
  constructor
  · intro h
    unfold hasValue at h
    cases found : b.find? id with
    | none => simp [found] at h
    | some node =>
      have inside := Graph.mem_of_find? found
      exact ⟨node, inside.1, rfl, inside.2, by simpa [found] using h⟩
  · rintro ⟨node, _, found, _, isValue⟩
    simp [hasValue, found, isValue]

theorem hasCall_iff {id : NodeId} :
    b.hasCall id = true ↔ ∃ node ∈ b.graph.nodes, b.find? id = some node ∧
      node.id = id ∧ node.kind.isValue = false := by
  constructor
  · intro h
    unfold hasCall at h
    cases found : b.find? id with
    | none => simp [found] at h
    | some node =>
      have inside := Graph.mem_of_find? found
      exact ⟨node, inside.1, rfl, inside.2, by simpa [found] using h⟩
  · rintro ⟨node, _, found, _, isCall⟩
    simp [hasCall, found, isCall]

theorem exists_operand {kind : NodeKind}
    (values : ∀ id ∈ kind.valueOperands, b.hasValue id = true)
    (calls : ∀ id ∈ kind.callOperands, b.hasCall id = true) {id : NodeId}
    (isOperand : id ∈ kind.operands) : ∃ node ∈ b.graph.nodes, node.id = id := by
  rcases NodeKind.mem_operands.1 isOperand with isValue | isCall
  · obtain ⟨node, inside, _, same, _⟩ := hasValue_iff.1 (values id isValue)
    exact ⟨node, inside, same⟩
  · obtain ⟨node, inside, _, same, _⟩ := hasCall_iff.1 (calls id isCall)
    exact ⟨node, inside, same⟩

/-- What a builder has made sure of about a kind of node that it accepts. -/
structure Accepts (b : Builder) (kind : NodeKind) : Prop where
  values : ∀ id ∈ kind.valueOperands, b.hasValue id = true
  calls : ∀ id ∈ kind.callOperands, b.hasCall id = true
  spelled : kind.Spelled

theorem Admits.accepts {request : NodeKind} (admits : b.Admits request) :
    b.Accepts request.merged := by
  cases request with
  | dict values =>
    refine ⟨?_, nofun, ?_, Entries.nodup_keys_ofList values, nofun⟩
    · intro id member
      exact admits.values id (Entries.mem_values_of_mem_ofList member)
    · intro key member
      exact admits.words key (Entries.mem_keys_of_mem_ofList member)
  | call space name arguments =>
    refine ⟨?_, nofun, ?_, Entries.nodup_keys_ofList arguments, nofun⟩
    · intro id member
      exact admits.values id (Entries.mem_values_of_mem_ofList member)
    · intro word member
      refine admits.words word ?_
      simp only [NodeKind.merged, NodeKind.words, List.mem_cons] at member ⊢
      exact member.imp_right (Or.imp_right Entries.mem_keys_of_mem_ofList)
  | _ => exact ⟨admits.values, admits.calls, admits.words, List.nodup_nil, admits.names⟩

theorem nodes_insert (id : NodeId) (kind : NodeKind) : (b.insert id kind).graph.nodes =
    b.graph.nodes.map (·.usedBy kind) ++ [⟨id, none, kind, 0⟩] := rfl

/-- What a node keeps when it gains users: all but their number. -/
structure SameNode (old new : Node) : Prop where
  id : new.id = old.id
  name : new.name = old.name
  kind : new.kind = old.kind

theorem sameNode_usedBy (kind : NodeKind) (node : Node) : SameNode node (node.usedBy kind) :=
  ⟨node.usedBy_id, node.usedBy_name, node.usedBy_kind⟩

theorem mem_insert {id : NodeId} {kind : NodeKind} {node : Node}
    (member : node ∈ (b.insert id kind).graph.nodes) :
    (∃ old ∈ b.graph.nodes, SameNode old node) ∨ node = ⟨id, none, kind, 0⟩ := by
  rw [nodes_insert] at member
  rcases List.mem_append.1 member with member | member
  · obtain ⟨old, inside, rfl⟩ := List.mem_map.1 member
    exact Or.inl ⟨old, inside, sameNode_usedBy kind old⟩
  · exact Or.inr (List.mem_singleton.1 member)

theorem exists_insert (id : NodeId) (kind : NodeKind) {old : Node}
    (inside : old ∈ b.graph.nodes) :
    ∃ node ∈ (b.insert id kind).graph.nodes, SameNode old node :=
  ⟨_, List.mem_append_left _ (List.mem_map_of_mem inside), sameNode_usedBy kind old⟩

theorem ids_insert (id : NodeId) (kind : NodeKind) :
    (b.insert id kind).graph.nodes.map (·.id) = b.graph.nodes.map (·.id) ++ [id] := by
  simp [nodes_insert, Function.comp_def]

end Builder

namespace Graph

/-- A well-formed graph none of whose ids is `next` or above. -/
structure WellFormedBelow (next : NodeId) (graph : Graph) : Prop extends graph.WellFormed where
  below : ∀ node ∈ graph.nodes, node.id < next

theorem WellFormedBelow.empty (next : NodeId) : WellFormedBelow next ⟨[]⟩ where
  ascending := List.Pairwise.nil
  older := nofun
  values := nofun
  calls := nofun
  spelled := nofun
  named := nofun
  below := nofun

open Builder in
theorem WellFormedBelow.insert {next : NodeId} {b : Builder} {kind : NodeKind}
    (wf : b.graph.WellFormedBelow next) (accepts : b.Accepts kind) :
    (b.insert next kind).graph.WellFormedBelow (next + 1) where
  ascending := by
    rw [ids_insert]
    refine List.pairwise_append.2 ⟨wf.ascending, List.pairwise_singleton _ _, ?_⟩
    intro id member last isLast
    obtain ⟨node, inside, rfl⟩ := List.mem_map.1 member
    rw [List.mem_singleton.1 isLast]
    exact wf.below node inside
  older := by
    intro node member id operand
    rcases mem_insert member with ⟨old, inside, same⟩ | rfl
    · rw [same.id]
      exact wf.older old inside id (same.kind ▸ operand)
    · obtain ⟨node, inside, rfl⟩ := exists_operand accepts.values accepts.calls operand
      exact wf.below node inside
  values := by
    intro node member id operand
    have found : ∃ old ∈ b.graph.nodes, old.id = id ∧ old.kind.isValue = true := by
      rcases mem_insert member with ⟨old, inside, same⟩ | rfl
      · exact wf.values old inside id (same.kind ▸ operand)
      · obtain ⟨node, inside, _, h⟩ := hasValue_iff.1 (accepts.values id operand)
        exact ⟨node, inside, h⟩
    obtain ⟨old, inside, rfl, isValue⟩ := found
    obtain ⟨new, member, same⟩ := exists_insert next kind inside
    exact ⟨new, member, same.id, same.kind ▸ isValue⟩
  calls := by
    intro node member id operand
    have found : ∃ old ∈ b.graph.nodes, old.id = id ∧ old.kind.isValue = false := by
      rcases mem_insert member with ⟨old, inside, same⟩ | rfl
      · exact wf.calls old inside id (same.kind ▸ operand)
      · obtain ⟨node, inside, _, h⟩ := hasCall_iff.1 (accepts.calls id operand)
        exact ⟨node, inside, h⟩
    obtain ⟨old, inside, rfl, isCall⟩ := found
    obtain ⟨new, member, same⟩ := exists_insert next kind inside
    exact ⟨new, member, same.id, same.kind ▸ isCall⟩
  spelled := by
    intro node member
    rcases mem_insert member with ⟨old, inside, same⟩ | rfl
    · exact same.kind ▸ wf.spelled old inside
    · exact accepts.spelled
  named := by
    intro node member name isNamed
    rcases mem_insert member with ⟨old, inside, same⟩ | rfl
    · rw [same.kind]
      exact wf.named old inside name (same.name ▸ isNamed)
    · cases isNamed
  below := by
    intro node member
    rcases mem_insert member with ⟨old, inside, same⟩ | rfl
    · rw [same.id]
      exact Nat.lt_succ_of_lt (wf.below old inside)
    · exact Nat.lt_succ_self next

theorem WellFormedBelow.withName {next : NodeId} {b : Builder} {id : NodeId} {name : String}
    (wf : b.graph.WellFormedBelow next) (mayName : b.MayName id name) :
    (b.withName id name).graph.WellFormedBelow next := by
  obtain ⟨nameOk, target, found, nameable, _⟩ := mayName
  have kept : ∀ old ∈ b.graph.nodes, ∃ node ∈ b.graph.nodes.map (·.withName id name),
      node.id = old.id ∧ node.kind = old.kind := fun old inside =>
    ⟨_, List.mem_map_of_mem inside, old.withName_id, old.withName_kind⟩
  refine ⟨⟨?_, ?_, ?_, ?_, ?_, ?_⟩, ?_⟩
  · simpa [Builder.withName, Function.comp_def] using wf.ascending
  all_goals
    intro node member
    obtain ⟨old, inside, rfl⟩ := List.mem_map.1 member
    simp only [Node.withName_id, Node.withName_kind]
  · exact wf.older old inside
  · intro operand isOperand
    obtain ⟨value, inside, rfl, isValue⟩ := wf.values old inside operand isOperand
    obtain ⟨value', member, sameId, sameKind⟩ := kept value inside
    exact ⟨value', member, sameId, sameKind ▸ isValue⟩
  · intro operand isOperand
    obtain ⟨call, inside, rfl, isCall⟩ := wf.calls old inside operand isOperand
    obtain ⟨call', member, sameId, sameKind⟩ := kept call inside
    exact ⟨call', member, sameId, sameKind ▸ isCall⟩
  · exact wf.spelled old inside
  · intro given isNamed
    rcases Node.withName_name isNamed with isNamed | ⟨isTarget, rfl⟩
    · exact wf.named old inside given isNamed
    · have targetInside := mem_of_find? found
      cases wf.eq_of_id inside targetInside.1 (isTarget.trans targetInside.2.symm)
      exact ⟨nameOk, nameable⟩
  · exact wf.below old inside

theorem wellFormedBelow_kept :
    Session.Kept fun next b => b.graph.WellFormedBelow next where
  empty next _ := WellFormedBelow.empty next
  later _ _ wf :=
    ⟨wf.toWellFormed, fun node inside => Nat.lt_succ_of_lt (wf.below node inside)⟩
  make _ _ _ wf admits := wf.insert admits.accepts
  setName _ _ _ _ wf mayName := wf.withName mayName

/-- All that the slots of a session are built with is well-formed at any time. -/
theorem all_wellFormed (steps : List Session.Step) :
    (Session.start.run steps).All fun next b => b.graph.WellFormedBelow next := by
  refine Session.All.run wellFormedBelow_kept ?_ steps
  intro slot member
  cases member

theorem Built.wellFormed {graph : Graph} (built : graph.Built) : graph.WellFormed := by
  obtain ⟨next, registry, wf⟩ := wellFormedBelow_kept.built built
  exact wf.toWellFormed

end Graph

end QueryGraph
