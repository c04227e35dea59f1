import QueryGraph.Proofs.Correspondence
import QueryGraph.Proofs.Outline

namespace QueryGraph

open Extraction

namespace NodeKind

variable {f g : NodeId → NodeId} {kind : NodeKind}

/-- The same kind of node with other ids for its operands. -/
def rename (f : NodeId → NodeId) : NodeKind → NodeKind
  | .binary left op right => .binary (f left) op (f right)
  | .lookup on key => .lookup (f on) key
  | .list values => .list (values.map f)
  | .dict values => .dict (values.map fun entry => (entry.1, f entry.2))
  | .table inner => .table (f inner)
  | .call space name arguments =>
    .call space name (arguments.map fun entry => (entry.1, f entry.2))
  | .pipeline base steps => .pipeline (f base) (steps.map f)
  | .conditional condition thenDo elseDo =>
    .conditional (f condition) (f thenDo) (f elseDo)
  | kind => kind

@[simp] theorem operands_rename : (kind.rename f).operands = kind.operands.map f := by
  cases kind <;> simp [rename, operands, Entries.values, Function.comp_def]

@[simp] theorem openOperands_rename : (kind.rename f).openOperands = kind.openOperands.map f := by
  cases kind <;> simp [rename, openOperands, operands, Entries.values, Function.comp_def]

@[simp] theorem valueOperands_rename :
    (kind.rename f).valueOperands = kind.valueOperands.map f := by
  cases kind <;> simp [rename, valueOperands, operands, Entries.values, Function.comp_def]

@[simp] theorem callOperands_rename : (kind.rename f).callOperands = kind.callOperands.map f := by
  cases kind <;> simp [rename, callOperands]

@[simp] theorem isValue_rename : (kind.rename f).isValue = kind.isValue := by
  cases kind <;> rfl

@[simp] theorem isNameable_rename : (kind.rename f).isNameable = kind.isNameable := by
  cases kind <;> rfl

@[simp] theorem words_rename : (kind.rename f).words = kind.words := by
  cases kind <;> simp [rename, words, Entries.keys, Function.comp_def]

@[simp] theorem variableName?_rename : (kind.rename f).variableName? = kind.variableName? := by
  cases kind <;> rfl

theorem rename_eq_placeholder : kind.rename f = .placeholder ↔ kind = .placeholder := by
  cases kind <;> simp [rename]

theorem merged_rename : (kind.rename f).merged = kind.merged.rename f := by
  cases kind <;> simp [rename, merged, Entries.map_ofList]

theorem rename_congr (same : ∀ id ∈ kind.operands, f id = g id) :
    kind.rename f = kind.rename g := by
  have entries (pairs : Entries NodeId) (same : ∀ id ∈ Entries.values pairs, f id = g id) :
      pairs.map (fun entry => (entry.1, f entry.2)) =
        pairs.map fun entry => (entry.1, g entry.2) :=
    List.map_congr_left fun entry member => by rw [same entry.2 (List.mem_map_of_mem member)]
  cases kind with
  | constant | «variable» | placeholder => rfl
  | binary | lookup | table | conditional => simp_all [rename, operands]
  | list values => simpa [rename, operands] using same
  | dict values => exact congrArg _ (entries values same)
  | call space name arguments => exact congrArg _ (entries arguments same)
  | pipeline base steps => simp_all [rename, operands]

end NodeKind

namespace Node

/-- The same node under another id and with other ids for its operands. -/
def rename (f : NodeId → NodeId) (node : Node) : Node where
  id := f node.id
  name := node.name
  kind := node.kind.rename f
  fanOut := node.fanOut

variable {f : NodeId → NodeId}

@[simp] theorem rename_id (node : Node) : (node.rename f).id = f node.id := rfl

@[simp] theorem rename_name (node : Node) : (node.rename f).name = node.name := rfl

@[simp] theorem rename_kind (node : Node) : (node.rename f).kind = node.kind.rename f := rfl

@[simp] theorem rename_fanOut (node : Node) : (node.rename f).fanOut = node.fanOut := rfl

end Node

/-- Whether two errors say the same, of ids that are related. -/
inductive RenderError.Matches (related : NodeId → NodeId → Prop) :
    RenderError → RenderError → Prop where
  | topLevel {root root' : NodeId} (roots : related root root') :
      Matches related (.placeholderEscape (.topLevel root)) (.placeholderEscape (.topLevel root'))
  | statement (name : String) : Matches related (.placeholderEscape (.statement name))
      (.placeholderEscape (.statement name))
  | unboundVariable (name : String) (reason : UnboundReason) :
      Matches related (.unboundVariable name reason) (.unboundVariable name reason)
  | detachedCall (space name : String) :
      Matches related (.detachedCall space name) (.detachedCall space name)
  | duplicateStatement (name : String) :
      Matches related (.duplicateStatement name) (.duplicateStatement name)
  | unknownNode {id id' : NodeId} (ids : related id id') :
      Matches related (.unknownNode id) (.unknownNode id')
  | notACall {id id' : NodeId} (ids : related id id') :
      Matches related (.notACall id) (.notACall id')
  | invalidBindings (reason : String) :
      Matches related (.invalidBindings reason) (.invalidBindings reason)
  | noRoots : Matches related .noRoots .noRoots

/-- The same plan with other ids and other labels. -/
def Extraction.Plan.rename (f : NodeId → NodeId) (options : Options) (plan : Plan) : Plan :=
  ⟨options, plan.capturing.map f, plan.forced.map f⟩

namespace Graph

/-- Whether two graphs are the same but for their ids. -/
structure Renamed (f : NodeId → NodeId) (graph graph' : Graph) : Prop where
  wf : graph.WellFormed
  wf' : graph'.WellFormed
  nodes : graph'.nodes = graph.nodes.map (Node.rename f)

def ids (graph : Graph) : List NodeId :=
  graph.nodes.map (·.id)

theorem mem_ids {graph : Graph} {id : NodeId} :
    id ∈ graph.ids ↔ ∃ node ∈ graph.nodes, node.id = id :=
  List.mem_map

/-- Whether two ids are those of nodes of the same rank in their graphs, or both of none. -/
def Counterparts (graph graph' : Graph) (id id' : NodeId) : Prop :=
  (id, id') ∈ graph.ids.zip graph'.ids ∨ (id ∉ graph.ids ∧ id' ∉ graph'.ids)

theorem capturing_subset {graph : Graph} {done : List Node}
    (inside : ∀ node ∈ done, node ∈ graph.nodes) :
    ∀ id ∈ capturing done, id ∈ graph.ids := by
  induction done using List.reverseRecOn with
  | nil => nofun
  | append_singleton done node ih =>
    have others := ih fun node member => inside node (List.mem_append_left _ member)
    rw [capturing_concat]
    split
    · intro id member
      rcases List.mem_cons.1 member with rfl | member
      · exact mem_ids.2 ⟨node, inside node (by simp), rfl⟩
      · exact others id member
    · exact others

theorem freeVariables_rename (f : NodeId → NodeId) (done : List Node) :
    freeVariables (done.map (Node.rename f)) = freeVariables done := by
  simp [freeVariables_eq, List.filterMap_map, Function.comp_def]

namespace Renamed

variable {f : NodeId → NodeId} {graph graph' : Graph} (renamed : Renamed f graph graph')

include renamed

theorem mem {node : Node} (inside : node ∈ graph.nodes) : node.rename f ∈ graph'.nodes := by
  rw [renamed.nodes]
  exact List.mem_map_of_mem inside

theorem eq_of_id {a b : Node} (ha : a ∈ graph.nodes) (hb : b ∈ graph.nodes)
    (same : f a.id = f b.id) : a = b := by
  have distinct : (graph'.nodes.map (·.id)).Nodup := renamed.wf'.ascending.imp Nat.ne_of_lt
  rw [renamed.nodes, List.map_map] at distinct
  exact List.inj_on_of_nodup_map distinct ha hb same

theorem id_eq {a b : NodeId} (ha : a ∈ graph.ids) (hb : b ∈ graph.ids) (same : f a = f b) :
    a = b := by
  obtain ⟨_, inside, rfl⟩ := mem_ids.1 ha
  obtain ⟨_, inside', rfl⟩ := mem_ids.1 hb
  rw [renamed.eq_of_id inside inside' same]

theorem mem_map {known : List NodeId} (inside : ∀ other ∈ known, other ∈ graph.ids) {id : NodeId}
    (isNode : id ∈ graph.ids) : f id ∈ known.map f ↔ id ∈ known := by
  constructor
  · intro member
    obtain ⟨other, listed, same⟩ := List.mem_map.1 member
    rwa [← renamed.id_eq (inside other listed) isNode same]
  · exact List.mem_map_of_mem

theorem find? {node : Node} (inside : node ∈ graph.nodes) :
    graph'.find? (f node.id) = some (node.rename f) :=
  renamed.wf'.find?_eq_some.2 ⟨renamed.mem inside, rfl⟩

theorem operand_mem_ids {node : Node} (inside : node ∈ graph.nodes) {id : NodeId}
    (isOperand : id ∈ node.kind.operands) : id ∈ graph.ids :=
  mem_ids.2 (renamed.wf.operand inside isOperand)

theorem ids_eq : graph'.ids = graph.ids.map f := by
  simp [ids, renamed.nodes]

theorem counterparts_iff {id id' : NodeId} : graph.Counterparts graph' id id' ↔
    (∃ node ∈ graph.nodes, node.id = id ∧ f id = id') ∨
      (graph.find? id = none ∧ graph'.find? id' = none) := by
  have missing (graph : Graph) (id : NodeId) : id ∉ graph.ids ↔ graph.find? id = none := by
    simp [ids, Graph.find?]
  have paired : (id, id') ∈ graph.ids.zip graph'.ids ↔
      ∃ node ∈ graph.nodes, node.id = id ∧ f id = id' := by
    rw [renamed.ids_eq, ids, List.map_map, List.zip_map', List.mem_map]
    simp only [Prod.mk.injEq, Function.comp_apply]
    constructor
    · rintro ⟨node, inside, rfl, same⟩
      exact ⟨node, inside, rfl, same⟩
    · rintro ⟨node, inside, rfl, same⟩
      exact ⟨node, inside, rfl, same⟩
  rw [Counterparts, paired, missing, missing]

theorem counterpart {node : Node} (inside : node ∈ graph.nodes) :
    graph.Counterparts graph' node.id (f node.id) :=
  renamed.counterparts_iff.2 (Or.inl ⟨node, inside, rfl, rfl⟩)

theorem eq_of_counterparts {node : Node} (inside : node ∈ graph.nodes) {id' : NodeId}
    (counterparts : graph.Counterparts graph' node.id id') : id' = f node.id := by
  rcases renamed.counterparts_iff.1 counterparts with ⟨_, _, _, same⟩ | ⟨missing, _⟩
  · exact same.symm
  · simp [renamed.wf.find?_eq_some.2 ⟨inside, rfl⟩] at missing

theorem corresponds : Corresponds graph graph' (· ∈ graph.ids) f (Node.rename f) where
  wf := renamed.wf
  wf' := renamed.wf'
  closed _ inside _ _ isOperand := renamed.operand_mem_ids inside isOperand
  injective _ ha _ hb same := renamed.id_eq ha hb same
  id _ := rfl
  operands _ := NodeKind.operands_rename
  find? id isNode := by
    obtain ⟨node, inside, rfl⟩ := mem_ids.1 isNode
    rw [renamed.find? inside, renamed.wf.find?_eq_some.2 ⟨inside, rfl⟩, Option.map_some]

theorem postorder {node : Node} (inside : node ∈ graph.nodes) :
    graph'.postorder (f node.id) = (graph.postorder node.id).map (Node.rename f) :=
  renamed.corresponds.postorder (mem_ids.2 ⟨node, inside, rfl⟩)

theorem postorder_of_counterparts {id id' : NodeId}
    (counterparts : graph.Counterparts graph' id id') :
    graph'.postorder id' = (graph.postorder id).map (Node.rename f) := by
  rcases renamed.counterparts_iff.1 counterparts with ⟨node, inside, rfl, rfl⟩ | ⟨missing, missing'⟩
  · exact renamed.postorder inside
  · rw [postorder_of_missing missing, postorder_of_missing missing', List.map_nil]

theorem eraseDups_map {nodes : List Node} (inside : ∀ node ∈ nodes, node ∈ graph.nodes) :
    (nodes.map (Node.rename f)).eraseDups = nodes.eraseDups.map (Node.rename f) :=
  renamed.corresponds.eraseDups_map fun node member =>
    ⟨inside node member, mem_ids.2 ⟨node, inside node member, rfl⟩⟩

theorem mem_of_postorder {id : NodeId} {node : Node} (met : node ∈ graph.postorder id) :
    node ∈ graph.nodes := by
  cases found : graph.find? id with
  | none => simp [postorder_of_missing found] at met
  | some root =>
    obtain ⟨inside, rfl⟩ := mem_of_find? found
    exact ((renamed.wf.mem_postorder inside).1 met).1

theorem flatMap_postorder {roots roots' : List NodeId}
    (counterparts : List.Forall₂ (graph.Counterparts graph') roots roots') :
    roots'.flatMap graph'.postorder = (roots.flatMap graph.postorder).map (Node.rename f) := by
  induction counterparts with
  | nil => rfl
  | cons first _ ih =>
    rw [List.flatMap_cons, List.flatMap_cons, List.map_append, ih,
      renamed.postorder_of_counterparts first]

theorem reach {roots roots' : List NodeId}
    (counterparts : List.Forall₂ (graph.Counterparts graph') roots roots') :
    graph'.reach roots' = (graph.reach roots).map (Node.rename f) := by
  rw [(renamed.wf'.reach_eq roots').2, (renamed.wf.reach_eq roots).2,
    renamed.flatMap_postorder counterparts, renamed.eraseDups_map]
  intro node met
  obtain ⟨root, _, met⟩ := List.mem_flatMap.1 met
  exact renamed.mem_of_postorder met

theorem walkTo {done : List Node} (completed : graph.Completed done) {root : Node}
    (inside : root ∈ graph.nodes) : graph'.walkTo (done.map (Node.rename f)) (f root.id) =
      (graph.walkTo done root.id).map (Node.rename f) :=
  renamed.corresponds.walkTo completed
    (fun node member => mem_ids.2 ⟨node, completed.inside member, rfl⟩)
    (mem_ids.2 ⟨root, inside, rfl⟩)

theorem capturing {done : List Node} (inside : ∀ node ∈ done, node ∈ graph.nodes) :
    Graph.capturing (done.map (Node.rename f)) = (Graph.capturing done).map f := by
  induction done using List.reverseRecOn with
  | nil => rfl
  | append_singleton done node ih =>
    have earlier : ∀ node ∈ done, node ∈ graph.nodes := fun node member =>
      inside node (List.mem_append_left _ member)
    have same : captures ((Graph.capturing done).map f) (node.kind.rename f) =
        captures (Graph.capturing done) node.kind := by
      rw [Bool.eq_iff_iff, Graph.captures_iff, Graph.captures_iff, NodeKind.rename_eq_placeholder,
        NodeKind.openOperands_rename]
      simp only [List.mem_map, exists_exists_and_eq_and]
      refine or_congr_right (exists_congr fun id => and_congr_right fun isOpen => ?_)
      have isOperand := NodeKind.mem_operands_of_mem_openOperands isOpen
      exact List.mem_map.symm.trans (renamed.mem_map (capturing_subset earlier)
        (renamed.operand_mem_ids (inside node (by simp)) isOperand))
    rw [List.map_append, List.map_singleton, capturing_concat, capturing_concat, ih earlier,
      Node.rename_kind, same]
    split
    · rfl
    · rfl

theorem isUsed {root : Node} (inside : root ∈ graph.nodes) :
    isUsed graph' (f root.id) = Extraction.isUsed graph root.id := by
  rw [Extraction.isUsed, Extraction.isUsed, renamed.find? inside,
    renamed.wf.find?_eq_some.2 ⟨inside, rfl⟩]
  rfl

theorem counterparts_map {roots : List NodeId} (known : ∀ root ∈ roots, root ∈ graph.ids) :
    List.Forall₂ (graph.Counterparts graph') roots (roots.map f) := by
  rw [List.forall₂_map_right_iff, List.forall₂_same]
  intro root isRoot
  obtain ⟨node, inside, rfl⟩ := mem_ids.1 (known root isRoot)
  exact renamed.counterpart inside

theorem eq_map_of_counterparts {roots roots' : List NodeId}
    (counterparts : List.Forall₂ (graph.Counterparts graph') roots roots')
    (known : ∀ root ∈ roots, root ∈ graph.ids) : roots' = roots.map f := by
  induction counterparts with
  | nil => rfl
  | cons first _ ih =>
    obtain ⟨node, inside, rfl⟩ := mem_ids.1 (known _ List.mem_cons_self)
    rw [renamed.eq_of_counterparts inside first,
      ih fun root isRoot => known root (List.mem_cons_of_mem _ isRoot), List.map_cons]

theorem reach_subset {roots : List NodeId} : ∀ node ∈ graph.reach roots, node ∈ graph.nodes :=
  fun _ member => (renamed.wf.mem_reach.1 member).1

theorem capturing_reach {roots roots' : List NodeId}
    (counterparts : List.Forall₂ (graph.Counterparts graph') roots roots') :
    Graph.capturing (graph'.reach roots') = (Graph.capturing (graph.reach roots)).map f := by
  rw [renamed.reach counterparts, renamed.capturing renamed.reach_subset]

theorem planOf {rest : List NodeId} {last : NodeId}
    (known : ∀ root ∈ rest ++ [last], root ∈ graph.ids) (options options' : Options) :
    graph'.planOf (rest.map f) (f last) options' =
      (graph.planOf rest last options).rename f options' := by
  obtain ⟨node, inside, rfl⟩ := mem_ids.1 (known last (by simp))
  have captured := renamed.capturing_reach (renamed.counterparts_map known)
  have whole : rest.map f ++ [f node.id] = (rest ++ [node.id]).map f := by simp
  simp only [Graph.planOf, Plan.rename, whole, captured, renamed.isUsed inside, List.isEmpty_map]
  split
  · rfl
  · rfl

theorem contains_map {known : List NodeId} (isKnown : ∀ id ∈ known, id ∈ graph.ids) {node : Node}
    (inside : node ∈ graph.nodes) :
    (known.map f).contains (f node.id) = known.contains node.id := by
  rw [Bool.eq_iff_iff, List.contains_iff_mem, List.contains_iff_mem]
  exact renamed.mem_map isKnown (mem_ids.2 ⟨node, inside, rfl⟩)

theorem wants {plan : Plan} (forced : ∀ id ∈ plan.forced, id ∈ graph.ids) {node : Node}
    (inside : node ∈ graph.nodes) (options : Options) :
    (plan.rename f options).wants (node.rename f) = plan.wants node := by
  simp only [Plan.wants, Plan.rename, Node.rename_kind, NodeKind.isNameable_rename,
    Node.rename_fanOut, Node.rename_name, Node.rename_id, renamed.contains_map forced inside]
  rfl

theorem checkRoot {captured : List NodeId} (known : ∀ id ∈ captured, id ∈ graph.ids)
    {root root' : NodeId} (counterparts : graph.Counterparts graph' root root') :
    Outcome.Alike (RenderError.Matches (graph.Counterparts graph')) (fun _ _ => True)
      (checkRoot graph captured root) (checkRoot graph' (captured.map f) root') := by
  rcases renamed.counterparts_iff.1 counterparts with ⟨node, inside, rfl, rfl⟩ | ⟨missing, missing'⟩
  · have found := renamed.wf.find?_eq_some.2 ⟨inside, rfl⟩
    have found' := renamed.find? inside
    have same := renamed.contains_map known inside
    obtain ⟨id, name, kind, fanOut⟩ := node
    cases kind with
    | call space name arguments =>
      simp only [Extraction.checkRoot, checkValue, notAValue, found, found', Node.rename,
        NodeKind.rename, NodeKind.isValue, Bool.false_eq_true, if_false, Outcome.error_bind]
      exact .error (.detachedCall space name)
    | _ =>
      simp only [Extraction.checkRoot, checkValue, found, found', Node.rename_kind,
        NodeKind.isValue, if_true, Outcome.ok_bind, same]
      split
      · exact .error (.topLevel counterparts)
      · exact .ok trivial
  · simp only [Extraction.checkRoot, checkValue, notAValue, missing, missing',
      Outcome.error_bind]
    exact .error (.unknownNode counterparts)

theorem checkRoots {captured : List NodeId} (known : ∀ id ∈ captured, id ∈ graph.ids)
    {roots roots' : List NodeId}
    (counterparts : List.Forall₂ (graph.Counterparts graph') roots roots') :
    Outcome.Alike (RenderError.Matches (graph.Counterparts graph')) (fun _ _ => True)
      (checkRoots graph captured roots) (checkRoots graph' (captured.map f) roots') := by
  induction counterparts with
  | nil => exact .ok trivial
  | cons first _ ih => exact (renamed.checkRoot known first).bind fun _ _ _ => ih

end Renamed

end Graph

end QueryGraph
