import QueryGraph.Proofs.Walk
import QueryGraph.Render.Traversal

namespace QueryGraph

namespace Backend

variable {ε κ : Type} {backend : Backend ε κ}

/-- What a node is as a value, given what its operands are. An operator call is none. -/
def valueOf (backend : Backend ε κ) (value : NodeId → ε) (call : NodeId → κ) : NodeKind → ε
  | .constant constant => backend.constant constant
  | .binary left op right => backend.binary op (value left) (value right)
  | .lookup on key => backend.lookup (value on) key
  | .list values => backend.list (values.map value)
  | .dict values => backend.dict (values.map fun entry => (entry.1, value entry.2))
  | .table inner => backend.table (value inner)
  | .variable name => backend.reference name
  | .placeholder | .call _ _ _ => backend.placeholder
  | .pipeline base steps => backend.pipeline (value base) (steps.map call)
  | .conditional condition thenDo elseDo =>
    backend.conditional (value condition) (value thenDo) (value elseDo)

/-- What a node is as an operator call, given what its operands are. A value is none. -/
def callOf (backend : Backend ε κ) (value : NodeId → ε) : NodeKind → κ
  | .call space name arguments =>
    backend.call space name (arguments.map fun entry => (entry.1, value entry.2))
  | _ => backend.call "" "" []

def renderedOf (backend : Backend ε κ) (value : NodeId → ε) (call : NodeId → κ)
    (kind : NodeKind) : Rendered ε κ :=
  if kind.isValue then .value (backend.valueOf value call kind)
  else .call (backend.callOf value kind)

theorem mapM_ok {α β : Type} {f : α → Except RenderError β} {g : α → β} {items : List α}
    (h : ∀ item ∈ items, f item = .ok (g item)) : items.mapM f = .ok (items.map g) := by
  induction items with
  | nil => rfl
  | cons first rest ih =>
    have others := ih fun item member => h item (List.mem_cons_of_mem _ member)
    simp [List.mapM_cons, h first List.mem_cons_self, others]

theorem entries_ok {value : NodeId → Except RenderError ε} {value' : NodeId → ε}
    {pairs : List (String × NodeId)} (h : ∀ pair ∈ pairs, value pair.2 = .ok (value' pair.2)) :
    entries value pairs = .ok (pairs.map fun pair => (pair.1, value' pair.2)) := by
  induction pairs with
  | nil => rfl
  | cons first rest ih =>
    have others := ih fun pair member => h pair (List.mem_cons_of_mem _ member)
    simp [entries, h first List.mem_cons_self, others]

theorem node_eq {kind : NodeKind} {value : NodeId → Except RenderError ε}
    {call : NodeId → Except RenderError κ} {value' : NodeId → ε} {call' : NodeId → κ}
    (values : ∀ id ∈ kind.valueOperands, value id = .ok (value' id))
    (calls : ∀ id ∈ kind.callOperands, call id = .ok (call' id)) :
    backend.node value call kind = .ok (backend.renderedOf value' call' kind) := by
  cases kind with
  | constant | «variable» | placeholder => rfl
  | binary left op right =>
    have left' := values left (by simp [NodeKind.valueOperands, NodeKind.operands])
    have right' := values right (by simp [NodeKind.valueOperands, NodeKind.operands])
    simp [node, left', right', renderedOf, NodeKind.isValue, valueOf]
  | lookup on key =>
    have on' := values on (by simp [NodeKind.valueOperands, NodeKind.operands])
    simp [node, on', renderedOf, NodeKind.isValue, valueOf]
  | table inner =>
    have inner' := values inner (by simp [NodeKind.valueOperands, NodeKind.operands])
    simp [node, inner', renderedOf, NodeKind.isValue, valueOf]
  | list ids =>
    have ids' : ids.mapM value = .ok (ids.map value') := mapM_ok values
    simp [node, ids', renderedOf, NodeKind.isValue, valueOf]
  | dict pairs =>
    have pairs' : entries value pairs = .ok (pairs.map fun pair => (pair.1, value' pair.2)) :=
      entries_ok fun pair member => values pair.2 (List.mem_map_of_mem member)
    simp [node, pairs', renderedOf, NodeKind.isValue, valueOf]
  | call space name arguments =>
    have arguments' : entries value arguments =
        .ok (arguments.map fun pair => (pair.1, value' pair.2)) :=
      entries_ok fun pair member => values pair.2 (List.mem_map_of_mem member)
    simp [node, arguments', renderedOf, NodeKind.isValue, callOf]
  | pipeline base steps =>
    have base' := values base (by simp [NodeKind.valueOperands])
    have steps' : steps.mapM call = .ok (steps.map call') := mapM_ok calls
    simp [node, base', steps', renderedOf, NodeKind.isValue, valueOf]
  | conditional condition thenDo elseDo =>
    have condition' := values condition (by simp [NodeKind.valueOperands, NodeKind.operands])
    have thenDo' := values thenDo (by simp [NodeKind.valueOperands, NodeKind.operands])
    have elseDo' := values elseDo (by simp [NodeKind.valueOperands, NodeKind.operands])
    simp [node, condition', thenDo', elseDo', renderedOf, NodeKind.isValue, valueOf]

theorem renderedOf_congr {kind : NodeKind} {value value' : NodeId → ε} {call call' : NodeId → κ}
    (values : ∀ id ∈ kind.valueOperands, value id = value' id)
    (calls : ∀ id ∈ kind.callOperands, call id = call' id) :
    backend.renderedOf value call kind = backend.renderedOf value' call' kind := by
  have one : backend.node (fun id => .ok (value id)) (fun id => .ok (call id)) kind =
      .ok (backend.renderedOf value call kind) := node_eq (fun _ _ => rfl) fun _ _ => rfl
  have other : backend.node (fun id => .ok (value id)) (fun id => .ok (call id)) kind =
      .ok (backend.renderedOf value' call' kind) :=
    node_eq (fun id member => congrArg Except.ok (values id member))
      fun id member => congrArg Except.ok (calls id member)
  exact Except.ok.inj (one.symm.trans other)

theorem valueOf_congr {kind : NodeKind} {value value' : NodeId → ε} {call call' : NodeId → κ}
    (values : ∀ id ∈ kind.valueOperands, value id = value' id)
    (calls : ∀ id ∈ kind.callOperands, call id = call' id) :
    backend.valueOf value call kind = backend.valueOf value' call' kind := by
  cases isValue : kind.isValue with
  | true => simpa [renderedOf, isValue] using backend.renderedOf_congr values calls
  | false => cases kind <;> first | rfl | cases isValue

theorem callOf_congr {kind : NodeKind} {value value' : NodeId → ε}
    (values : ∀ id ∈ kind.valueOperands, value id = value' id) :
    backend.callOf value kind = backend.callOf value' kind := by
  cases isValue : kind.isValue with
  | false =>
    have calls : ∀ id ∈ kind.callOperands, backend.call "" "" [] = backend.call "" "" [] :=
      fun _ _ => rfl
    simpa [renderedOf, isValue] using backend.renderedOf_congr values calls
  | true => cases kind <;> first | rfl | cases isValue

/-- Whether what two back ends make of a node is related whenever that of its operands is. -/
structure Agree {ε' κ' : Type} (backend : Backend ε κ) (backend' : Backend ε' κ')
    (onValue : ε → ε' → Prop) (onCall : κ → κ' → Prop) (kind : NodeKind) : Prop where
  value : kind.isValue = true → ∀ value value' call call',
    (∀ id ∈ kind.valueOperands, onValue (value id) (value' id)) →
    (∀ id ∈ kind.callOperands, onCall (call id) (call' id)) →
    onValue (backend.valueOf value call kind) (backend'.valueOf value' call' kind)
  call : kind.isValue = false → ∀ value value',
    (∀ id ∈ kind.valueOperands, onValue (value id) (value' id)) →
    onCall (backend.callOf value kind) (backend'.callOf value' kind)

end Backend

namespace Graph

variable {ε κ : Type} {backend : Backend ε κ} {settle : Node → ε → ε} {graph : Graph}

/-- What a node is to the nodes that use it, as a value and as a call: what `settle` leaves of
that which the back end makes of it. -/
def images (backend : Backend ε κ) (settle : Node → ε → ε) (graph : Graph) : NodeId → ε × κ :=
  graph.recurse (backend.placeholder, backend.call "" "" []) fun node below =>
    (settle node (backend.valueOf (fun id => (below id).1) (fun id => (below id).2) node.kind),
      backend.callOf (fun id => (below id).1) node.kind)

def image (backend : Backend ε κ) (settle : Node → ε → ε) (graph : Graph) (id : NodeId) : ε :=
  (graph.images backend settle id).1

def callImage (backend : Backend ε κ) (settle : Node → ε → ε) (graph : Graph) (id : NodeId) : κ :=
  (graph.images backend settle id).2

/-- What a back end makes of a node out of the images of its operands. -/
def body (backend : Backend ε κ) (settle : Node → ε → ε) (graph : Graph) (node : Node) : ε :=
  backend.valueOf (graph.image backend settle) (graph.callImage backend settle) node.kind

theorem images_local : Local fun (node : Node) (below : NodeId → ε × κ) =>
    (settle node (backend.valueOf (fun id => (below id).1) (fun id => (below id).2) node.kind),
      backend.callOf (fun id => (below id).1) node.kind) := by
  intro node f g same
  have values : ∀ id ∈ node.kind.valueOperands, (f id).1 = (g id).1 := fun id member =>
    congrArg Prod.fst (same id (NodeKind.mem_operands.2 (Or.inl member)))
  have calls : ∀ id ∈ node.kind.callOperands, (f id).2 = (g id).2 := fun id member =>
    congrArg Prod.snd (same id (NodeKind.mem_operands.2 (Or.inr member)))
  simp only [Backend.valueOf_congr values calls, Backend.callOf_congr values]

theorem WellFormed.image_eq (wf : graph.WellFormed) {node : Node} (inside : node ∈ graph.nodes) :
    graph.image backend settle node.id = settle node (graph.body backend settle node) :=
  congrArg Prod.fst (wf.recurse_eq images_local inside)

theorem WellFormed.callImage_eq (wf : graph.WellFormed) {node : Node}
    (inside : node ∈ graph.nodes) : graph.callImage backend settle node.id =
      backend.callOf (graph.image backend settle) node.kind :=
  congrArg Prod.snd (wf.recurse_eq images_local inside)

section

variable {ε' κ' : Type} {backend' : Backend ε' κ'} (settle' : Node → ε' → ε')
  {onValue : ε → ε' → Prop} {onCall : κ → κ' → Prop}

/-- Whether what a node is to its users is related under two back ends. -/
structure ImagesAgree (graph : Graph) (backend : Backend ε κ) (settle : Node → ε → ε)
    (backend' : Backend ε' κ') (settle' : Node → ε' → ε') (onValue : ε → ε' → Prop)
    (onCall : κ → κ' → Prop) (node : Node) : Prop where
  value : node.kind.isValue = true →
    onValue (graph.image backend settle node.id) (graph.image backend' settle' node.id)
  call : node.kind.isValue = false →
    onCall (graph.callImage backend settle node.id) (graph.callImage backend' settle' node.id)

theorem WellFormed.operands_agree (wf : graph.WellFormed) {node : Node}
    (inside : node ∈ graph.nodes)
    (below : ∀ operand ∈ graph.nodes, operand.id ∈ node.kind.operands →
      graph.ImagesAgree backend settle backend' settle' onValue onCall operand) :
    (∀ id ∈ node.kind.valueOperands,
      onValue (graph.image backend settle id) (graph.image backend' settle' id)) ∧
    ∀ id ∈ node.kind.callOperands,
      onCall (graph.callImage backend settle id) (graph.callImage backend' settle' id) := by
  constructor
  · intro id member
    obtain ⟨operand, operandInside, rfl, isValue⟩ := wf.values node inside id member
    exact (below operand operandInside (NodeKind.mem_operands.2 (Or.inl member))).value isValue
  · intro id member
    obtain ⟨operand, operandInside, rfl, isCall⟩ := wf.calls node inside id member
    exact (below operand operandInside (NodeKind.mem_operands.2 (Or.inr member))).call isCall

/-- Two back ends that agree on every node below a root agree on what becomes of it, if what is
settled keeps to the agreement. -/
theorem WellFormed.images_agree (wf : graph.WellFormed) {root : Node} (inside : root ∈ graph.nodes)
    (agree : ∀ node ∈ graph.postorder root.id, backend.Agree backend' onValue onCall node.kind)
    (settled : ∀ node ∈ graph.postorder root.id, node.kind.isValue = true →
      onValue (graph.body backend settle node) (graph.body backend' settle' node) →
      onValue (settle node (graph.body backend settle node))
        (settle' node (graph.body backend' settle' node))) :
    graph.ImagesAgree backend settle backend' settle' onValue onCall root := by
  -- The motive speaks of an id, so that it can be applied to operands as they are listed.
  refine wf.induction (motive := fun id => ∀ node ∈ graph.nodes, node.id = id →
    (∀ other ∈ graph.postorder id, backend.Agree backend' onValue onCall other.kind) →
    (∀ other ∈ graph.postorder id, other.kind.isValue = true →
      onValue (graph.body backend settle other) (graph.body backend' settle' other) →
      onValue (settle other (graph.body backend settle other))
        (settle' other (graph.body backend' settle' other))) →
    graph.ImagesAgree backend settle backend' settle' onValue onCall node)
    ?_ inside root inside rfl agree settled
  intro node inside ih other otherInside same agree settled
  cases wf.eq_of_id otherInside inside same
  have met : node ∈ graph.postorder node.id := by
    rw [wf.postorder_eq inside]
    exact List.mem_append_right _ (List.mem_singleton_self _)
  have deeper {id : NodeId} (isOperand : id ∈ node.kind.operands) {other : Node}
      (below : other ∈ graph.postorder id) : other ∈ graph.postorder node.id := by
    rw [wf.postorder_eq inside]
    exact List.mem_append_left _ (List.mem_flatMap.2 ⟨id, isOperand, below⟩)
  obtain ⟨values, calls⟩ := wf.operands_agree settle' inside fun operand operandInside isOperand =>
    ih operand.id isOperand operand operandInside rfl
      (fun other below => agree other (deeper isOperand below))
      fun other below => settled other (deeper isOperand below)
  constructor
  · intro isValue
    rw [wf.image_eq inside, wf.image_eq inside]
    exact settled node met isValue ((agree node met).value isValue _ _ _ _ values calls)
  · intro isCall
    rw [wf.callImage_eq inside, wf.callImage_eq inside]
    exact (agree node met).call isCall _ _ values

theorem WellFormed.body_agree (wf : graph.WellFormed) {root : Node} (inside : root ∈ graph.nodes)
    (isValue : root.kind.isValue = true)
    (agree : ∀ node ∈ graph.postorder root.id, backend.Agree backend' onValue onCall node.kind)
    (settled : ∀ id ∈ root.kind.operands, ∀ node ∈ graph.postorder id,
      node.kind.isValue = true →
      onValue (graph.body backend settle node) (graph.body backend' settle' node) →
      onValue (settle node (graph.body backend settle node))
        (settle' node (graph.body backend' settle' node))) :
    onValue (graph.body backend settle root) (graph.body backend' settle' root) := by
  rw [wf.postorder_eq inside] at agree
  obtain ⟨values, calls⟩ := wf.operands_agree settle' inside fun operand operandInside isOperand =>
    wf.images_agree settle' operandInside
      (fun node below => agree node (List.mem_append_left _
        (List.mem_flatMap.2 ⟨_, isOperand, below⟩)))
      (settled operand.id isOperand)
  exact (agree root (List.mem_append_right _ (List.mem_singleton_self _))).value isValue
    _ _ _ _ values calls

end

/-- What is kept of a node that was rendered, for the nodes that use it. -/
def kept (backend : Backend ε κ) (settle : Node → ε → ε) (graph : Graph) (node : Node) :
    Rendered ε κ :=
  if node.kind.isValue then .value (graph.image backend settle node.id)
  else .call (graph.callImage backend settle node.id)

def results (backend : Backend ε κ) (settle : Node → ε → ε) (graph : Graph) (done : List Node) :
    Results ε κ :=
  (done.map fun node => (node.id, graph.kept backend settle node)).reverse

namespace Completed

variable {done : List Node} (completed : graph.Completed done) (wf : graph.WellFormed)

include completed wf

theorem lookup_results {node : Node} (member : node ∈ done) :
    (graph.results backend settle done).lookup node.id =
      some (graph.kept backend settle node) := by
  apply List.lookup_of_mem
  · have distinct : (done.map (·.id)).Nodup :=
      List.Nodup.map_on (fun a ha b hb same =>
        wf.eq_of_id (completed.inside ha) (completed.inside hb) same) completed.nodup
    simpa [results, Function.comp_def] using distinct
  · rw [results, List.mem_reverse]
    exact List.mem_map.2 ⟨node, member, rfl⟩

variable {σ : Type} {traversal : Traversal ε κ σ}
  (same : traversal.results = graph.results backend settle done)

include same

theorem value_eq {node : Node} (member : node ∈ done) (isValue : node.kind.isValue = true) :
    traversal.value graph node.id = .ok (graph.image backend settle node.id) := by
  simp [Traversal.value, Traversal.cached, same, completed.lookup_results wf member, kept, isValue]

theorem call_eq {node : Node} (member : node ∈ done) (isCall : node.kind.isValue = false) :
    traversal.call graph node.id = .ok (graph.callImage backend settle node.id) := by
  simp [Traversal.call, Traversal.cachedCall, same, completed.lookup_results wf member, kept,
    isCall]

/-- A node whose operands are done is rendered as plain recursion renders it. -/
theorem node_eq {node : Node} (inside : node ∈ graph.nodes)
    (operands : ∀ id ∈ node.kind.operands, ∃ operand ∈ done, operand.id = id) :
    backend.node (traversal.value graph) (traversal.call graph) node.kind =
      .ok (backend.renderedOf (graph.image backend settle) (graph.callImage backend settle)
        node.kind) := by
  refine Backend.node_eq ?_ ?_
  · intro id member
    obtain ⟨operand, isDone, rfl⟩ := operands id (NodeKind.mem_operands.2 (Or.inl member))
    obtain ⟨other, otherInside, same', isValue⟩ := wf.values node inside operand.id member
    cases wf.eq_of_id otherInside (completed.inside isDone) same'
    exact completed.value_eq wf same isDone isValue
  · intro id member
    obtain ⟨operand, isDone, rfl⟩ := operands id (NodeKind.mem_operands.2 (Or.inr member))
    obtain ⟨other, otherInside, same', isCall⟩ := wf.calls node inside operand.id member
    cases wf.eq_of_id otherInside (completed.inside isDone) same'
    exact completed.call_eq wf same isDone isCall

theorem cached_iff {id : NodeId} {value : ε} : traversal.cached id = some value ↔
    ∃ node ∈ done, node.id = id ∧ node.kind.isValue = true ∧
      graph.image backend settle id = value := by
  constructor
  · intro isCached
    unfold Traversal.cached at isCached
    split at isCached
    · rename_i found
      cases isCached
      rw [same] at found
      obtain ⟨before, after, parts, _⟩ := List.lookup_eq_some_iff.1 found
      have listed : (id, Rendered.value value) ∈ graph.results backend settle done := by
        simp [parts]
      rw [results, List.mem_reverse] at listed
      obtain ⟨node, member, isKept⟩ := List.mem_map.1 listed
      simp only [Prod.mk.injEq, kept] at isKept
      obtain ⟨rfl, isKept⟩ := isKept
      split at isKept
      · rename_i isValue
        cases isKept
        exact ⟨node, member, rfl, isValue, rfl⟩
      · cases isKept
    · cases isCached
  · rintro ⟨node, member, rfl, isValue, rfl⟩
    simp [Traversal.cached, same, completed.lookup_results wf member, kept, isValue]

end Completed

end Graph

end QueryGraph
