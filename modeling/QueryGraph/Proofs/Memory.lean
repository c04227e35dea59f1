import QueryGraph.Proofs.Images
import QueryGraph.Render.Tree

namespace QueryGraph

namespace Backend

variable {ε κ : Type} {backend : Backend ε κ}

theorem mapM_congr {α β : Type} {f g : α → Except RenderError β} {items : List α}
    (same : ∀ item ∈ items, f item = g item) : items.mapM f = items.mapM g := by
  induction items with
  | nil => rfl
  | cons first rest ih =>
    rw [List.mapM_cons, List.mapM_cons, same first List.mem_cons_self,
      ih fun item member => same item (List.mem_cons_of_mem _ member)]

theorem entries_congr {value value' : NodeId → Except RenderError ε} {pairs : Entries NodeId}
    (same : ∀ id ∈ Entries.values pairs, value id = value' id) :
    entries value pairs = entries value' pairs := by
  induction pairs with
  | nil => rfl
  | cons first rest ih =>
    rw [entries, entries, same first.2 List.mem_cons_self,
      ih fun id member => same id (List.mem_cons_of_mem _ member)]

theorem node_congr {kind : NodeKind} {value value' : NodeId → Except RenderError ε}
    {call call' : NodeId → Except RenderError κ}
    (values : ∀ id ∈ kind.valueOperands, value id = value' id)
    (calls : ∀ id ∈ kind.callOperands, call id = call' id) :
    backend.node value call kind = backend.node value' call' kind := by
  cases kind with
  | constant | «variable» | placeholder => rfl
  | list ids =>
    have ids' : ids.mapM value = ids.mapM value' := mapM_congr values
    rw [node, node, ids']
  | dict pairs | call _ _ pairs => rw [node, node, entries_congr values]
  | pipeline base steps =>
    have steps' : steps.mapM call = steps.mapM call' := mapM_congr calls
    rw [node, node, values base List.mem_cons_self, steps']
  | binary | lookup | table | conditional =>
    simp only [NodeKind.valueOperands, NodeKind.operands, List.forall_mem_cons] at values
    simp only [node, values]

end Backend

namespace Graph

variable {ε κ : Type} {backend : Backend ε κ} {graph : Graph}

/-- What an id comes to as a value, given what the nodes come to. -/
def asValue (graph : Graph) (below : NodeId → Except RenderError (Rendered ε κ)) (id : NodeId) :
    Except RenderError ε := do
  graph.checkValue id
  match ← below id with
  | .value value => return value
  | .call _ => throw (graph.notAValue id)

def asCall (graph : Graph) (below : NodeId → Except RenderError (Rendered ε κ)) (id : NodeId) :
    Except RenderError κ := do
  graph.checkCall id
  match ← below id with
  | .call call => return call
  | .value _ => throw (graph.notACall id)

/-- What a node comes to when nothing is remembered: each operand is gone into again wherever it is
used. -/
def plain (backend : Backend ε κ) (graph : Graph) : NodeId → Except RenderError (Rendered ε κ) :=
  graph.recurse (.error .noRoots) fun node below =>
    backend.node (graph.asValue below) (graph.asCall below) node.kind

theorem plain_local : Local fun (node : Node) below =>
    backend.node (graph.asValue below) (graph.asCall below) node.kind := by
  intro node f g same
  refine Backend.node_congr ?_ ?_
  · intro id member
    rw [asValue, asValue, same id (NodeKind.mem_operands.2 (Or.inl member))]
  · intro id member
    rw [asCall, asCall, same id (NodeKind.mem_operands.2 (Or.inr member))]

theorem WellFormed.plain_eq (wf : graph.WellFormed) {node : Node} (inside : node ∈ graph.nodes) :
    graph.plain backend node.id = backend.node (graph.asValue (graph.plain backend))
      (graph.asCall (graph.plain backend)) node.kind :=
  wf.recurse_eq plain_local inside

theorem WellFormed.checkValue_iff (wf : graph.WellFormed) {id : NodeId} :
    graph.checkValue id = .ok () ↔
      ∃ node ∈ graph.nodes, node.id = id ∧ node.kind.isValue = true := by
  unfold checkValue
  constructor
  · intro checked
    split at checked
    · rename_i node found
      obtain ⟨inside, same⟩ := mem_of_find? found
      split at checked
      · rename_i isValue
        exact ⟨node, inside, same, isValue⟩
      · cases checked
    · cases checked
  · rintro ⟨node, inside, rfl, isValue⟩
    simp [wf.find?_eq_some.2 ⟨inside, rfl⟩, isValue]

theorem WellFormed.checkCall_iff (wf : graph.WellFormed) {id : NodeId} :
    graph.checkCall id = .ok () ↔
      ∃ node ∈ graph.nodes, node.id = id ∧ node.kind.isValue = false := by
  unfold checkCall
  constructor
  · intro checked
    split at checked
    · rename_i node found
      obtain ⟨inside, same⟩ := mem_of_find? found
      split at checked
      · cases checked
      · rename_i isCall
        exact ⟨node, inside, same, Bool.not_eq_true _ ▸ isCall⟩
    · cases checked
  · rintro ⟨node, inside, rfl, isCall⟩
    simp [wf.find?_eq_some.2 ⟨inside, rfl⟩, isCall]

/-- What every value is and what every call is when each rendering stays where it is. -/
abbrev plainImage (backend : Backend ε κ) (graph : Graph) : NodeId → ε :=
  graph.image backend fun _ value => value

abbrev plainCall (backend : Backend ε κ) (graph : Graph) : NodeId → κ :=
  graph.callImage backend fun _ value => value

section

variable {below : NodeId → Except RenderError (Rendered ε κ)} {node : Node}

theorem WellFormed.asValue_eq (wf : graph.WellFormed) (inside : node ∈ graph.nodes)
    (isValue : node.kind.isValue = true)
    (comes : below node.id = .ok (graph.kept backend (fun _ value => value) node)) :
    graph.asValue below node.id = .ok (graph.plainImage backend node.id) := by
  simp [asValue, wf.checkValue_iff.2 ⟨node, inside, rfl, isValue⟩, comes, kept, isValue]

theorem WellFormed.asCall_eq (wf : graph.WellFormed) (inside : node ∈ graph.nodes)
    (isCall : node.kind.isValue = false)
    (comes : below node.id = .ok (graph.kept backend (fun _ value => value) node)) :
    graph.asCall below node.id = .ok (graph.plainCall backend node.id) := by
  simp [asCall, wf.checkCall_iff.2 ⟨node, inside, rfl, isCall⟩, comes, kept, isCall]

end

/-- Every node comes to what is kept of it. -/
theorem WellFormed.plain_kept (wf : graph.WellFormed) {node : Node} (inside : node ∈ graph.nodes) :
    graph.plain backend node.id = .ok (graph.kept backend (fun _ value => value) node) := by
  refine wf.induction (motive := fun id => ∀ node ∈ graph.nodes, node.id = id →
    graph.plain backend id = .ok (graph.kept backend (fun _ value => value) node))
    ?_ inside node inside rfl
  intro node inside ih other otherInside same
  cases wf.eq_of_id otherInside inside same
  have values : ∀ id ∈ node.kind.valueOperands,
      graph.asValue (graph.plain backend) id = .ok (graph.plainImage backend id) := by
    intro id member
    obtain ⟨operand, operandInside, rfl, isValue⟩ := wf.values node inside id member
    exact wf.asValue_eq operandInside isValue
      (ih operand.id (NodeKind.mem_operands.2 (Or.inl member)) operand operandInside rfl)
  have calls : ∀ id ∈ node.kind.callOperands,
      graph.asCall (graph.plain backend) id = .ok (graph.plainCall backend id) := by
    intro id member
    obtain ⟨operand, operandInside, rfl, isCall⟩ := wf.calls node inside id member
    exact wf.asCall_eq operandInside isCall
      (ih operand.id (NodeKind.mem_operands.2 (Or.inr member)) operand operandInside rfl)
  rw [wf.plain_eq inside, Backend.node_eq values calls, kept, wf.image_eq inside,
    wf.callImage_eq inside]
  rfl

end Graph

/-- What can be asked of a pass. -/
inductive Request where
  | value (id : NodeId)
  | call (id : NodeId)

def Request.id : Request → NodeId
  | value id | call id => id

/-- Whether the id is that of a node that can be asked for in this way. -/
def Request.check (graph : Graph) : Request → Except RenderError Unit
  | value id => graph.checkValue id
  | call id => graph.checkCall id

/-- What is answered to a request when nothing is remembered. -/
def Graph.answer {ε κ : Type} (backend : Backend ε κ) (graph : Graph) :
    Request → Except RenderError (Rendered ε κ)
  | .value id => (graph.asValue (graph.plain backend) id).map .value
  | .call id => (graph.asCall (graph.plain backend) id).map .call

namespace Traversal

variable {ε κ : Type}

/-- Asks for a node, with every rendering left where it is. After a request that fails the pass goes
on as it was. -/
def ask (backend : Backend ε κ) (graph : Graph) (traversal : Traversal ε κ Unit) :
    Request → Except RenderError (Rendered ε κ) × Traversal ε κ Unit
  | .value id =>
    match traversal.visit backend inline graph id with
    | .ok (value, traversal) => (.ok (.value value), traversal)
    | .error error => (.error error, traversal)
  | .call id =>
    match traversal.visitCall backend inline graph id with
    | .ok (call, traversal) => (.ok (.call call), traversal)
    | .error error => (.error error, traversal)

/-- Makes requests one after the other. -/
def askAll (backend : Backend ε κ) (graph : Graph) (traversal : Traversal ε κ Unit) :
    List Request → List (Except RenderError (Rendered ε κ)) × Traversal ε κ Unit
  | [] => ([], traversal)
  | request :: rest =>
    let (reply, traversal) := traversal.ask backend graph request
    let (replies, traversal) := traversal.askAll backend graph rest
    (reply :: replies, traversal)

end Traversal

namespace Graph

variable {ε κ : Type} {backend : Backend ε κ} {graph : Graph} {done : List Node}

/-- The state of a pass that has rendered nodes and left each where it is. -/
def memory (backend : Backend ε κ) (graph : Graph) (done : List Node) : Traversal ε κ Unit :=
  ⟨done, graph.results backend (fun _ value => value) done, ()⟩

theorem results_memory (backend : Backend ε κ) (graph : Graph) (done : List Node) :
    (graph.memory backend done).results = graph.results backend (fun _ value => value) done :=
  rfl

theorem WellFormed.complete_memory (wf : graph.WellFormed) (completed : graph.Completed done)
    {node : Node} (inside : node ∈ graph.nodes)
    (operands : ∀ id ∈ node.kind.operands, ∃ operand ∈ done, operand.id = id) :
    (graph.memory backend done).complete backend inline graph node =
      .ok (graph.memory backend (done ++ [node])) := by
  have rendered := completed.node_eq wf (results_memory backend graph done) inside operands
  rw [Traversal.complete, rendered, Outcome.ok_bind]
  cases isValue : node.kind.isValue with
  | true =>
    simp [Backend.renderedOf, isValue, inline, memory, results, kept, wf.image_eq inside, body]
  | false =>
    simp [Backend.renderedOf, isValue, memory, results, kept, wf.callImage_eq inside]

theorem WellFormed.advance_memory (wf : graph.WellFormed) (completed : graph.Completed done)
    (id : NodeId) : (graph.memory backend done).advance backend inline graph id =
      .ok (graph.memory backend (graph.walkTo done id)) := by
  have completeAll : ∀ (new done : List Node), graph.Completed (done ++ new) →
      new.foldlM (Traversal.complete backend inline graph) (graph.memory backend done) =
        .ok (graph.memory backend (done ++ new)) := by
    intro new
    induction new with
    | nil => intro done _; simp
    | cons node rest ih =>
      intro done completed
      obtain ⟨before, inside, _, operands⟩ := completed.cut rfl
      have whole : done ++ node :: rest = done ++ [node] ++ rest := List.append_cons ..
      rw [List.foldlM_cons, wf.complete_memory before inside operands, Outcome.ok_bind, whole]
      exact ih (done ++ [node]) (whole ▸ completed)
  have completed' := (wf.walkTo_eq id completed).1
  have parts := wf.walkTo_drop id completed
  have all := completeAll _ done (parts.symm ▸ completed')
  rw [parts] at all
  exact all

theorem WellFormed.mem_walkTo (wf : graph.WellFormed) (completed : graph.Completed done)
    {root node : Node} (inside : root ∈ graph.nodes) : node ∈ graph.walkTo done root.id ↔
      node ∈ done ∨ (node ∈ graph.nodes ∧ graph.Reaches root.id node.id) := by
  rw [(wf.walkTo_eq root.id completed).2, List.mem_eraseDups, List.mem_append,
    wf.mem_postorder inside]

/-- A request is answered as if nothing were remembered, and all that is on the way to the node is
remembered from then on. Only the id can be wrong with a request, and then nothing changes. -/
theorem WellFormed.ask_cases (wf : graph.WellFormed) (backend : Backend ε κ)
    (completed : graph.Completed done) (request : Request) :
    (∃ root ∈ graph.nodes, root.id = request.id ∧ ∃ result,
      graph.answer backend request = .ok result ∧
      (graph.memory backend done).ask backend graph request =
        (.ok result, graph.memory backend (graph.walkTo done root.id))) ∨
    ∃ error, graph.answer backend request = .error error ∧
      (graph.memory backend done).ask backend graph request =
        (.error error, graph.memory backend done) := by
  have reached {root : Node} (inside : root ∈ graph.nodes) :
      root ∈ graph.walkTo done root.id :=
    (wf.mem_walkTo completed inside).2 (Or.inr ⟨inside, .refl _⟩)
  cases request with
  | value id =>
    cases checked : graph.checkValue id with
    | error error =>
      refine Or.inr ⟨error, ?_, ?_⟩
      · simp [answer, asValue, checked]
      · simp [Traversal.ask, Traversal.visit, checked]
    | ok =>
      obtain ⟨root, inside, rfl, isValue⟩ := wf.checkValue_iff.1 checked
      have value := (wf.walkTo_eq root.id completed).1.value_eq wf
        (results_memory backend graph _) (reached inside) isValue
      refine Or.inl ⟨root, inside, rfl, .value (graph.plainImage backend root.id), ?_, ?_⟩
      · rw [answer, wf.asValue_eq inside isValue (wf.plain_kept inside), Outcome.map_ok]
      · simp [Traversal.ask, Traversal.visit, checked, wf.advance_memory completed, value]
  | call id =>
    cases checked : graph.checkCall id with
    | error error =>
      refine Or.inr ⟨error, ?_, ?_⟩
      · simp [answer, asCall, checked]
      · simp [Traversal.ask, Traversal.visitCall, checked]
    | ok =>
      obtain ⟨root, inside, rfl, isCall⟩ := wf.checkCall_iff.1 checked
      have call := (wf.walkTo_eq root.id completed).1.call_eq wf
        (results_memory backend graph _) (reached inside) isCall
      refine Or.inl ⟨root, inside, rfl, .call (graph.plainCall backend root.id), ?_, ?_⟩
      · rw [answer, wf.asCall_eq inside isCall (wf.plain_kept inside), Outcome.map_ok]
      · simp [Traversal.ask, Traversal.visitCall, checked, wf.advance_memory completed, call]

theorem WellFormed.answer_error_iff (wf : graph.WellFormed) {request : Request}
    {error : RenderError} :
    graph.answer backend request = .error error ↔ request.check graph = .error error := by
  cases request with
  | value id =>
    cases checked : graph.checkValue id with
    | error error => simp [answer, asValue, Request.check, checked]
    | ok =>
      obtain ⟨node, inside, rfl, isValue⟩ := wf.checkValue_iff.1 checked
      simp [answer, wf.asValue_eq inside isValue (wf.plain_kept inside), Request.check, checked]
  | call id =>
    cases checked : graph.checkCall id with
    | error error => simp [answer, asCall, Request.check, checked]
    | ok =>
      obtain ⟨node, inside, rfl, isCall⟩ := wf.checkCall_iff.1 checked
      simp [answer, wf.asCall_eq inside isCall (wf.plain_kept inside), Request.check, checked]

/-- Whether a request that can be answered is about a node that leads to another one. -/
def Fetches (backend : Backend ε κ) (graph : Graph) (request : Request) (id : NodeId) : Prop :=
  (∃ result, graph.answer backend request = .ok result) ∧ graph.Reaches request.id id

theorem WellFormed.askAll_memory (wf : graph.WellFormed) (backend : Backend ε κ)
    (completed : graph.Completed done) (requests : List Request) : ∃ done', graph.Completed done' ∧
      (graph.memory backend done).askAll backend graph requests =
        (requests.map (graph.answer backend), graph.memory backend done') ∧
      ∀ node, node ∈ done' ↔ node ∈ done ∨
        (node ∈ graph.nodes ∧ ∃ request ∈ requests, graph.Fetches backend request node.id) := by
  induction requests generalizing done with
  | nil => exact ⟨done, completed, rfl, by simp⟩
  | cons request rest ih =>
    rcases wf.ask_cases backend completed request with
      ⟨root, inside, same, result, answered, asked⟩ | ⟨error, failed, asked⟩
    · obtain ⟨done', completed', others, mem⟩ := ih (wf.walkTo_eq root.id completed).1
      refine ⟨done', completed', ?_, fun node => ?_⟩
      · simp only [Traversal.askAll, asked, List.map_cons, answered, others]
      · rw [mem, wf.mem_walkTo completed inside, same, List.exists_mem_cons_iff, Fetches, answered]
        simp [and_or_left, or_assoc]
    · obtain ⟨done', completed', others, mem⟩ := ih completed
      refine ⟨done', completed', ?_, fun node => ?_⟩
      · simp only [Traversal.askAll, asked, List.map_cons, failed, others]
      · rw [mem, List.exists_mem_cons_iff, Fetches, failed]
        simp

theorem WellFormed.answer_value_iff (wf : graph.WellFormed) {id : NodeId} {value : ε} :
    graph.answer backend (.value id) = .ok (.value value) ↔
      ∃ node ∈ graph.nodes, node.id = id ∧ node.kind.isValue = true ∧
        graph.plainImage backend id = value := by
  constructor
  · intro answered
    obtain ⟨value', asValue', same⟩ := Outcome.map_eq_ok.1 answered
    cases same
    obtain ⟨_, checked, _⟩ := Outcome.bind_eq_ok.1 asValue'
    obtain ⟨node, inside, rfl, isValue⟩ := wf.checkValue_iff.1 checked
    rw [wf.asValue_eq inside isValue (wf.plain_kept inside)] at asValue'
    exact ⟨node, inside, rfl, isValue, Except.ok.inj asValue'⟩
  · rintro ⟨node, inside, rfl, isValue, rfl⟩
    rw [answer, wf.asValue_eq inside isValue (wf.plain_kept inside), Outcome.map_ok]

/-- Whatever a pass is asked for and in whatever order, failures included, it answers as if nothing
were remembered; what fails does so before anything is rendered. After that the pass has an id's
value if and only if the id is that of a value on the way to a node that was asked for with success,
and what it has is what plain recursion comes to. It has no operator call as a value. -/
theorem Built.requests_plain (built : graph.Built) (backend : Backend ε κ)
    (requests : List Request) {replies : List (Except RenderError (Rendered ε κ))}
    {final : Traversal ε κ Unit}
    (asked : (Traversal.start ()).askAll backend graph requests = (replies, final)) :
    (∀ node ∈ graph.nodes, graph.plain backend node.id =
      backend.node (graph.asValue (graph.plain backend)) (graph.asCall (graph.plain backend))
        node.kind) ∧
    replies = requests.map (graph.answer backend) ∧
    (∀ request error, graph.answer backend request = .error error ↔
      request.check graph = .error error) ∧
    (∀ id value, final.cached id = some value ↔
      graph.answer backend (.value id) = .ok (.value value) ∧
        ∃ request ∈ requests, graph.Fetches backend request id) ∧
    ∀ node ∈ graph.nodes, node.kind.isValue = false → final.cached node.id = none := by
  have wf := built.wellFormed
  obtain ⟨done, completed, asked', mem⟩ := wf.askAll_memory backend .nil requests
  have start : Traversal.start () = graph.memory backend [] := rfl
  rw [start, asked'] at asked
  cases asked
  have cached_iff (id : NodeId) (value : ε) :
      (graph.memory backend done).cached id = some value ↔
        ∃ node ∈ done, node.id = id ∧ node.kind.isValue = true ∧
          graph.plainImage backend id = value :=
    completed.cached_iff wf (results_memory backend graph done)
  refine ⟨fun node inside => wf.plain_eq inside, rfl, fun _ _ => wf.answer_error_iff,
    fun id value => ?_, ?_⟩
  · rw [cached_iff, wf.answer_value_iff]
    constructor
    · rintro ⟨node, member, rfl, isValue, image⟩
      rcases (mem node).1 member with isEmpty | ⟨inside, fetched⟩
      · cases isEmpty
      · exact ⟨⟨node, inside, rfl, isValue, image⟩, fetched⟩
    · rintro ⟨⟨node, inside, rfl, isValue, image⟩, fetched⟩
      exact ⟨node, (mem node).2 (Or.inr ⟨inside, fetched⟩), rfl, isValue, image⟩
  · intro node inside isCall
    rw [Option.eq_none_iff_forall_ne_some]
    intro value isCached
    obtain ⟨other, member, same, isValue, _⟩ := (cached_iff node.id value).1 isCached
    rw [wf.eq_of_id (completed.inside member) inside same, isCall] at isValue
    cases isValue

/-- A call that is taken for a value, a value that is taken for a call, and an id of no node do not
get in the way of the others. -/
theorem sample_requests_plain : ∃ replies final,
    (Traversal.start ()).askAll Backend.tree sample
      [.value 6, .value 5, .call 7, .value 10, .call 6, .value 5] = (replies, final) ∧
    replies = [.value 6, .value 5, .call 7, .value 10, .call 6, .value 5].map
      (sample.answer Backend.tree) ∧
    final.cached 5 = some (.binary (.lookup .placeholder "price") ">" (.atom (.int 5))) ∧
    final.cached 6 = none ∧ final.cached 7 = none := by
  have ⟨replies, final, asked⟩ : ∃ replies final, (Traversal.start ()).askAll Backend.tree sample
      [.value 6, .value 5, .call 7, .value 10, .call 6, .value 5] = (replies, final) := ⟨_, _, rfl⟩
  obtain ⟨_, plain, _, _, calls⟩ := built_sample.requests_plain Backend.tree _ asked
  refine ⟨replies, final, asked, plain, ?_, calls ⟨6, none, .call "std" "filter" [("where", 5)], 1⟩
    (by decide) rfl, ?_⟩
  · cases asked
    rfl
  · cases asked
    rfl

end Graph

end QueryGraph
