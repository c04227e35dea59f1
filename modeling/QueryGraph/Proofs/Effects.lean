import QueryGraph.Proofs.FanOut
import QueryGraph.Proofs.Interleaving

namespace QueryGraph

theorem Node.usedBy_eq (kind : NodeKind) (node : Node) : node.usedBy kind =
    { node with fanOut := node.fanOut + if node.id ∈ kind.operands then 1 else 0 } := by
  rw [← Node.usedBy_fanOut]
  unfold usedBy
  split <;> rfl

theorem Builder.insert_eq (b : Builder) (id : NodeId) (kind : NodeKind) : b.insert id kind =
    { b with
      graph := ⟨b.graph.nodes.map (fun node => { node with
        fanOut := node.fanOut + if node.id ∈ kind.operands then 1 else 0 }) ++
        [⟨id, none, kind, 0⟩]⟩ } := by
  simp only [← Node.usedBy_eq]
  rfl

theorem Node.withName_of_ne {id : NodeId} {name : String} {node : Node} (other : node.id ≠ id) :
    node.withName id name = node :=
  if_neg other

theorem Graph.WellFormed.map_withName {graph : Graph} (wf : graph.WellFormed)
    {before after : List Node} {node : Node} (parts : graph.nodes = before ++ node :: after) (name : String) :
    graph.nodes.map (·.withName node.id name) =
      before ++ { node with name := some name } :: after := by
  have distinct : (graph.nodes.map (·.id)).Nodup := wf.ascending.imp Nat.ne_of_lt
  rw [parts, List.map_append, List.map_cons, List.nodup_middle, List.nodup_cons, List.mem_append]
    at distinct
  obtain ⟨alone, _⟩ := distinct
  have others : ∀ other, other ∈ before ∨ other ∈ after → other.withName node.id name = other := by
    intro other member
    refine Node.withName_of_ne fun same => alone ?_
    exact member.imp (fun h => same ▸ List.mem_map_of_mem h) fun h => same ▸ List.mem_map_of_mem h
  have before' : before.map (·.withName node.id name) = before :=
    (List.map_congr_left fun other h => others other (Or.inl h)).trans (List.map_id _)
  have after' : after.map (·.withName node.id name) = after :=
    (List.map_congr_left fun other h => others other (Or.inr h)).trans (List.map_id _)
  have target : node.withName node.id name = { node with name := some name } := if_pos rfl
  rw [parts, List.map_append, List.map_cons, before', after', target]

namespace Session

variable {session : Session}

/-- What a call on the builder of a slot can lead to. -/
inductive Effect (session : Session) : Step → Reply × Session → Prop where
  | refused {call : Step} {index : Nat} (notOpen : session.builder? index = none)
      (about : call.slot? = some index) : Effect session call (.refused, session)
  | failed {call : Step} (error : BuildError) : Effect session call (.buildError error, session)
  /-- A node is added at the end. Nothing else changes but for the counts of its operands, each of
  which is a single node. -/
  | made {index : Nat} {request : NodeKind} {slot : Slot} {b : Builder}
      (found : session.slots[index]? = some slot) (isOpen : slot.builder? = some b)
      (operands : ∀ id ∈ request.merged.operands, ∃! node, node ∈ b.graph.nodes ∧ node.id = id) :
      Effect session (.make index request) (.node session.nextId,
        { session with
          slots := session.slots.set index (slot.withBuilder { b with
            graph := ⟨b.graph.nodes.map (fun node => { node with
              fanOut := node.fanOut + if node.id ∈ request.merged.operands then 1 else 0 }) ++
              [⟨session.nextId, none, request.merged, 0⟩]⟩ })
          nextId := session.nextId + 1 })
  /-- Nothing changes but the name of a single node that had none. -/
  | named {index : Nat} {name : String} {slot : Slot} {b : Builder} {before after : List Node}
      {node : Node} (found : session.slots[index]? = some slot) (isOpen : slot.builder? = some b)
      (parts : b.graph.nodes = before ++ node :: after) (unnamed : node.name = none) :
      Effect session (.setName index node.id name) (.node node.id,
        { session with
          slots := session.slots.set index (slot.withBuilder { b with
            graph := ⟨before ++ { node with name := some name } :: after⟩ }) })

theorem make_effect (all : session.All fun next b => b.graph.WellFormedBelow next) (index : Nat)
    (request : NodeKind) :
    session.Effect (.make index request) (session.step (.make index request)) := by
  cases open? : session.builder? index with
  | none =>
    rw [step, call_closed open?]
    exact .refused open? rfl
  | some b =>
    by_cases admits : b.Admits request
    · obtain ⟨slot, found, isOpen, made⟩ := step_make open? admits
      have wf := ((all.slot found).builder isOpen).toWellFormed
      have operands : ∀ id ∈ request.merged.operands,
          ∃! node, node ∈ b.graph.nodes ∧ node.id = id := by
        intro id isOperand
        obtain ⟨node, inside, same⟩ :=
          Builder.exists_operand admits.accepts.values admits.accepts.calls isOperand
        refine ⟨node, ⟨inside, same⟩, ?_⟩
        rintro other ⟨otherInside, otherSame⟩
        exact wf.eq_of_id otherInside inside (otherSame.trans same.symm)
      rw [made, Builder.insert_eq]
      exact .made found isOpen operands
    · obtain ⟨error, failed⟩ := step_make_fails open? admits
      rw [failed]
      exact .failed error

theorem setName_effect (all : session.All fun next b => b.graph.WellFormedBelow next)
    (index : Nat) (id : NodeId) (name : String) :
    session.Effect (.setName index id name) (session.step (.setName index id name)) := by
  cases open? : session.builder? index with
  | none =>
    rw [step, call_closed open?]
    exact .refused open? rfl
  | some b =>
    by_cases mayName : b.MayName id name
    · obtain ⟨slot, found, isOpen, named⟩ := step_setName open? mayName
      obtain ⟨node, isNode, _, unnamed⟩ := mayName.target
      have wf := ((all.slot found).builder isOpen).toWellFormed
      obtain ⟨inside, rfl⟩ := Graph.mem_of_find? isNode
      obtain ⟨before, after, parts⟩ := List.append_of_mem inside
      rw [named, Builder.withName, wf.map_withName parts]
      exact .named found isOpen parts unnamed
    · obtain ⟨error, failed⟩ := step_setName_fails open? mayName
      rw [failed]
      exact .failed error

/-- The steps of a course, each with the answer to it. -/
def transcript (session : Session) : List Step → List (Step × Reply)
  | [] => []
  | step :: rest => (step, (session.step step).1) :: ((session.step step).2).transcript rest

/-- Whether a step is a call on a builder that fails. -/
def failedCall : Step × Reply → Bool
  | (.make _ _, .buildError _) | (.setName _ _ _, .buildError _) => true
  | _ => false

/-- The steps of a course without the calls that fail. -/
def effective (session : Session) (steps : List Step) : List Step :=
  ((session.transcript steps).filter fun entry => !failedCall entry).map (·.1)

theorem call_of_failed {index : Nat} {call : BuildM NodeId} (atomic : call.Atomic)
    {error : BuildError} (failed : (session.call index call).1 = .buildError error) :
    (session.call index call).2 = session := by
  rcases session.call_cases index atomic with
    ⟨_, same⟩ | ⟨_, same⟩ | ⟨_, _, _, _, _, _, _, same⟩
  · rw [same]
  · rw [same]
  · rw [same] at failed
    cases failed

theorem step_of_failedCall {call : Step}
    (failed : failedCall (call, (session.step call).1) = true) :
    (session.step call).2 = session := by
  cases answer : (session.step call).1 with
  | buildError error =>
    cases call with
    | make index request => exact call_of_failed (BuildM.atomic_make request) answer
    | setName index id name => exact call_of_failed (BuildM.atomic_named id name) answer
    | _ => cases failed
  | _ =>
    rw [answer] at failed
    cases call <;> cases failed

theorem run_effective (session : Session) (steps : List Step) :
    session.run (session.effective steps) = session.run steps ∧
    session.transcript (session.effective steps) =
      (session.transcript steps).filter fun entry => !failedCall entry := by
  induction steps generalizing session with
  | nil => exact ⟨rfl, rfl⟩
  | cons first rest ih =>
    obtain ⟨ends, answers⟩ := ih (session.step first).2
    cases failed : failedCall (first, (session.step first).1) with
    | true =>
      have unchanged := step_of_failedCall failed
      have dropped : session.effective (first :: rest) = session.effective rest := by
        simp [effective, transcript, failed, unchanged]
      rw [unchanged] at ends answers
      rw [dropped, ends, answers, transcript, List.filter_cons, failed, unchanged]
      refine ⟨?_, rfl⟩
      rw [run, run, List.foldl_cons, unchanged]
    | false =>
      have kept : session.effective (first :: rest) =
          first :: (session.step first).2.effective rest := by
        simp [effective, transcript, failed]
      rw [kept, transcript, answers, transcript, List.filter_cons, failed]
      exact ⟨ends, rfl⟩

/-- A call that fails leaves the builder and the supply of ids as they were, whatever it had looked
at before. So a course comes to the same without the calls that fail: every other step gets the same
answer, and the same ids are given. A call that succeeds adds a single node, whose operands are
counted once more each, or gives a single node its name, and changes nothing else. -/
theorem calls_effective (steps : List Step) :
    (∀ request, (BuildM.make request).Atomic) ∧
    (∀ id name, (BuildM.setName id name).Atomic ∧ (BuildM.named id name).Atomic) ∧
    (start.run (start.effective steps) = start.run steps ∧
      start.transcript (start.effective steps) =
        (start.transcript steps).filter fun entry => !failedCall entry) ∧
    (∀ index request, (start.run steps).Effect (.make index request)
      ((start.run steps).step (.make index request))) ∧
    ∀ index id name, (start.run steps).Effect (.setName index id name)
      ((start.run steps).step (.setName index id name)) := by
  have all := Graph.all_wellFormed steps
  exact ⟨BuildM.atomic_make, fun id name => ⟨BuildM.atomic_setName id name,
    BuildM.atomic_named id name⟩, start.run_effective steps, make_effect all, setName_effect all⟩

/-- Calls that fail at the last element, at the second key, at the second step, at the operator and
at the name leave no trace. -/
example : start.effective [.openBuilder (some .standard), .make 0 (.constant (.int 5)),
    .make 0 (.call "std" "take" [("count", 1)]), .make 0 (.list [1, 1, 2]),
    .make 0 (.dict [("size", 1), ("1st", 1)]), .make 0 (.pipeline 1 [2, 1]),
    .make 0 (.call "std" "sort" [("by", 1)]), .setName 0 1 "table", .make 0 (.pipeline 1 [2])] =
    [.openBuilder (some .standard), .make 0 (.constant (.int 5)),
      .make 0 (.call "std" "take" [("count", 1)]), .make 0 (.pipeline 1 [2])] := by
  rfl

end Session

end QueryGraph
