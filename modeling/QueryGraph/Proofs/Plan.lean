import QueryGraph.Proofs.Walk
import QueryGraph.Render.Extraction

namespace QueryGraph

open Extraction

namespace Graph

/-- Whether an id is that of a value of the graph without a placeholder of its own. -/
def Renderable (graph : Graph) (capturing : List NodeId) (root : NodeId) : Prop :=
  ∃ node ∈ graph.nodes, node.id = root ∧ node.kind.isValue = true ∧ root ∉ capturing

theorem checkRoot_ok {graph : Graph} {capturing : List NodeId} {root : NodeId}
    (h : checkRoot graph capturing root = .ok ()) : graph.Renderable capturing root := by
  obtain ⟨_, isValue, free⟩ := Outcome.bind_eq_ok.1 h
  unfold checkValue at isValue
  cases found : graph.find? root with
  | none => simp [found] at isValue
  | some node =>
    obtain ⟨inside, rfl⟩ := mem_of_find? found
    refine ⟨node, inside, rfl, ?_, ?_⟩
    · rw [found] at isValue
      by_cases value : node.kind.isValue = true
      · exact value
      · simp [value] at isValue
    · intro captured
      simp [captured] at free

theorem checkRoots_ok {graph : Graph} {capturing roots : List NodeId}
    (h : checkRoots graph capturing roots = .ok ()) :
    ∀ root ∈ roots, graph.Renderable capturing root := by
  induction roots with
  | nil => nofun
  | cons root rest ih =>
    obtain ⟨_, checked, others⟩ := Outcome.bind_eq_ok.1 h
    intro other member
    rcases List.mem_cons.1 member with rfl | member
    · exact checkRoot_ok checked
    · exact ih others other member

end Graph

namespace Extraction.Plan

variable {ε κ : Type}

/-- Whether a node becomes a statement as soon as it is rendered. -/
def hoists (plan : Plan) (node : Node) : Bool :=
  plan.wants node && !plan.capturing.contains node.id

/-- What the nodes that use a node see of it. -/
def settle (plan : Plan) (backend : Backend ε κ) (node : Node) (body : ε) : ε :=
  if plan.hoists node then backend.reference (statementName plan.options node) else body

def names (plan : Plan) (hoisted : List Node) : List String :=
  hoisted.map (statementName plan.options)

/-- Adds a node to those that are statements. Names that are `taken` already are those of other
statements. -/
def add (plan : Plan) (taken : List String) (hoisted : List Node) (node : Node) :
    Except RenderError (List Node) :=
  let name := statementName plan.options node
  if (taken ++ plan.names hoisted).contains name then .error (.duplicateStatement name)
  else .ok (hoisted ++ [node])

/-- The nodes that are statements when one more node is rendered. -/
def enter (plan : Plan) (taken : List String) (hoisted : List Node) (node : Node) :
    Except RenderError (List Node) :=
  if !plan.wants node then .ok hoisted
  else if plan.capturing.contains node.id then
    match node.name with
    | some name => .error (.placeholderEscape (.statement name))
    | none => .ok hoisted
  else plan.add taken hoisted node

/-- The nodes that a pass has completed, and those of them that it made statements of. -/
structure Progress where
  done : List Node
  hoisted : List Node

/-- Completes the nodes on the way to a root. -/
def pass (plan : Plan) (graph : Graph) (taken : List String) (progress : Progress)
    (root : NodeId) : Except RenderError Progress := do
  let done := graph.walkTo progress.done root
  let hoisted ← (done.drop progress.done.length).foldlM (plan.enter taken) progress.hoisted
  return ⟨done, hoisted⟩

/-- Completes the nodes on the way to a root, and sees to it that the root is a statement. -/
def passRoot (plan : Plan) (graph : Graph) (taken : List String) (progress : Progress)
    (root : NodeId) : Except RenderError Progress := do
  let progress ← plan.pass graph taken progress root
  match graph.find? root with
  | none => throw (.unknownNode root)
  | some node =>
    if (progress.hoisted.map (·.id)).contains root then return progress
    else
      let hoisted ← plan.add taken progress.hoisted node
      return { progress with hoisted }

/-- Whether a pass goes on at a node: a node that is to become a statement, but cannot for the
placeholder that is part of it, must not have a name. -/
def Admits (plan : Plan) (node : Node) : Prop :=
  plan.wants node = true → node.id ∈ plan.capturing → node.name = none

theorem hoists_iff {plan : Plan} {node : Node} :
    plan.hoists node = true ↔ plan.wants node = true ∧ node.id ∉ plan.capturing := by
  simp [hoists]

theorem isNameable_of_hoists {plan : Plan} {node : Node} (hoists : plan.hoists node = true) :
    node.kind.isNameable = true := by
  have wants := (hoists_iff.1 hoists).1
  simp only [Plan.wants, Bool.and_eq_true] at wants
  exact wants.1

theorem isValue_of_hoists {plan : Plan} {node : Node} (hoists : plan.hoists node = true) :
    node.kind.isValue = true := by
  have nameable := isNameable_of_hoists hoists
  cases kind : node.kind <;> simp [kind, NodeKind.isNameable, NodeKind.isValue] at nameable ⊢

theorem admits_of_hoists {plan : Plan} {node : Node} (hoists : plan.hoists node = true) :
    plan.Admits node :=
  fun _ captured => absurd captured (hoists_iff.1 hoists).2

theorem add_ok {plan : Plan} {taken : List String} {hoisted hoisted' : List Node} {node : Node}
    (h : plan.add taken hoisted node = .ok hoisted') :
    hoisted' = hoisted ++ [node] ∧
      statementName plan.options node ∉ taken ++ plan.names hoisted := by
  simp only [add] at h
  split at h
  · cases h
  · rename_i fresh
    cases h
    exact ⟨rfl, by simpa using fresh⟩

theorem enter_ok {plan : Plan} {taken : List String} {hoisted hoisted' : List Node} {node : Node}
    (h : plan.enter taken hoisted node = .ok hoisted') :
    (plan.hoists node = true ∧ hoisted' = hoisted ++ [node] ∧
      statementName plan.options node ∉ taken ++ plan.names hoisted) ∨
    (plan.hoists node = false ∧ hoisted' = hoisted ∧ plan.Admits node) := by
  simp only [enter] at h
  split at h
  · rename_i unwanted
    cases h
    have stays : plan.wants node = false := by simpa using unwanted
    exact Or.inr ⟨by simp [hoists, stays], rfl, by simp [Admits, stays]⟩
  · rename_i wanted
    split at h
    · rename_i capturing
      split at h
      · cases h
      · rename_i unnamed
        cases h
        refine Or.inr ⟨?_, rfl, fun _ _ => unnamed⟩
        simpa [hoists] using fun _ => by simpa using capturing
    · rename_i free
      refine Or.inl ⟨hoists_iff.2 ⟨by simpa using wanted, by simpa using free⟩, add_ok h⟩

/-- Lists of nodes that are statements in an order in which each may refer to those before it. -/
inductive Admitted (plan : Plan) (graph : Graph) (taken : List String) : List Node → Prop where
  | nil : Admitted plan graph taken []
  | snoc {hoisted : List Node} {node : Node} (before : Admitted plan graph taken hoisted)
      (inside : node ∈ graph.nodes) (isValue : node.kind.isValue = true)
      (fresh : statementName plan.options node ∉ taken ++ plan.names hoisted)
      (below : ∀ id ∈ node.kind.operands, ∀ other ∈ graph.postorder id,
        plan.hoists other = true → other ∈ hoisted) :
      Admitted plan graph taken (hoisted ++ [node])

theorem Admitted.nodup {plan : Plan} {graph : Graph} {taken : List String} {hoisted : List Node}
    (admitted : plan.Admitted graph taken hoisted) (distinct : taken.Nodup) :
    (taken ++ plan.names hoisted).Nodup := by
  induction admitted with
  | nil => simpa [names] using distinct
  | snoc _ _ _ fresh _ ih =>
    rw [names, List.map_append, ← List.append_assoc]
    exact List.nodup_append_singleton ih fresh

theorem Admitted.distinct {plan : Plan} {graph : Graph} {taken : List String}
    {hoisted : List Node} (admitted : plan.Admitted graph taken hoisted) : hoisted.Nodup := by
  induction admitted with
  | nil => exact List.nodup_nil
  | snoc _ _ _ fresh _ ih =>
    exact List.nodup_append_singleton ih fun earlier =>
      fresh (List.mem_append_right _ (List.mem_map_of_mem earlier))

theorem Admitted.isValue {plan : Plan} {graph : Graph} {taken : List String}
    {hoisted : List Node} (admitted : plan.Admitted graph taken hoisted) {node : Node}
    (member : node ∈ hoisted) : node.kind.isValue = true := by
  induction admitted with
  | nil => cases member
  | snoc _ _ isValue _ _ ih =>
    rcases List.mem_append.1 member with member | isLast
    · exact ih member
    · rw [List.mem_singleton.1 isLast]
      exact isValue

theorem Admitted.of_append {plan : Plan} {graph : Graph} {taken : List String}
    {before after : List Node} (admitted : plan.Admitted graph taken (before ++ after)) :
    plan.Admitted graph taken before := by
  induction after using List.reverseRecOn with
  | nil => simpa using admitted
  | append_singleton after last ih =>
    rw [← List.append_assoc] at admitted
    generalize whole : before ++ after ++ [last] = hoisted at admitted
    cases admitted with
    | nil => simp at whole
    | snoc earlier _ _ _ _ =>
      obtain ⟨rfl, _⟩ := List.append_inj' whole rfl
      exact ih earlier

/-- What a pass makes sure of at every node. -/
structure Sound (plan : Plan) (graph : Graph) (taken : List String) (progress : Progress) :
    Prop where
  completed : graph.Completed progress.done
  settled : ∀ node ∈ progress.done, plan.hoists node = true → node ∈ progress.hoisted
  inside : ∀ node ∈ progress.hoisted, node ∈ progress.done
  admitted : plan.Admitted graph taken progress.hoisted
  admits : ∀ node ∈ progress.done, plan.Admits node

section

variable {plan : Plan} {graph : Graph} {taken : List String}

theorem Sound.start : plan.Sound graph taken ⟨[], []⟩ :=
  ⟨.nil, nofun, nofun, .nil, nofun⟩

theorem Sound.below {done hoisted : List Node} (sound : plan.Sound graph taken ⟨done, hoisted⟩)
    (wf : graph.WellFormed) {node : Node}
    (operands : ∀ id ∈ node.kind.operands, ∃ operand ∈ done, operand.id = id) :
    ∀ id ∈ node.kind.operands, ∀ other ∈ graph.postorder id,
      plan.hoists other = true → other ∈ hoisted := by
  intro id isOperand other met hoists
  obtain ⟨operand, member, rfl⟩ := operands id isOperand
  exact sound.settled other (sound.completed.mem_of_met wf member met) hoists

theorem Sound.add {progress : Progress} (sound : plan.Sound graph taken progress)
    (wf : graph.WellFormed) {node : Node} (member : node ∈ progress.done)
    (isValue : node.kind.isValue = true) {hoisted : List Node}
    (h : plan.add taken progress.hoisted node = .ok hoisted) :
    plan.Sound graph taken { progress with hoisted } := by
  obtain ⟨rfl, fresh⟩ := add_ok h
  refine ⟨sound.completed, ?_, ?_, ?_, sound.admits⟩
  · intro other member hoists
    exact List.mem_append_left _ (sound.settled other member hoists)
  · intro other isHoisted
    rcases List.mem_append.1 isHoisted with isHoisted | isLast
    · exact sound.inside other isHoisted
    · rw [List.mem_singleton.1 isLast]
      exact member
  · exact sound.admitted.snoc (sound.completed.inside member) isValue fresh
      (sound.below wf fun id isOperand => sound.completed.operand member isOperand)

theorem Sound.enter {done hoisted : List Node} (sound : plan.Sound graph taken ⟨done, hoisted⟩)
    (wf : graph.WellFormed) {node : Node} (inside : node ∈ graph.nodes) (fresh : node ∉ done)
    (operands : ∀ id ∈ node.kind.operands, ∃ operand ∈ done, operand.id = id)
    {hoisted' : List Node} (h : plan.enter taken hoisted node = .ok hoisted') :
    plan.Sound graph taken ⟨done ++ [node], hoisted'⟩ ∧
      hoisted' = hoisted ++ [node].filter plan.hoists := by
  have completed := sound.completed.snoc inside fresh operands
  have admitsAll (admits : plan.Admits node) : ∀ other ∈ done ++ [node], plan.Admits other := by
    intro other member
    rcases List.mem_append.1 member with member | isLast
    · exact sound.admits other member
    · rw [List.mem_singleton.1 isLast]
      exact admits
  rcases enter_ok h with ⟨hoists, rfl, new⟩ | ⟨stays, rfl, admits⟩
  · refine ⟨⟨completed, ?_, ?_, ?_, admitsAll (admits_of_hoists hoists)⟩, by simp [hoists]⟩
    · intro other member isHoisted
      rcases List.mem_append.1 member with member | isLast
      · exact List.mem_append_left _ (sound.settled other member isHoisted)
      · exact List.mem_append_right _ isLast
    · intro other isHoisted
      rcases List.mem_append.1 isHoisted with isHoisted | isLast
      · exact List.mem_append_left _ (sound.inside other isHoisted)
      · exact List.mem_append_right _ isLast
    · exact sound.admitted.snoc inside (isValue_of_hoists hoists) new (sound.below wf operands)
  · refine ⟨⟨completed, ?_, ?_, sound.admitted, admitsAll admits⟩, by simp [stays]⟩
    · intro other member isHoisted
      rcases List.mem_append.1 member with member | isLast
      · exact sound.settled other member isHoisted
      · rw [List.mem_singleton.1 isLast, stays] at isHoisted
        cases isHoisted
    · intro other isHoisted
      exact List.mem_append_left _ (sound.inside other isHoisted)

theorem Sound.enterAll {done hoisted : List Node}
    (sound : plan.Sound graph taken ⟨done, hoisted⟩) (wf : graph.WellFormed) {new : List Node}
    (completed : graph.Completed (done ++ new)) {hoisted' : List Node}
    (h : new.foldlM (plan.enter taken) hoisted = .ok hoisted') :
    plan.Sound graph taken ⟨done ++ new, hoisted'⟩ ∧
      hoisted' = hoisted ++ new.filter plan.hoists := by
  induction new generalizing done hoisted with
  | nil =>
    cases h
    simpa using sound
  | cons node rest ih =>
    obtain ⟨hoisted'', first, others⟩ := Outcome.bind_eq_ok.1 h
    obtain ⟨_, inside, fresh, operands⟩ := completed.cut rfl
    obtain ⟨sound', rfl⟩ := sound.enter wf inside fresh operands first
    rw [List.append_cons] at completed ⊢
    obtain ⟨sound'', rfl⟩ := ih sound' completed others
    refine ⟨sound'', ?_⟩
    rw [List.append_assoc, ← List.filter_append, List.singleton_append]

theorem Sound.pass {progress : Progress} (sound : plan.Sound graph taken progress)
    (wf : graph.WellFormed) {root : NodeId} {progress' : Progress}
    (h : plan.pass graph taken progress root = .ok progress') :
    plan.Sound graph taken progress' ∧
      progress'.done = (progress.done ++ graph.postorder root).eraseDups ∧
      progress'.hoisted =
        (progress.hoisted ++ (graph.postorder root).filter plan.hoists).eraseDups := by
  obtain ⟨done, hoisted⟩ := progress
  obtain ⟨completed, walked⟩ := wf.walkTo_eq root sound.completed
  have new := wf.walkTo_append root sound.completed
  obtain ⟨hoisted', admitted, h⟩ := Outcome.bind_eq_ok.1 h
  cases h
  rw [new, List.drop_left] at admitted
  rw [new] at completed
  obtain ⟨sound', rfl⟩ := sound.enterAll wf completed admitted
  refine ⟨new ▸ sound', walked, ?_⟩
  -- What is left of the walk when the completed nodes are taken out is what is left when the
  -- statements are: the completed nodes that become statements are statements.
  have same : ((graph.postorder root).filter plan.hoists).removeAll hoisted =
      ((graph.postorder root).removeAll done).filter plan.hoists := by
    simp only [List.removeAll, List.filter_filter]
    apply List.filter_congr
    intro node _
    cases hoists : plan.hoists node with
    | false => simp
    | true =>
      have member : node ∈ hoisted ↔ node ∈ done :=
        ⟨sound.inside node, fun member => sound.settled node member hoists⟩
      simp [member]
  rw [List.eraseDups_append, List.eraseDups_eq_self sound.admitted.distinct, same,
    List.eraseDups_filter]

theorem Sound.passRoot {progress : Progress} (sound : plan.Sound graph taken progress)
    (wf : graph.WellFormed) {root : Node} (inside : root ∈ graph.nodes)
    (isValue : root.kind.isValue = true) {progress' : Progress}
    (h : plan.passRoot graph taken progress root.id = .ok progress') :
    plan.Sound graph taken progress' ∧
      progress'.done = (progress.done ++ graph.postorder root.id).eraseDups ∧
      progress'.hoisted = (progress.hoisted ++
        ((graph.postorder root.id).filter plan.hoists ++ [root])).eraseDups := by
  obtain ⟨progress'', passed, h⟩ := Outcome.bind_eq_ok.1 h
  obtain ⟨sound', done, hoisted⟩ := sound.pass wf passed
  have member : root ∈ progress''.done := by
    rw [done, List.mem_eraseDups, List.mem_append]
    exact Or.inr ((wf.mem_postorder inside).2 ⟨inside, .refl _⟩)
  simp only [wf.find?_eq_some.2 ⟨inside, rfl⟩] at h
  rw [← List.append_assoc, ← List.eraseDups_eraseDups_append (_ ++ _), ← hoisted]
  split at h
  · rename_i known
    cases h
    have isHoisted : root ∈ progress'.hoisted := by
      obtain ⟨node, isHoisted, same⟩ := List.mem_map.1 (List.contains_iff_mem.1 known)
      have nodeInside := sound'.completed.inside (sound'.inside node isHoisted)
      rwa [← wf.eq_of_id nodeInside inside same]
    refine ⟨sound', done, ?_⟩
    rw [List.eraseDups_concat, if_pos isHoisted,
      List.eraseDups_eq_self sound'.admitted.distinct]
  · rename_i unknown
    obtain ⟨hoisted', added, h⟩ := Outcome.bind_eq_ok.1 h
    cases h
    have new : root ∉ progress''.hoisted := fun isHoisted =>
      unknown (List.contains_iff_mem.2 (List.mem_map_of_mem isHoisted))
    refine ⟨sound'.add wf member isValue added, done, ?_⟩
    rw [List.eraseDups_concat, if_neg new, List.eraseDups_eq_self sound'.admitted.distinct]
    exact (add_ok added).1

/-- The nodes that are sure to be statements after the turn of a root, in the order of a walk
without memory. -/
def turn (plan : Plan) (graph : Graph) (root : NodeId) : List Node :=
  (graph.postorder root).filter plan.hoists ++ (graph.find? root).toList

theorem Sound.passRoots {progress : Progress} (sound : plan.Sound graph taken progress)
    (wf : graph.WellFormed) {roots : List NodeId}
    (renderable : ∀ root ∈ roots, graph.Renderable plan.capturing root) {progress' : Progress}
    (h : roots.foldlM (plan.passRoot graph taken) progress = .ok progress') :
    plan.Sound graph taken progress' ∧
      progress'.done = (progress.done ++ roots.flatMap graph.postorder).eraseDups ∧
      progress'.hoisted = (progress.hoisted ++ roots.flatMap (plan.turn graph)).eraseDups := by
  induction roots generalizing progress with
  | nil =>
    cases h
    refine ⟨sound, ?_, ?_⟩
    · simpa using (List.eraseDups_eq_self sound.completed.nodup).symm
    · simpa using (List.eraseDups_eq_self sound.admitted.distinct).symm
  | cons root rest ih =>
    obtain ⟨node, inside, rfl, isValue, _⟩ := renderable root List.mem_cons_self
    obtain ⟨progress'', passed, h⟩ := Outcome.bind_eq_ok.1 h
    obtain ⟨sound', done, hoisted⟩ := sound.passRoot wf inside isValue passed
    have others := fun root member => renderable root (List.mem_cons_of_mem _ member)
    obtain ⟨sound'', done', hoisted'⟩ := ih sound' others h
    have turn : plan.turn graph node.id =
        (graph.postorder node.id).filter plan.hoists ++ [node] := by
      rw [Plan.turn, wf.find?_eq_some.2 ⟨inside, rfl⟩, Option.toList_some]
    refine ⟨sound'', ?_, ?_⟩
    · rw [done', done, List.eraseDups_eraseDups_append, List.flatMap_cons, List.append_assoc]
    · rw [hoisted', hoisted, List.eraseDups_eraseDups_append, List.flatMap_cons, turn,
        List.append_assoc]

end

end Extraction.Plan

end QueryGraph
