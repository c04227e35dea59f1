import QueryGraph.Proofs.Correspondence
import QueryGraph.Proofs.Outline

namespace QueryGraph

open Extraction

/-- Whether two nodes are the same but for the number of their users, and both have several users
or neither has. -/
structure Node.Alike (node node' : Node) : Prop where
  id : node'.id = node.id
  name : node'.name = node.name
  kind : node'.kind = node.kind
  shared : 1 < node'.fanOut ↔ 1 < node.fanOut

theorem Node.Alike.refl (node : Node) : node.Alike node :=
  ⟨rfl, rfl, rfl, Iff.rfl⟩

theorem Node.alike_iff {node node' : Node} : node.Alike node' ↔
    node'.id = node.id ∧ node'.name = node.name ∧ node'.kind = node.kind ∧
      (1 < node'.fanOut ↔ 1 < node.fanOut) := by
  constructor
  · rintro ⟨id, name, kind, shared⟩
    exact ⟨id, name, kind, shared⟩
  · rintro ⟨id, name, kind, shared⟩
    exact ⟨id, name, kind, shared⟩

instance (node node' : Node) : Decidable (node.Alike node') :=
  decidable_of_iff _ Node.alike_iff.symm

namespace Graph

/-- Whether two graphs cannot be told apart from their roots: every id that is reached is that of
alike nodes, or of none in both. -/
structure AlikeBelow (roots : List NodeId) (graph graph' : Graph) : Prop where
  nodes : ∀ id, graph.ReachedFrom roots id →
    Option.Rel Node.Alike (graph.find? id) (graph'.find? id)
  last : ∀ last ∈ roots.getLast?, isUsed graph' last = isUsed graph last

theorem alikeBelow_of_find? {roots : List NodeId} {graph graph' : Graph}
    (same : ∀ id, graph.ReachedFrom roots id → graph'.find? id = graph.find? id) :
    AlikeBelow roots graph graph' where
  nodes id reached := by
    rw [same id reached]
    cases graph.find? id with
    | none => exact .none
    | some node => exact .some (.refl node)
  last last isLast := by
    have reached : graph.ReachedFrom roots last :=
      ⟨last, List.mem_of_getLast? isLast, .refl last⟩
    rw [isUsed, isUsed, same last reached]

theorem WellFormed.mem_reach_of_reached {graph : Graph} (wf : graph.WellFormed)
    {roots : List NodeId} (known : ∀ root ∈ roots, ∃ node ∈ graph.nodes, node.id = root)
    {id : NodeId} (reached : graph.ReachedFrom roots id) :
    ∃ node ∈ graph.reach roots, node.id = id := by
  suffices inside : ∃ node ∈ graph.nodes, node.id = id by
    obtain ⟨node, inside, rfl⟩ := inside
    exact ⟨node, wf.mem_reach.2 ⟨inside, reached⟩, rfl⟩
  obtain ⟨root, isRoot, path⟩ := reached
  exact path.within (fun id => ∃ node ∈ graph.nodes, node.id = id)
    (fun _ inside _ _ isOperand => wf.operand inside isOperand) (known root isRoot)

theorem WellFormed.alikeBelow {graph graph' : Graph} (wf : graph.WellFormed)
    (wf' : graph'.WellFormed) {roots : List NodeId}
    (known : ∀ root ∈ roots, ∃ node ∈ graph.nodes, node.id = root)
    (alike : ∀ node ∈ graph.reach roots, ∃ node' ∈ graph'.nodes, node.Alike node')
    (last : ∀ last ∈ roots.getLast?, isUsed graph' last = isUsed graph last) :
    AlikeBelow roots graph graph' where
  nodes id reached := by
    obtain ⟨node, met, rfl⟩ := wf.mem_reach_of_reached known reached
    obtain ⟨node', inside', same⟩ := alike node met
    rw [wf.find?_eq_some.2 ⟨(wf.mem_reach.1 met).1, rfl⟩, wf'.find?_eq_some.2 ⟨inside', same.id⟩]
    exact .some same
  last := last

/-- A node with as many users as the node with its id has in another graph, if the two are alike. -/
def twin (graph' : Graph) (node : Node) : Node :=
  match graph'.find? node.id with
  | none => node
  | some other =>
    if decide (1 < other.fanOut) = decide (1 < node.fanOut) then
      { node with fanOut := other.fanOut }
    else node

theorem twin_eq (graph' : Graph) (node : Node) : ∃ fanOut,
    graph'.twin node = { node with fanOut } ∧ decide (1 < fanOut) = decide (1 < node.fanOut) := by
  unfold twin
  split
  · exact ⟨node.fanOut, rfl, rfl⟩
  · rename_i other _
    split
    · rename_i same
      exact ⟨other.fanOut, rfl, same⟩
    · exact ⟨node.fanOut, rfl, rfl⟩

section

variable (graph' : Graph) (node : Node)

@[simp] theorem twin_id : (graph'.twin node).id = node.id := by
  obtain ⟨_, same, _⟩ := graph'.twin_eq node
  rw [same]

@[simp] theorem twin_name : (graph'.twin node).name = node.name := by
  obtain ⟨_, same, _⟩ := graph'.twin_eq node
  rw [same]

@[simp] theorem twin_kind : (graph'.twin node).kind = node.kind := by
  obtain ⟨_, same, _⟩ := graph'.twin_eq node
  rw [same]

@[simp] theorem twin_shared :
    decide (1 < (graph'.twin node).fanOut) = decide (1 < node.fanOut) := by
  obtain ⟨_, same, shared⟩ := graph'.twin_eq node
  rw [same, shared]

end

section

variable {graph' : Graph} {plan : Plan} {taken : List String} {hoisted : List Node} {node : Node}

theorem wants_twin : plan.wants (graph'.twin node) = plan.wants node := by
  simp [Plan.wants]

theorem statementName_twin (options : Options) (node : Node) :
    statementName options (graph'.twin node) = statementName options node := by
  simp [statementName]

theorem settle_twin {ε κ : Type} (backend : Backend ε κ) (body : ε) :
    plan.settle backend (graph'.twin node) body = plan.settle backend node body := by
  simp [Plan.settle, Plan.hoists, wants_twin, statementName_twin]

theorem names_twin (hoisted : List Node) :
    plan.names (hoisted.map graph'.twin) = plan.names hoisted := by
  simp [Plan.names, statementName_twin]

theorem add_twin : plan.add taken (hoisted.map graph'.twin) (graph'.twin node) =
    (plan.add taken hoisted node).map (List.map graph'.twin) := by
  simp only [Plan.add, names_twin, statementName_twin]
  split
  · rfl
  · simp

theorem enter_twin : plan.enter taken (hoisted.map graph'.twin) (graph'.twin node) =
    (plan.enter taken hoisted node).map (List.map graph'.twin) := by
  simp only [Plan.enter, wants_twin, twin_id, twin_name]
  split
  · rfl
  split
  · cases node.name <;> rfl
  · exact add_twin

theorem capturing_twin (done : List Node) : capturing (done.map graph'.twin) = capturing done := by
  simp [capturing, List.foldl_map]

theorem freeVariables_twin (done : List Node) :
    freeVariables (done.map graph'.twin) = freeVariables done := by
  simp [freeVariables_eq, List.filterMap_map]

theorem checkRoot_twin {graph : Graph} {captured : List NodeId} {root : NodeId}
    (found : graph'.find? root = (graph.find? root).map graph'.twin) :
    checkRoot graph' captured root = checkRoot graph captured root := by
  suffices same : graph'.checkValue root = graph.checkValue root by
    rw [checkRoot, checkRoot, same]
  unfold checkValue notAValue
  rw [found]
  cases graph.find? root with
  | none => rfl
  | some node =>
    obtain ⟨_, same, _⟩ := graph'.twin_eq node
    rw [Option.map_some, same]
    obtain ⟨id, name, kind, _⟩ := node
    cases kind <;> rfl

theorem checkRoots_twin {graph : Graph} {captured : List NodeId} {roots : List NodeId}
    (found : ∀ root ∈ roots, graph'.find? root = (graph.find? root).map graph'.twin) :
    checkRoots graph' captured roots = checkRoots graph captured roots := by
  induction roots with
  | nil => rfl
  | cons root rest ih =>
    rw [List.forall_mem_cons] at found
    rw [checkRoots, checkRoots, checkRoot_twin found.1, ih found.2]

end

namespace AlikeBelow

variable {graph graph' : Graph} {roots : List NodeId}

theorem find? (alike : AlikeBelow roots graph graph') {id : NodeId}
    (reached : graph.ReachedFrom roots id) :
    graph'.find? id = (graph.find? id).map graph'.twin := by
  have nodes := alike.nodes id reached
  cases found : graph.find? id with
  | none =>
    rw [found] at nodes
    cases found' : graph'.find? id with
    | none => rfl
    | some node' =>
      rw [found'] at nodes
      cases nodes
  | some node =>
    rw [found] at nodes
    cases found' : graph'.find? id with
    | none =>
      rw [found'] at nodes
      cases nodes
    | some node' =>
      rw [found'] at nodes
      cases nodes with
      | some same =>
        obtain ⟨sameId, name, kind, shared⟩ := same
        obtain ⟨-, rfl⟩ := mem_of_find? found
        obtain ⟨id, _, _, fanOut⟩ := node
        obtain ⟨_, _, _, fanOut'⟩ := node'
        dsimp only at *
        subst sameId name kind
        simp [twin, found', shared]

end AlikeBelow

/-- What is known of two graphs when roots in them are rendered side by side. -/
structure Overlap (graph graph' : Graph) (roots : List NodeId) : Prop where
  wf : graph.WellFormed
  wf' : graph'.WellFormed
  alike : AlikeBelow roots graph graph'

namespace Overlap

variable {graph graph' : Graph} {roots rest : List NodeId} {last : NodeId}
  (both : Overlap graph graph' roots)

include both

theorem reached_operand {node : Node} (inside : node ∈ graph.nodes)
    (reached : graph.ReachedFrom roots node.id) {id : NodeId}
    (isOperand : id ∈ node.kind.operands) : graph.ReachedFrom roots id := by
  obtain ⟨root, isRoot, path⟩ := reached
  have found := both.wf.find?_eq_some.2 ⟨inside, rfl⟩
  exact ⟨root, isRoot, path.trans (.step found isOperand (.refl id))⟩

theorem corresponds :
    Corresponds graph graph' (graph.ReachedFrom roots) (fun id => id) graph'.twin where
  wf := both.wf
  wf' := both.wf'
  closed _ inside reached _ isOperand := both.reached_operand inside reached isOperand
  injective _ _ _ _ same := same
  id node := graph'.twin_id node
  operands node := by rw [twin_kind, List.map_id']
  find? _ reached := both.alike.find? reached

theorem reach : graph'.reach roots = (graph.reach roots).map graph'.twin := by
  have walked := both.corresponds.reach fun root isRoot => ⟨root, isRoot, .refl root⟩
  rwa [List.map_id'] at walked

theorem isUsed (known : roots = rest ++ [last]) :
    Extraction.isUsed graph' last = Extraction.isUsed graph last :=
  both.alike.last last (by rw [known, List.getLast?_concat]; rfl)

theorem planOf (known : roots = rest ++ [last]) (options : Options) :
    graph'.planOf rest last options = graph.planOf rest last options := by
  rw [Graph.planOf, Graph.planOf, ← known, both.reach, capturing_twin, both.isUsed known]

/-- How the progress of two passes is related. -/
structure Passes (graph graph' : Graph) (roots : List NodeId) (progress progress' : Plan.Progress) :
    Prop where
  done : progress'.done = progress.done.map graph'.twin
  hoisted : progress'.hoisted = progress.hoisted.map graph'.twin
  completed : graph.Completed progress.done
  reached : ∀ node ∈ progress.done, graph.ReachedFrom roots node.id

variable {plan : Plan} {taken : List String}

theorem pass {progress progress' : Plan.Progress}
    (passes : Passes graph graph' roots progress progress') {root : NodeId}
    (isRoot : root ∈ roots) : Outcome.Alike Eq (Passes graph graph' roots)
      (plan.pass graph taken progress root) (plan.pass graph' taken progress' root) := by
  obtain ⟨done, hoisted⟩ := progress
  obtain ⟨_, _⟩ := progress'
  obtain ⟨rfl, rfl, completed, reached⟩ := passes
  have isReached : graph.ReachedFrom roots root := ⟨root, isRoot, .refl root⟩
  have completed' := (both.wf.walkTo_eq root completed).1
  have walked := both.corresponds.walkTo completed reached isReached
  have reached' : ∀ node ∈ graph.walkTo done root, graph.ReachedFrom roots node.id := by
    intro node member
    rw [(both.wf.walkTo_eq root completed).2, List.mem_eraseDups, List.mem_append] at member
    rcases member with isDone | met
    · exact reached node isDone
    · exact (both.corresponds.within_postorder isReached node met).2
  have entered (new : List Node) : Outcome.Alike Eq
      (fun hoisted hoisted' => hoisted' = hoisted.map graph'.twin)
      (new.foldlM (plan.enter taken) hoisted)
      ((new.map graph'.twin).foldlM (plan.enter taken) (hoisted.map graph'.twin)) := by
    refine Outcome.Alike.foldlM ?_ rfl
    rintro node _ hoisted _ rfl
    rw [enter_twin]
    exact .map_right _ _
  simp only [Plan.pass, walked, List.length_map, ← List.map_drop]
  exact (entered _).bind fun _ _ same => .ok ⟨rfl, same, completed', reached'⟩

theorem passRoot {progress progress' : Plan.Progress}
    (passes : Passes graph graph' roots progress progress') {root : NodeId}
    (isRoot : root ∈ roots) : Outcome.Alike Eq (Passes graph graph' roots)
      (plan.passRoot graph taken progress root) (plan.passRoot graph' taken progress' root) := by
  refine Outcome.Alike.bind (both.pass passes isRoot) ?_
  rintro ⟨done, hoisted⟩ ⟨_, _⟩ ⟨rfl, rfl, completed, reached⟩
  rw [both.alike.find? ⟨root, isRoot, .refl root⟩]
  cases graph.find? root with
  | none => exact .error rfl
  | some node =>
    have ids : (hoisted.map graph'.twin).map (·.id) = hoisted.map (·.id) := by simp
    simp only [Option.map_some, ids]
    split
    · exact .ok ⟨rfl, rfl, completed, reached⟩
    · rw [add_twin]
      exact (Outcome.Alike.map_right _ _).bind fun _ _ same => .ok ⟨rfl, same, completed, reached⟩

theorem outline (known : roots = rest ++ [last]) (bindings : Bindings) (options : Options) :
    graph'.outline rest last bindings options =
      (graph.outline rest last bindings options).map fun outline =>
        ⟨outline.plan, outline.bound, outline.hoisted.map graph'.twin⟩ := by
  have checked : checkRoots graph' (graph.planOf rest last options).capturing roots =
      checkRoots graph (graph.planOf rest last options).capturing roots :=
    checkRoots_twin fun root isRoot => both.alike.find? ⟨root, isRoot, .refl root⟩
  have among : ∀ root ∈ rest, root ∈ roots := fun _ isRoot =>
    known ▸ List.mem_append_left _ isRoot
  have isLast : last ∈ roots := known ▸ List.mem_append_right _ (List.mem_singleton_self last)
  refine Outcome.Alike.eq_map ?_
  simp only [Graph.outline, ← known, both.planOf known, both.reach, freeVariables_twin, checked]
  refine (Outcome.Alike.refl _).bind fun _ _ _ => (Outcome.Alike.refl _).bind fun bound _ same => ?_
  subst same
  have start : Passes graph graph' roots ⟨[], []⟩ ⟨[], []⟩ := ⟨rfl, rfl, .nil, nofun⟩
  refine (Outcome.Alike.foldlM_self ?_ start).bind fun _ _ passes => ?_
  · exact fun root isRoot _ _ passes => both.passRoot passes (among root isRoot)
  · exact (both.pass passes isLast).bind fun _ _ passes => .ok (by rw [passes.hoisted])

end Overlap

section

variable {ε κ : Type} {backend : Backend ε κ} {plan : Plan} {graph graph' : Graph}

/-- Whether the nodes with an id are the same to those that use them. -/
structure SameImages (backend : Backend ε κ) (plan : Plan) (graph graph' : Graph) (id : NodeId) :
    Prop where
  image : graph'.image backend (plan.settle backend) id =
    graph.image backend (plan.settle backend) id
  callImage : graph'.callImage backend (plan.settle backend) id =
    graph.callImage backend (plan.settle backend) id

theorem body_twin {node : Node}
    (below : ∀ id ∈ node.kind.operands, SameImages backend plan graph graph' id) :
    graph'.body backend (plan.settle backend) (graph'.twin node) =
      graph.body backend (plan.settle backend) node := by
  rw [body, body, twin_kind]
  refine Backend.valueOf_congr (fun id member => ?_) fun id member => ?_
  · exact (below id (NodeKind.mem_operands.2 (Or.inl member))).image
  · exact (below id (NodeKind.mem_operands.2 (Or.inr member))).callImage

theorem Overlap.sameImages {roots : List NodeId} (both : Overlap graph graph' roots) {node : Node}
    (inside : node ∈ graph.nodes) (reached : graph.ReachedFrom roots node.id) :
    SameImages backend plan graph graph' node.id := by
  refine both.wf.induction (motive := fun id => graph.ReachedFrom roots id →
    SameImages backend plan graph graph' id) ?_ inside reached
  intro node inside ih reached
  have below : ∀ id ∈ node.kind.operands, SameImages backend plan graph graph' id :=
    fun id isOperand => ih id isOperand (both.reached_operand inside reached isOperand)
  have inside' := both.corresponds.mem inside reached
  constructor
  · calc graph'.image backend (plan.settle backend) node.id
        = graph'.image backend (plan.settle backend) (graph'.twin node).id := by rw [twin_id]
      _ = plan.settle backend (graph'.twin node)
            (graph'.body backend (plan.settle backend) (graph'.twin node)) :=
          both.wf'.image_eq inside'
      _ = plan.settle backend node (graph.body backend (plan.settle backend) node) := by
          rw [settle_twin, body_twin below]
      _ = graph.image backend (plan.settle backend) node.id := (both.wf.image_eq inside).symm
  · calc graph'.callImage backend (plan.settle backend) node.id
        = graph'.callImage backend (plan.settle backend) (graph'.twin node).id := by rw [twin_id]
      _ = backend.callOf (graph'.image backend (plan.settle backend)) (graph'.twin node).kind :=
          both.wf'.callImage_eq inside'
      _ = backend.callOf (graph.image backend (plan.settle backend)) node.kind := by
          rw [twin_kind]
          exact Backend.callOf_congr fun id member =>
            (below id (NodeKind.mem_operands.2 (Or.inl member))).image
      _ = graph.callImage backend (plan.settle backend) node.id :=
          (both.wf.callImage_eq inside).symm

namespace Overlap

variable {roots rest : List NodeId} {last : NodeId} (both : Overlap graph graph' roots)

include both

theorem statementOf {node : Node} (inside : node ∈ graph.nodes)
    (reached : graph.ReachedFrom roots node.id) :
    Extraction.statementOf backend graph' plan (graph'.twin node) =
      Extraction.statementOf backend graph plan node := by
  have below : ∀ id ∈ node.kind.operands, SameImages backend plan graph graph' id := by
    intro id isOperand
    obtain ⟨operand, operandInside, rfl⟩ := both.wf.operand inside isOperand
    exact both.sameImages operandInside (both.reached_operand inside reached isOperand)
  rw [Extraction.statementOf, Extraction.statementOf, statementName_twin, body_twin below]

theorem render (known : roots = rest ++ [last]) {bindings : Bindings} {options : Options}
    {outline : Outline} (outlined : graph.outline rest last bindings options = .ok outline) :
    Outline.render ⟨outline.plan, outline.bound, outline.hoisted.map graph'.twin⟩ backend graph'
      last = outline.render backend graph last := by
  have outlines := both.wf.outline_ok outlined
  have statements : (outline.hoisted.map graph'.twin).map
      (Extraction.statementOf backend graph' outline.plan) =
      outline.hoisted.map (Extraction.statementOf backend graph outline.plan) := by
    rw [List.map_map]
    refine List.map_congr_left fun node isHoisted => ?_
    obtain ⟨inside, reached⟩ := both.wf.mem_reach.1 (outlines.reached node isHoisted)
    exact both.statementOf inside (known ▸ reached)
  obtain ⟨node, inside, rfl, -⟩ := outlines.renderable last (by simp)
  have final : SameImages backend outline.plan graph graph' node.id :=
    both.sameImages inside ⟨node.id, by simp [known], .refl node.id⟩
  rw [Outline.render, Outline.render, statements, final.image]

theorem extract (bindings : Bindings) (options : Options) :
    graph'.extract backend roots bindings options =
      graph.extract backend roots bindings options := by
  rcases List.eq_nil_or_concat roots with known | ⟨rest, last, known⟩
  · rw [known, Graph.extract, Graph.extract]
    rfl
  rw [List.concat_eq_append] at known
  rw [known, both.wf'.extract_eq, both.wf.extract_eq, both.outline known]
  cases outlined : graph.outline rest last bindings options with
  | error error => rfl
  | ok outline => exact congrArg Except.ok (both.render known outlined)

end Overlap

end

/-- Whether roots come to the same in two graphs, as text and as a query, or fail in the same way
whatever is bound and whatever the options are. -/
def SameOutput (roots : List NodeId) (graph graph' : Graph) : Prop :=
  ∀ bindings options,
    graph'.print roots bindings options = graph.print roots bindings options ∧
    graph'.serialize roots bindings options = graph.serialize roots bindings options

theorem Overlap.sameOutput {roots : List NodeId} {graph graph' : Graph}
    (both : Overlap graph graph' roots) : SameOutput roots graph graph' := by
  intro bindings options
  constructor
  · rw [print, print, both.extract]
  · rw [serialize, serialize, both.extract]

end Graph

end QueryGraph
