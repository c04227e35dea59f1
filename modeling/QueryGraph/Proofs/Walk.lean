import QueryGraph.Graph.Walk
import QueryGraph.Proofs.Lists
import QueryGraph.Proofs.Recursion

namespace QueryGraph.Graph

variable {graph : Graph}

/-- The nodes that a walk from a node completes when it remembers nothing: operands from left to
right, then the node, and all of it as often as it is met. -/
def postorder (graph : Graph) : NodeId → List Node :=
  graph.recurse [] fun node below => node.kind.operands.flatMap below ++ [node]

/-- Whether a path over operands leads from one node to another. -/
inductive Reaches (graph : Graph) : NodeId → NodeId → Prop where
  | refl (id : NodeId) : Reaches graph id id
  | step {id operand target : NodeId} {node : Node} (found : graph.find? id = some node)
      (isOperand : operand ∈ node.kind.operands) (path : Reaches graph operand target) :
      Reaches graph id target

/-- Whether a path over operands leads from one of the roots to a node. -/
def ReachedFrom (graph : Graph) (roots : List NodeId) (id : NodeId) : Prop :=
  ∃ root ∈ roots, graph.Reaches root id

theorem Reaches.trans {a b c : NodeId} (first : graph.Reaches a b) (second : graph.Reaches b c) :
    graph.Reaches a c := by
  induction first with
  | refl => exact second
  | step found isOperand _ ih => exact Reaches.step found isOperand (ih second)

theorem Reaches.start {a b : NodeId} (path : graph.Reaches a b)
    (stop : ∃ node ∈ graph.nodes, node.id = b) : ∃ node ∈ graph.nodes, node.id = a := by
  cases path with
  | refl => exact stop
  | step found _ _ =>
    obtain ⟨inside, same⟩ := mem_of_find? found
    exact ⟨_, inside, same⟩

/-- A path does not lead out of a part of the graph that operands do not lead out of. -/
theorem Reaches.within (part : NodeId → Prop)
    (closed : ∀ node ∈ graph.nodes, part node.id → ∀ id ∈ node.kind.operands, part id)
    {a b : NodeId} (path : graph.Reaches a b) (start : part a) : part b := by
  induction path with
  | refl => exact start
  | step found isOperand _ ih =>
    obtain ⟨inside, rfl⟩ := mem_of_find? found
    exact ih (closed _ inside start _ isOperand)

theorem postorder_local :
    Local fun (node : Node) (below : NodeId → List Node) =>
      node.kind.operands.flatMap below ++ [node] := by
  intro node f g same
  simp only [List.flatMap]
  rw [List.map_congr_left same]

theorem WellFormed.postorder_eq (wf : graph.WellFormed) {node : Node}
    (inside : node ∈ graph.nodes) :
    graph.postorder node.id = node.kind.operands.flatMap graph.postorder ++ [node] :=
  wf.recurse_eq postorder_local inside

theorem postorder_of_missing {id : NodeId} (missing : graph.find? id = none) :
    graph.postorder id = [] := by
  unfold postorder recurse
  cases graph.nodes.length with
  | zero => rfl
  | succ depth => simp [recurseAt, missing]

theorem WellFormed.mem_postorder (wf : graph.WellFormed) {node : Node}
    (inside : node ∈ graph.nodes) {other : Node} :
    other ∈ graph.postorder node.id ↔ other ∈ graph.nodes ∧ graph.Reaches node.id other.id := by
  refine wf.induction (motive := fun id =>
    other ∈ graph.postorder id ↔ other ∈ graph.nodes ∧ graph.Reaches id other.id) ?_ inside
  intro node inside ih
  rw [wf.postorder_eq inside, List.mem_append, List.mem_flatMap, List.mem_singleton]
  constructor
  · rintro (⟨operand, isOperand, below⟩ | rfl)
    · have reached := (ih operand isOperand).1 below
      exact ⟨reached.1, .step (wf.find?_eq_some.2 ⟨inside, rfl⟩) isOperand reached.2⟩
    · exact ⟨inside, .refl _⟩
  · rintro ⟨otherInside, path⟩
    generalize start : node.id = id at path
    generalize stop : other.id = target at path
    cases path with
    | refl => exact Or.inr (wf.eq_of_id otherInside inside (stop.trans start.symm))
    | step found isOperand path =>
      subst start stop
      cases (wf.find?_eq_some.2 ⟨inside, rfl⟩).symm.trans found
      exact Or.inl ⟨_, isOperand, (ih _ isOperand).2 ⟨otherInside, path⟩⟩

theorem WellFormed.le_of_mem_postorder (wf : graph.WellFormed) {node : Node}
    (inside : node ∈ graph.nodes) {other : Node} (below : other ∈ graph.postorder node.id) :
    other.id ≤ node.id := by
  revert below
  refine wf.induction (motive := fun id => other ∈ graph.postorder id → other.id ≤ id) ?_ inside
  intro node inside ih below
  rw [wf.postorder_eq inside, List.mem_append, List.mem_flatMap, List.mem_singleton] at below
  rcases below with ⟨operand, isOperand, below⟩ | rfl
  · exact Nat.le_trans (ih operand isOperand below)
      (Nat.le_of_lt (wf.older node inside operand isOperand))
  · exact Nat.le_refl _

/-- Lists of nodes without repetition in which operands come before the nodes that use them. -/
inductive Completed (graph : Graph) : List Node → Prop where
  | nil : Completed graph []
  | snoc {done : List Node} {node : Node} (before : Completed graph done)
      (inside : node ∈ graph.nodes) (fresh : node ∉ done)
      (operands : ∀ id ∈ node.kind.operands, ∃ operand ∈ done, operand.id = id) :
      Completed graph (done ++ [node])

namespace Completed

variable {done : List Node}

theorem inside (completed : graph.Completed done) {node : Node} (member : node ∈ done) :
    node ∈ graph.nodes := by
  induction completed with
  | nil => cases member
  | snoc _ inside _ _ ih =>
    rcases List.mem_append.1 member with member | member
    · exact ih member
    · rw [List.mem_singleton.1 member]
      exact inside

theorem nodup (completed : graph.Completed done) : done.Nodup := by
  induction completed with
  | nil => exact List.nodup_nil
  | snoc _ _ fresh _ ih => exact List.nodup_append_singleton ih fresh

theorem operand (completed : graph.Completed done) {node : Node} (member : node ∈ done)
    {id : NodeId} (isOperand : id ∈ node.kind.operands) : ∃ operand ∈ done, operand.id = id := by
  induction completed with
  | nil => cases member
  | @snoc done _ _ _ _ operands ih =>
    have found : ∃ operand ∈ done, operand.id = id := by
      rcases List.mem_append.1 member with member | member
      · exact ih member
      · exact operands id (List.mem_singleton.1 member ▸ isOperand)
    obtain ⟨operand, member, same⟩ := found
    exact ⟨operand, List.mem_append_left _ member, same⟩

theorem mem_of_met (completed : graph.Completed done) (wf : graph.WellFormed) {node : Node}
    (member : node ∈ done) {other : Node} (met : other ∈ graph.postorder node.id) :
    other ∈ done := by
  have inside := completed.inside member
  refine wf.induction (motive := fun id => (∃ node ∈ done, node.id = id) →
    other ∈ graph.postorder id → other ∈ done) ?_ inside ⟨node, member, rfl⟩ met
  rintro node inside ih ⟨node', member, same⟩ met
  cases wf.eq_of_id (completed.inside member) inside same
  rw [wf.postorder_eq inside, List.mem_append, List.mem_flatMap, List.mem_singleton] at met
  rcases met with ⟨operand, isOperand, met⟩ | rfl
  · exact ih operand isOperand (completed.operand member isOperand) met
  · exact member

theorem cut (completed : graph.Completed done) {before after : List Node} {node : Node}
    (parts : done = before ++ node :: after) :
    graph.Completed before ∧ node ∈ graph.nodes ∧ node ∉ before ∧
      ∀ id ∈ node.kind.operands, ∃ operand ∈ before, operand.id = id := by
  induction completed generalizing after with
  | nil => simp at parts
  | snoc done' inside fresh operands ih =>
    rcases List.append_singleton_eq_append_cons parts with ⟨_, rfl, rfl⟩ | ⟨after', _, parts⟩
    · exact ⟨done', inside, fresh, operands⟩
    · exact ih parts

end Completed

/-- Walks one after the other that each complete what a walk without memory meets. -/
theorem foldl_walk {walk : List Node → NodeId → List Node} {ids : List NodeId}
    (h : ∀ done, graph.Completed done → ∀ id ∈ ids, graph.Completed (walk done id) ∧
      walk done id = (done ++ graph.postorder id).eraseDups)
    {done : List Node} (completed : graph.Completed done) :
    graph.Completed (ids.foldl walk done) ∧
      ids.foldl walk done = (done ++ ids.flatMap graph.postorder).eraseDups := by
  induction ids generalizing done with
  | nil =>
    refine ⟨completed, ?_⟩
    simpa using (List.eraseDups_eq_self completed.nodup).symm
  | cons id rest ih =>
    obtain ⟨next, walked⟩ := h done completed id List.mem_cons_self
    have others := ih (fun done completed id member =>
      h done completed id (List.mem_cons_of_mem _ member)) next
    refine ⟨others.1, ?_⟩
    rw [List.foldl_cons, others.2, walked, List.eraseDups_eraseDups_append, List.flatMap_cons,
      List.append_assoc]

theorem WellFormed.not_mem_below (wf : graph.WellFormed) {node : Node}
    (inside : node ∈ graph.nodes) : node ∉ node.kind.operands.flatMap graph.postorder := by
  intro met
  obtain ⟨operand, isOperand, met⟩ := List.mem_flatMap.1 met
  obtain ⟨operand, inside', rfl⟩ := wf.operand inside isOperand
  have older := wf.older node inside _ isOperand
  exact Nat.not_lt.2 (wf.le_of_mem_postorder inside' met) older

theorem WellFormed.walk_eq (wf : graph.WellFormed) {depth : Nat} {done : List Node} {id : NodeId}
    (completed : graph.Completed done)
    (enough : ∀ node ∈ graph.nodes, node.id = id → graph.age id < depth) :
    graph.Completed (graph.walk depth done id) ∧
      graph.walk depth done id = (done ++ graph.postorder id).eraseDups := by
  have unchanged (nothing : ∀ node ∈ graph.postorder id, node ∈ done) :
      done = (done ++ graph.postorder id).eraseDups := by
    rw [List.eraseDups_append_of_subset nothing, List.eraseDups_eq_self completed.nodup]
  induction depth generalizing done id with
  | zero =>
    refine ⟨completed, unchanged ?_⟩
    have missing : graph.find? id = none := by
      apply Option.eq_none_iff_forall_not_mem.2
      intro node found
      have inside := mem_of_find? found
      exact Nat.not_lt_zero _ (enough node inside.1 inside.2)
    simp [postorder_of_missing missing]
  | succ depth ih =>
    unfold walk
    split
    · rename_i known
      obtain ⟨node, member, same⟩ := List.any_eq_true.1 known
      refine ⟨completed, unchanged fun other met => ?_⟩
      exact completed.mem_of_met wf member ((beq_iff_eq.1 same).symm ▸ met)
    · rename_i unknown
      split
      · rename_i missing
        refine ⟨completed, unchanged ?_⟩
        simp [postorder_of_missing missing]
      · rename_i node found
        obtain ⟨inside, rfl⟩ := wf.find?_eq_some.1 found
        have operands : ∀ done, graph.Completed done → ∀ id ∈ node.kind.operands,
            graph.Completed (graph.walk depth done id) ∧
              graph.walk depth done id = (done ++ graph.postorder id).eraseDups := by
          intro done completed id isOperand
          refine ih completed (fun operand inside' same => ?_) fun nothing => ?_
          · have less := wf.age_operand_lt inside isOperand
            have bound := enough node inside rfl
            omega
          · rw [List.eraseDups_append_of_subset nothing, List.eraseDups_eq_self completed.nodup]
        obtain ⟨completed', walked⟩ := foldl_walk operands completed
        have fresh : node ∉ done ++ node.kind.operands.flatMap graph.postorder := by
          rw [List.mem_append]
          rintro (member | met)
          · exact unknown (List.any_eq_true.2 ⟨node, member, by simp⟩)
          · exact wf.not_mem_below inside met
        rw [wf.postorder_eq inside, ← List.append_assoc, List.eraseDups_concat, if_neg fresh,
          ← walked]
        refine ⟨completed'.snoc inside ?_ ?_, rfl⟩
        · rw [walked, List.mem_eraseDups]
          exact fresh
        · intro id isOperand
          obtain ⟨operand, inside', rfl⟩ := wf.operand inside isOperand
          refine ⟨operand, ?_, rfl⟩
          rw [walked, List.mem_eraseDups, List.mem_append, List.mem_flatMap]
          exact Or.inr ⟨_, isOperand, (wf.mem_postorder inside').2 ⟨inside', .refl _⟩⟩

theorem WellFormed.walkTo_eq (wf : graph.WellFormed) {done : List Node} (id : NodeId)
    (completed : graph.Completed done) :
    graph.Completed (graph.walkTo done id) ∧
      graph.walkTo done id = (done ++ graph.postorder id).eraseDups :=
  wf.walk_eq completed fun _ inside same => same ▸ age_lt_length inside

theorem WellFormed.walkTo_append (wf : graph.WellFormed) {done : List Node} (id : NodeId)
    (completed : graph.Completed done) :
    graph.walkTo done id = done ++ ((graph.postorder id).removeAll done).eraseDups := by
  rw [(wf.walkTo_eq id completed).2, List.eraseDups_append,
    List.eraseDups_eq_self completed.nodup]

theorem WellFormed.walkTo_drop (wf : graph.WellFormed) {done : List Node} (id : NodeId)
    (completed : graph.Completed done) :
    done ++ (graph.walkTo done id).drop done.length = graph.walkTo done id := by
  rw [wf.walkTo_append id completed, List.drop_left]

theorem WellFormed.reach_eq (wf : graph.WellFormed) (roots : List NodeId) :
    graph.Completed (graph.reach roots) ∧
      graph.reach roots = (roots.flatMap graph.postorder).eraseDups :=
  foldl_walk (fun _ completed id _ => wf.walkTo_eq id completed) .nil

theorem WellFormed.mem_reach (wf : graph.WellFormed) {roots : List NodeId} {node : Node} :
    node ∈ graph.reach roots ↔ node ∈ graph.nodes ∧ graph.ReachedFrom roots node.id := by
  rw [(wf.reach_eq roots).2, List.mem_eraseDups, List.mem_flatMap]
  constructor
  · rintro ⟨root, isRoot, met⟩
    cases found : graph.find? root with
    | none => simp [postorder_of_missing found] at met
    | some rootNode =>
      obtain ⟨inside, rfl⟩ := wf.find?_eq_some.1 found
      have reached := (wf.mem_postorder inside).1 met
      exact ⟨reached.1, _, isRoot, reached.2⟩
  · rintro ⟨inside, root, isRoot, path⟩
    obtain ⟨rootNode, rootInside, rfl⟩ := path.start ⟨node, inside, rfl⟩
    exact ⟨_, isRoot, (wf.mem_postorder rootInside).2 ⟨inside, path⟩⟩

theorem WellFormed.mem_reach_of_postorder (wf : graph.WellFormed) {roots : List NodeId}
    {root : NodeId} (isRoot : root ∈ roots) {node : Node} (met : node ∈ graph.postorder root) :
    node ∈ graph.reach roots := by
  rw [(wf.reach_eq roots).2, List.mem_eraseDups, List.mem_flatMap]
  exact ⟨root, isRoot, met⟩

/-- Whether a path over operands leads from a node to a placeholder without entering the arguments
of an operator call. -/
inductive Captures (graph : Graph) : NodeId → Prop where
  | placeholder {id : NodeId} {node : Node} (found : graph.find? id = some node)
      (isPlaceholder : node.kind = .placeholder) : Captures graph id
  | operand {id operand : NodeId} {node : Node} (found : graph.find? id = some node)
      (noCall : node.kind.isValue = true) (isOperand : operand ∈ node.kind.operands)
      (path : Captures graph operand) : Captures graph id

theorem captures_iff {capturing : List NodeId} {kind : NodeKind} :
    captures capturing kind = true ↔
      kind = .placeholder ∨ ∃ id ∈ kind.openOperands, id ∈ capturing := by
  cases kind <;> simp [captures, NodeKind.openOperands, NodeKind.operands]

theorem WellFormed.not_captures_call (wf : graph.WellFormed) {node : Node}
    (inside : node ∈ graph.nodes) (isCall : node.kind.isValue = false) :
    ¬ graph.Captures node.id := by
  have found := wf.find?_eq_some.2 ⟨inside, rfl⟩
  intro path
  cases path with
  | placeholder found' isPlaceholder =>
    cases found.symm.trans found'
    rw [isPlaceholder] at isCall
    cases isCall
  | operand found' noCall _ _ =>
    cases found.symm.trans found'
    rw [isCall] at noCall
    cases noCall

theorem WellFormed.captures_iff (wf : graph.WellFormed) {node : Node}
    (inside : node ∈ graph.nodes) : graph.Captures node.id ↔
      node.kind = .placeholder ∨ ∃ id ∈ node.kind.openOperands, graph.Captures id := by
  have found := wf.find?_eq_some.2 ⟨inside, rfl⟩
  constructor
  · intro path
    cases path with
    | placeholder found' isPlaceholder =>
      cases found.symm.trans found'
      exact Or.inl isPlaceholder
    | @operand _ operand _ found' noCall isOperand path =>
      cases found.symm.trans found'
      refine Or.inr ⟨operand, ?_, path⟩
      rcases NodeKind.mem_operands.1 isOperand with isValue | isCall
      · rwa [NodeKind.openOperands_eq noCall]
      · obtain ⟨step, stepInside, rfl, stepIsCall⟩ := wf.calls node inside operand isCall
        exact absurd path (wf.not_captures_call stepInside stepIsCall)
  · rintro (isPlaceholder | ⟨operand, isOpen, path⟩)
    · exact .placeholder found isPlaceholder
    · have noCall := NodeKind.isValue_of_mem_openOperands isOpen
      refine .operand found noCall (NodeKind.mem_operands.2 (Or.inl ?_)) path
      rwa [← NodeKind.openOperands_eq noCall]

theorem capturing_concat (done : List Node) (node : Node) :
    capturing (done ++ [node]) =
      if captures (capturing done) node.kind then node.id :: capturing done
      else capturing done := by
  rw [capturing, List.foldl_append]
  rfl

theorem Completed.mem_capturing {done : List Node} (completed : graph.Completed done)
    (wf : graph.WellFormed) {id : NodeId} :
    id ∈ capturing done ↔ (∃ node ∈ done, node.id = id) ∧ graph.Captures id := by
  induction completed generalizing id with
  | nil => simp [capturing]
  | @snoc done node completed inside fresh operands ih =>
    have hit : captures (capturing done) node.kind = true ↔ graph.Captures node.id := by
      rw [Graph.captures_iff, wf.captures_iff inside]
      refine or_congr_right ?_
      constructor
      · rintro ⟨operand, isOpen, found⟩
        exact ⟨operand, isOpen, (ih.1 found).2⟩
      · rintro ⟨operand, isOpen, path⟩
        have isOperand := NodeKind.mem_operands_of_mem_openOperands isOpen
        exact ⟨operand, isOpen, ih.2 ⟨operands operand isOperand, path⟩⟩
    rw [capturing_concat]
    by_cases path : graph.Captures node.id
    · rw [if_pos (hit.2 path), List.mem_cons, ih]
      constructor
      · rintro (rfl | ⟨⟨other, member, rfl⟩, found⟩)
        · exact ⟨⟨node, by simp, rfl⟩, path⟩
        · exact ⟨⟨other, List.mem_append_left _ member, rfl⟩, found⟩
      · rintro ⟨⟨other, member, rfl⟩, found⟩
        rcases List.mem_append.1 member with member | member
        · exact Or.inr ⟨⟨other, member, rfl⟩, found⟩
        · exact Or.inl (congrArg Node.id (List.mem_singleton.1 member))
    · rw [if_neg (mt hit.1 path), ih]
      constructor
      · rintro ⟨⟨other, member, rfl⟩, found⟩
        exact ⟨⟨other, List.mem_append_left _ member, rfl⟩, found⟩
      · rintro ⟨⟨other, member, rfl⟩, found⟩
        rcases List.mem_append.1 member with member | member
        · exact ⟨⟨other, member, rfl⟩, found⟩
        · rw [List.mem_singleton.1 member] at found
          exact absurd found path

theorem meetVariable_eq (names : List String) (node : Node) (distinct : names.Nodup) :
    meetVariable names node = (names ++ node.kind.variableName?.toList).eraseDups := by
  have same := (List.eraseDups_eq_self distinct).symm
  cases kind : node.kind with
  | «variable» name =>
    simp only [meetVariable, kind, NodeKind.variableName?, Option.toList_some,
      List.eraseDups_concat, ← same]
    by_cases known : name ∈ names <;> simp [known]
  | _ => simpa [meetVariable, kind, NodeKind.variableName?] using same

theorem freeVariables_eq (done : List Node) :
    freeVariables done = (done.filterMap fun node => node.kind.variableName?).eraseDups := by
  induction done using List.reverseRecOn with
  | nil => rfl
  | append_singleton done node ih =>
    have step : freeVariables (done ++ [node]) = meetVariable (freeVariables done) node := by
      simp [freeVariables]
    rw [step, meetVariable_eq _ _ (ih ▸ List.nodup_eraseDups _), ih,
      List.eraseDups_eraseDups_append, List.filterMap_append]
    cases name : node.kind.variableName? <;> simp [name]

theorem WellFormed.freeVariables_reach (wf : graph.WellFormed) (roots : List NodeId) :
    freeVariables (graph.reach roots) = ((roots.flatMap graph.postorder).filterMap fun node =>
      node.kind.variableName?).eraseDups := by
  rw [freeVariables_eq, (wf.reach_eq roots).2, List.eraseDups_filterMap_eraseDups]

end QueryGraph.Graph
