import QueryGraph.Proofs.Outline
import QueryGraph.Render.Tree

namespace QueryGraph

open Extraction

namespace Graph

variable {ε κ : Type} {graph : Graph} {rest : List NodeId} {last : NodeId} {bindings : Bindings}
  {options : Options} {outline : Outline}

/-- Whether a node becomes a statement for what it is, how it is used, or where it stands among
the roots. -/
structure BecomesStatement (graph : Graph) (rest : List NodeId) (last : NodeId) (node : Node) :
    Prop where
  inside : node ∈ graph.nodes
  reached : graph.ReachedFrom (rest ++ [last]) node.id
  nameable : node.kind.isNameable = true
  free : ¬ graph.Captures node.id
  wanted : 1 < node.fanOut ∨ node.name.isSome = true ∨ node.id ∈ rest ∨
    (node.id = last ∧ rest ≠ [] ∧ 0 < node.fanOut)

/-- The names of the variables below the roots, in the order in which a walk first meets them. -/
def variableNames (graph : Graph) (roots : List NodeId) : List String :=
  ((roots.flatMap graph.postorder).filterMap fun node => node.kind.variableName?).eraseDups

/-- The roots that are variables. -/
def variableRoot (graph : Graph) (root : NodeId) : List Node :=
  (graph.find? root).toList.filter fun node => node.kind.variableName?.isSome

theorem WellFormed.mem_forced (wf : graph.WellFormed) {node : Node} (inside : node ∈ graph.nodes) :
    node.id ∈ (graph.planOf rest last options).forced ↔
      node.id ∈ rest ∨ (node.id = last ∧ rest ≠ [] ∧ 0 < node.fanOut) := by
  have used : isUsed graph node.id = true ↔ 0 < node.fanOut := by
    simp [isUsed, wf.find?_eq_some.2 ⟨inside, rfl⟩]
  simp only [planOf]
  by_cases same : node.id = last
  · subst same
    split <;> simp_all
  · split <;> simp [same]

theorem WellFormed.mem_capturing_reach (wf : graph.WellFormed) {roots : List NodeId} {node : Node}
    (member : node ∈ graph.reach roots) :
    node.id ∈ capturing (graph.reach roots) ↔ graph.Captures node.id :=
  ((wf.reach_eq roots).1.mem_capturing wf).trans
    ⟨And.right, fun path => ⟨⟨node, member, rfl⟩, path⟩⟩

theorem WellFormed.hoists_iff (wf : graph.WellFormed) {node : Node}
    (member : node ∈ graph.reach (rest ++ [last])) :
    (graph.planOf rest last options).hoists node = true ↔
      graph.BecomesStatement rest last node := by
  obtain ⟨inside, reached⟩ := wf.mem_reach.1 member
  have captured : node.id ∈ (graph.planOf rest last options).capturing ↔
      graph.Captures node.id := wf.mem_capturing_reach member
  have forced : node.id ∈ (graph.planOf rest last options).forced ↔ _ := wf.mem_forced inside
  rw [Plan.hoists_iff, captured]
  simp only [Plan.wants, Bool.and_eq_true, Bool.or_eq_true, decide_eq_true_eq,
    List.contains_iff_mem, forced]
  constructor
  · rintro ⟨⟨nameable, wanted⟩, free⟩
    exact ⟨inside, reached, nameable, free, by simpa only [or_assoc] using wanted⟩
  · rintro ⟨_, _, nameable, free, wanted⟩
    exact ⟨⟨nameable, by simpa only [or_assoc] using wanted⟩, free⟩

theorem Outlines.hoists_iff (outlines : graph.Outlines rest last bindings options outline)
    (wf : graph.WellFormed) {node : Node} (member : node ∈ graph.reach (rest ++ [last])) :
    outline.plan.hoists node = true ↔ graph.BecomesStatement rest last node := by
  rw [outlines.plan, wf.hoists_iff member]

theorem WellFormed.mem_reach_root (wf : graph.WellFormed) {roots : List NodeId} {node : Node}
    (inside : node ∈ graph.nodes) (isRoot : node.id ∈ roots) : node ∈ graph.reach roots :=
  wf.mem_reach.2 ⟨inside, node.id, isRoot, .refl _⟩

theorem WellFormed.renderable_iff (wf : graph.WellFormed) {roots : List NodeId} {root : NodeId}
    (isRoot : root ∈ roots) : graph.Renderable (capturing (graph.reach roots)) root ↔
      ∃ node ∈ graph.nodes, node.id = root ∧ node.kind.isValue = true ∧
        ¬ graph.Captures root := by
  constructor
  · rintro ⟨node, inside, rfl, isValue, free⟩
    exact ⟨node, inside, rfl, isValue,
      mt (wf.mem_capturing_reach (wf.mem_reach_root inside isRoot)).2 free⟩
  · rintro ⟨node, inside, rfl, isValue, free⟩
    exact ⟨node, inside, rfl, isValue,
      mt (wf.mem_capturing_reach (wf.mem_reach_root inside isRoot)).1 free⟩

theorem Outlines.not_captures_root (outlines : graph.Outlines rest last bindings options outline)
    (wf : graph.WellFormed) {root : NodeId} (isRoot : root ∈ rest ++ [last]) :
    ¬ graph.Captures root := by
  have renderable := outlines.renderable root isRoot
  rw [outlines.plan] at renderable
  obtain ⟨_, _, _, _, free⟩ := (wf.renderable_iff isRoot).1 renderable
  exact free

theorem WellFormed.becomes_of_root (wf : graph.WellFormed) {node : Node}
    (inside : node ∈ graph.nodes) (isRoot : node.id ∈ rest) (isValue : node.kind.isValue = true)
    (free : ¬ graph.Captures node.id) (noVariable : ¬ node.kind.variableName?.isSome = true) :
    graph.BecomesStatement rest last node := by
  have nameable : node.kind.isNameable = true := by
    cases kind : node.kind with
    | «variable» => simp [kind, NodeKind.variableName?] at noVariable
    | placeholder => exact absurd (.placeholder (wf.find?_eq_some.2 ⟨inside, rfl⟩) kind) free
    | call => simp [kind, NodeKind.isValue] at isValue
    | _ => rfl
  exact ⟨inside, ⟨node.id, List.mem_append_left _ isRoot, .refl _⟩, nameable, free,
    Or.inr (Or.inr (Or.inl isRoot))⟩

open Classical in
/-- What the nodes that use a node see of it: a reference if it becomes a statement. -/
noncomputable def inPlace (graph : Graph) (backend : Backend ε κ) (rest : List NodeId)
    (last : NodeId) (options : Options) (node : Node) (body : ε) : ε :=
  if graph.BecomesStatement rest last node then backend.reference (statementName options node)
  else body

open Classical in
/-- The nodes below a root that become statements, operands first, as often as they are met. -/
noncomputable def statementsBelow (graph : Graph) (rest : List NodeId) (last : NodeId)
    (root : NodeId) : List Node :=
  (graph.postorder root).filter fun node => decide (graph.BecomesStatement rest last node)

theorem WellFormed.filter_hoists (wf : graph.WellFormed) (options : Options) {root : NodeId}
    (isRoot : root ∈ rest ++ [last]) :
    (graph.postorder root).filter (graph.planOf rest last options).hoists =
      graph.statementsBelow rest last root := by
  classical
  apply List.filter_congr
  intro node met
  rw [Bool.eq_iff_iff, wf.hoists_iff (wf.mem_reach_of_postorder isRoot met), decide_eq_true_eq]

theorem Outlines.filter_hoists (outlines : graph.Outlines rest last bindings options outline)
    (wf : graph.WellFormed) {root : NodeId} (isRoot : root ∈ rest ++ [last]) :
    (graph.postorder root).filter outline.plan.hoists =
      graph.statementsBelow rest last root := by
  rw [outlines.plan, wf.filter_hoists options isRoot]

theorem Outlines.turn_eq (outlines : graph.Outlines rest last bindings options outline)
    (wf : graph.WellFormed) {root : NodeId} (isRoot : root ∈ rest) :
    (outline.plan.turn graph root).eraseDups =
      (graph.statementsBelow rest last root ++ graph.variableRoot root).eraseDups := by
  have among : root ∈ rest ++ [last] := List.mem_append_left _ isRoot
  obtain ⟨node, inside, rfl, isValue, _⟩ := outlines.renderable root among
  have met : node ∈ graph.postorder node.id := (wf.mem_postorder inside).2 ⟨inside, .refl _⟩
  have found := wf.find?_eq_some.2 ⟨inside, rfl⟩
  rw [Plan.turn, variableRoot, outlines.filter_hoists wf among, found, Option.toList_some]
  by_cases isVariable : node.kind.variableName?.isSome = true
  · simp [isVariable]
  · have becomes : graph.BecomesStatement rest last node :=
      wf.becomes_of_root inside isRoot isValue (outlines.not_captures_root wf among) isVariable
    have listed : node ∈ graph.statementsBelow rest last node.id := by
      simpa [statementsBelow, met] using becomes
    rw [List.eraseDups_concat, if_pos listed]
    simp [isVariable]

/-- The nodes that become statements, in the order in which a walk completes them, and the roots
before the last that are variables where their turns come. -/
noncomputable def statementNodes (graph : Graph) (rest : List NodeId) (last : NodeId) :
    List Node :=
  (rest.flatMap (fun root => graph.statementsBelow rest last root ++ graph.variableRoot root) ++
    graph.statementsBelow rest last last).eraseDups

theorem Outlines.hoisted_eq (outlines : graph.Outlines rest last bindings options outline)
    (wf : graph.WellFormed) : outline.hoisted = graph.statementNodes rest last := by
  rw [statementNodes, outlines.order, outlines.filter_hoists wf (by simp),
    ← List.eraseDups_eraseDups_append,
    List.eraseDups_flatMap_congr fun root isRoot => outlines.turn_eq wf isRoot,
    List.eraseDups_eraseDups_append]

theorem mem_variableRoot (wf : graph.WellFormed) {root : NodeId} {node : Node} :
    node ∈ graph.variableRoot root ↔
      node ∈ graph.nodes ∧ node.id = root ∧ node.kind.variableName?.isSome = true := by
  rw [variableRoot, List.mem_filter, Option.mem_toList, wf.find?_eq_some, and_assoc]

theorem mem_statementsBelow {root : NodeId} {node : Node} :
    node ∈ graph.statementsBelow rest last root ↔
      node ∈ graph.postorder root ∧ graph.BecomesStatement rest last node := by
  simp [statementsBelow]

theorem WellFormed.mem_statementNodes (wf : graph.WellFormed) {node : Node} :
    node ∈ graph.statementNodes rest last ↔ graph.BecomesStatement rest last node ∨
      (node ∈ graph.nodes ∧ node.id ∈ rest ∧ node.kind.variableName?.isSome = true) := by
  simp only [statementNodes, List.mem_eraseDups, List.mem_append, List.mem_flatMap,
    mem_statementsBelow, mem_variableRoot wf]
  constructor
  · rintro (⟨root, isRoot, ⟨_, becomes⟩ | ⟨inside, rfl, isVariable⟩⟩ | ⟨_, becomes⟩)
    · exact Or.inl becomes
    · exact Or.inr ⟨inside, isRoot, isVariable⟩
    · exact Or.inl becomes
  · rintro (becomes | ⟨inside, isRoot, isVariable⟩)
    · have met := wf.mem_reach.2 ⟨becomes.inside, becomes.reached⟩
      rw [(wf.reach_eq _).2, List.mem_eraseDups, List.mem_flatMap] at met
      obtain ⟨root, isRoot, met⟩ := met
      rcases List.mem_append.1 isRoot with isRoot | isLast
      · exact Or.inl ⟨root, isRoot, Or.inl ⟨met, becomes⟩⟩
      · exact Or.inr ⟨List.mem_singleton.1 isLast ▸ met, becomes⟩
    · exact Or.inl ⟨node.id, isRoot, Or.inr ⟨inside, rfl, isVariable⟩⟩

theorem Outlines.mem_hoisted (outlines : graph.Outlines rest last bindings options outline)
    (wf : graph.WellFormed) {node : Node} :
    node ∈ outline.hoisted ↔ graph.BecomesStatement rest last node ∨
      (node ∈ graph.nodes ∧ node.id ∈ rest ∧ node.kind.variableName?.isSome = true) := by
  rw [outlines.hoisted_eq wf, wf.mem_statementNodes]

theorem Outlines.body_eq (outlines : graph.Outlines rest last bindings options outline)
    (wf : graph.WellFormed) (backend : Backend ε κ) {node : Node}
    (member : node ∈ graph.reach (rest ++ [last])) (isValue : node.kind.isValue = true) :
    graph.body backend (outline.plan.settle backend) node =
      graph.body backend (graph.inPlace backend rest last options) node := by
  obtain ⟨inside, root, isRoot, path⟩ := wf.mem_reach.1 member
  have agree : ∀ other ∈ graph.postorder node.id, backend.Agree backend Eq Eq other.kind :=
    fun other _ => ⟨fun _ _ _ _ _ values calls => Backend.valueOf_congr values calls,
      fun _ _ _ values => Backend.callOf_congr values⟩
  refine wf.body_agree _ inside isValue agree ?_
  intro id isOperand other below _ same
  have found := wf.find?_eq_some.2 ⟨inside, rfl⟩
  obtain ⟨operand, operandInside, rfl⟩ := wf.operand inside isOperand
  obtain ⟨otherInside, path'⟩ := (wf.mem_postorder operandInside).1 below
  have reached := path.trans (.step found isOperand path')
  have hoists := outlines.hoists_iff wf (wf.mem_reach.2 ⟨otherInside, root, isRoot, reached⟩)
  rw [same, Plan.settle, inPlace, outlines.plan] at *
  by_cases becomes : graph.BecomesStatement rest last other
  · rw [if_pos becomes, if_pos (hoists.2 becomes)]
    rfl
  · rw [if_neg becomes, if_neg (mt hoists.1 becomes)]

/-- First come the constants of the variables below the roots, in the order in which a walk meets
them, and of all other variables if they are asked for. Then comes one statement for each node
that becomes one and for each root but the last that is a variable: a node where a walk from the
roots first completes it, such a root where its turn comes. -/
theorem Built.extract_statements (built : graph.Built) {backend : Backend ε κ}
    {rendering : Rendering ε}
    (rendered : graph.extract backend (rest ++ [last]) bindings options = .ok rendering) :
    ∃ (bound : Entries Constant) (nodes : List Node),
      rendering.statements = bindingStatements backend bound ++ nodes.map (fun node =>
        ⟨statementName options node,
          graph.body backend (graph.inPlace backend rest last options) node⟩) ∧
      bound.keys = graph.variableNames (rest ++ [last]) ++
        (if options.bindUnreferenced then bindings.entries.keys.filter fun name =>
          !(graph.variableNames (rest ++ [last])).contains name else []) ∧
      (∀ entry ∈ bound, bindings.get? entry.1 = some entry.2) ∧
      nodes.Nodup ∧
      (∀ node, node ∈ nodes ↔ graph.BecomesStatement rest last node ∨
        (node ∈ graph.nodes ∧ node.id ∈ rest ∧ node.kind.variableName?.isSome = true)) ∧
      nodes = (rest.flatMap (fun root =>
          graph.statementsBelow rest last root ++ graph.variableRoot root) ++
        graph.statementsBelow rest last last).eraseDups := by
  have wf := built.wellFormed
  rw [wf.extract_eq] at rendered
  obtain ⟨outline, h, rfl⟩ := Outcome.map_eq_ok.1 rendered
  have outlines := wf.outline_ok h
  refine ⟨outline.bound, outline.hoisted, ?_, ?_, outlines.constants, outlines.admitted.distinct,
    fun node => outlines.mem_hoisted wf, outlines.hoisted_eq wf⟩
  · refine congrArg (bindingStatements backend outline.bound ++ ·) (List.map_congr_left ?_)
    intro node member
    have isValue : node.kind.isValue = true := outlines.admitted.isValue member
    rw [statementOf, outlines.body_eq wf backend (outlines.reached node member) isValue,
      outlines.plan]
    rfl
  · rw [outlines.names, wf.freeVariables_reach]
    rfl

theorem sample_extract_statements :
    ∃ (rendering : Rendering Expr) (bound : Entries Constant) (nodes : List Node),
      sample.extract Backend.tree ([8, 1] ++ [9]) (.ofList [("rows", .bool true)]) .standard =
        .ok rendering ∧
      rendering.statements.map (·.name) =
        ["rows", "_00000004", "_00000007", "_00000008", "_00000001"] ∧
      rendering.statements = bindingStatements Backend.tree bound ++ nodes.map (fun node =>
        ⟨statementName .standard node,
          sample.body Backend.tree (sample.inPlace Backend.tree [8, 1] 9 .standard) node⟩) :=
  have ⟨rendering, rendered⟩ : ∃ rendering, sample.extract Backend.tree ([8, 1] ++ [9])
      (.ofList [("rows", .bool true)]) .standard = .ok rendering := ⟨_, rfl⟩
  have ⟨bound, nodes, statements, _⟩ := built_sample.extract_statements rendered
  ⟨rendering, bound, nodes, rendered, by cases rendered; rfl, statements⟩

end Graph

end QueryGraph
