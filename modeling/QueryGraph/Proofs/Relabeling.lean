import QueryGraph.Proofs.Homomorphisms
import QueryGraph.Proofs.Labels
import QueryGraph.Proofs.Renaming

namespace QueryGraph

open Extraction

namespace Graph

/-- Whether names are exchanged as the labels of the nodes of one graph give way to those of their
counterparts, and no others. -/
structure Relabels (graph graph' : Graph) (roots roots' : List NodeId) (options options' : Options)
    (relabel : String → String) : Prop where
  labels : ∀ node ∈ graph.plannedNodes roots, ∀ node' ∈ graph'.plannedNodes roots',
    graph.Counterparts graph' node.id node'.id → node.name = none →
      relabel (options.label node.id) = options'.label node'.id
  bijective : Set.BijOn relabel (graph.labels roots options) (graph'.labels roots' options')
  others : ∀ name, name ∉ graph.labels roots options → relabel name = name

/-- Takes the label of an unnamed node among those given to the label that its counterpart has under
other options, and leaves other names as they are. -/
def relabeling (f : NodeId → NodeId) (options options' : Options) (nodes : List Node)
    (name : String) : String :=
  match nodes.find? fun node => node.name.isNone && options.label node.id == name with
  | some node => options'.label (f node.id)
  | none => name

theorem relabeling_label {f : NodeId → NodeId} {options options' : Options} {nodes : List Node}
    {node : Node} (member : node ∈ nodes) (unnamed : node.name = none) :
    relabeling f options options' nodes (options.label node.id) = options'.label (f node.id) := by
  unfold relabeling
  split
  · rename_i other found
    have same := List.find?_some found
    simp only [Bool.and_eq_true, beq_iff_eq] at same
    rw [Options.label_injective same.2]
  · rename_i missing
    have absent := List.find?_eq_none.1 missing node member
    simp [unnamed] at absent

theorem relabeling_other {f : NodeId → NodeId} {options options' : Options} {nodes : List Node}
    {name : String}
    (noLabel : ∀ node ∈ nodes, node.name = none → options.label node.id ≠ name) :
    relabeling f options options' nodes name = name := by
  unfold relabeling
  split
  · rename_i node found
    have same := List.find?_some found
    simp only [Bool.and_eq_true, beq_iff_eq, Option.isNone_iff_eq_none] at same
    exact absurd same.2 (noLabel node (List.mem_of_find?_eq_some found) same.1)
  · rfl

variable {graph : Graph} {rest roots : List NodeId} {last : NodeId} {bindings : Bindings}
  {options options' : Options}

theorem WellFormed.inside_of_planned (wf : graph.WellFormed) {node : Node}
    (planned : node ∈ graph.plannedNodes roots) : node ∈ graph.nodes := by
  rcases List.eq_nil_or_concat roots with rfl | ⟨rest, last, rfl⟩
  · cases planned
  · rw [List.concat_eq_append, plannedNodes_concat, wf.mem_statementNodes] at planned
    rcases planned with becomes | ⟨inside, _⟩
    · exact becomes.inside
    · exact inside

theorem WellFormed.labelsClear (wf : graph.WellFormed)
    (apart : ∀ node ∈ graph.nodes, options.label node.id ∉
      graph.nodes.filterMap (·.kind.variableName?) ++ bindings.entries.keys ++
        graph.nodes.filterMap (·.name)) : graph.LabelsClear roots bindings options := by
  rintro _ _ ⟨labelled, planned, _, rfl⟩ isGiven
  apply apart labelled (wf.inside_of_planned planned)
  rw [givenNames, List.mem_append, List.mem_append] at isGiven
  rw [List.mem_append, List.mem_append]
  rcases isGiven with (isVariable | isBinding) | isName
  · obtain ⟨node, inside, _, kind⟩ := wf.mem_variableNames.1 isVariable
    exact Or.inl (Or.inl (List.mem_filterMap.2 ⟨node, inside, by rw [kind]; rfl⟩))
  · split at isBinding
    · exact Or.inl (Or.inr (List.mem_filter.1 isBinding).1)
    · cases isBinding
  · obtain ⟨node, planned, name⟩ := List.mem_filterMap.1 isName
    exact Or.inr (List.mem_filterMap.2 ⟨node, wf.inside_of_planned planned, name⟩)

theorem mem_givenNames_of_planned (bindings : Bindings) (options : Options) {node : Node}
    (planned : node ∈ graph.plannedNodes roots) {name : String} (given : node.name = some name) :
    name ∈ graph.givenNames roots bindings options :=
  List.mem_append_right _ (List.mem_filterMap.2 ⟨node, planned, given⟩)

/-- Checks roots and, if none of them is at fault, looks up the variables below them. -/
def preparation (graph : Graph) (roots : List NodeId) (bindings : Bindings) :
    Except RenderError (List (String × Constant)) := do
  checkRoots graph (capturing (graph.reach roots)) roots
  bindAll bindings (freeVariables (graph.reach roots))

theorem preparation_ok {bound : List (String × Constant)}
    (h : graph.preparation roots bindings = .ok bound) :
    (∀ root ∈ roots, graph.Renderable (capturing (graph.reach roots)) root) ∧
      bindAll bindings (freeVariables (graph.reach roots)) = .ok bound := by
  obtain ⟨checked, bound⟩ := Outcome.then_eq_ok.1 h
  exact ⟨checkRoots_ok checked, bound⟩

theorem outline_eq : graph.outline rest last bindings options =
    graph.preparation (rest ++ [last]) bindings >>= fun bound =>
      let plan := graph.planOf rest last options
      let bound := bound ++ if options.bindUnreferenced then bindings.entries.filter fun entry =>
        !(freeVariables (graph.reach (rest ++ [last]))).contains entry.1 else []
      (rest.foldlM (plan.passRoot graph (Entries.keys bound)) ⟨[], []⟩ >>= fun progress =>
        plan.pass graph (Entries.keys bound) progress last) >>= fun progress =>
          return ⟨plan, bound, progress.hoisted⟩ := by
  simp only [preparation, bind_assoc]
  rfl

theorem bindAll_alike (related : NodeId → NodeId → Prop) (names : List String) :
    Outcome.Alike (RenderError.Matches related) Eq (bindAll bindings names)
      (bindAll bindings names) := by
  cases outcome : bindAll bindings names with
  | ok bound => exact .ok rfl
  | error error =>
    obtain ⟨_, name, _, _, _, _, rfl⟩ := bindAll_error outcome
    exact .error (.unboundVariable name .missing)

theorem forced_subset (known : ∀ root ∈ rest ++ [last], root ∈ graph.ids) :
    ∀ id ∈ (graph.planOf rest last options).forced, id ∈ graph.ids := by
  intro id member
  simp only [Graph.planOf] at member
  split at member
  · exact known id member
  · exact known id (List.mem_append_left _ member)

namespace Renamed

variable {f : NodeId → NodeId} {graph' : Graph} (renamed : Renamed f graph graph')

include renamed

theorem capturing_known : ∀ id ∈ (graph.planOf rest last options).capturing, id ∈ graph.ids :=
  capturing_subset renamed.reach_subset

theorem hoists (known : ∀ root ∈ rest ++ [last], root ∈ graph.ids) {node : Node}
    (inside : node ∈ graph.nodes) :
    ((graph.planOf rest last options).rename f options').hoists (node.rename f) =
      (graph.planOf rest last options).hoists node := by
  rw [Plan.hoists, Plan.hoists, renamed.wants (forced_subset known) inside, Node.rename_id,
    Plan.rename, renamed.contains_map renamed.capturing_known inside]

theorem statementsBelow (known : ∀ root ∈ rest ++ [last], root ∈ graph.ids) {root : NodeId}
    (isRoot : root ∈ rest ++ [last]) :
    graph'.statementsBelow (rest.map f) (f last) (f root) =
      (graph.statementsBelow rest last root).map (Node.rename f) := by
  obtain ⟨node, inside, rfl⟩ := mem_ids.1 (known root isRoot)
  have isRoot' : f node.id ∈ rest.map f ++ [f last] := by
    simpa using List.mem_map_of_mem (f := f) isRoot
  rw [← renamed.wf'.filter_hoists .standard isRoot',
    ← renamed.wf.filter_hoists .standard isRoot, renamed.planOf known .standard,
    renamed.postorder inside, List.filter_map]
  refine congrArg _ (List.filter_congr fun other met => ?_)
  exact renamed.hoists known (renamed.mem_of_postorder met)

theorem variableRoot {root : Node} (inside : root ∈ graph.nodes) :
    graph'.variableRoot (f root.id) = (graph.variableRoot root.id).map (Node.rename f) := by
  rw [Graph.variableRoot, Graph.variableRoot, renamed.find? inside,
    renamed.wf.find?_eq_some.2 ⟨inside, rfl⟩]
  cases isVariable : root.kind.variableName?.isSome <;> simp [isVariable]

theorem statementNodes (known : ∀ root ∈ rest ++ [last], root ∈ graph.ids) :
    graph'.statementNodes (rest.map f) (f last) =
      (graph.statementNodes rest last).map (Node.rename f) := by
  have turns : (rest.map f).flatMap (fun root =>
      graph'.statementsBelow (rest.map f) (f last) root ++ graph'.variableRoot root) =
      (rest.flatMap fun root =>
        graph.statementsBelow rest last root ++ graph.variableRoot root).map (Node.rename f) := by
    rw [List.flatMap_map, List.map_flatMap]
    refine List.flatMap_congr fun root isRoot => ?_
    have among : root ∈ rest ++ [last] := List.mem_append_left _ isRoot
    rw [renamed.statementsBelow known among, List.map_append]
    obtain ⟨node, inside, rfl⟩ := mem_ids.1 (known root among)
    rw [renamed.variableRoot inside]
  rw [Graph.statementNodes, Graph.statementNodes, turns, renamed.statementsBelow known (by simp),
    ← List.map_append, renamed.eraseDups_map]
  intro node member
  have planned : node ∈ graph.statementNodes rest last := List.mem_eraseDups.2 member
  rw [← plannedNodes_concat] at planned
  exact renamed.wf.inside_of_planned planned

theorem plannedNodes (known : ∀ root ∈ roots, root ∈ graph.ids) :
    graph'.plannedNodes (roots.map f) = (graph.plannedNodes roots).map (Node.rename f) := by
  rcases List.eq_nil_or_concat roots with rfl | ⟨rest, last, rfl⟩
  · rfl
  · rw [List.concat_eq_append] at known ⊢
    rw [List.map_append, List.map_singleton, plannedNodes_concat, plannedNodes_concat,
      renamed.statementNodes known]

theorem variableNames (known : ∀ root ∈ roots, root ∈ graph.ids) :
    graph'.variableNames (roots.map f) = graph.variableNames roots := by
  rw [Graph.variableNames, renamed.flatMap_postorder (renamed.counterparts_map known),
    List.filterMap_map]
  simp [Graph.variableNames, Function.comp_def]

theorem givenNames (known : ∀ root ∈ roots, root ∈ graph.ids)
    (same : options'.bindUnreferenced = options.bindUnreferenced) :
    graph'.givenNames (roots.map f) bindings options' =
      graph.givenNames roots bindings options := by
  rw [Graph.givenNames, renamed.variableNames known, renamed.plannedNodes known, same,
    List.filterMap_map]
  rfl

theorem preparation (bindings : Bindings) {roots' : List NodeId}
    (counterparts : List.Forall₂ (graph.Counterparts graph') roots roots') :
    Outcome.Alike (RenderError.Matches (graph.Counterparts graph')) Eq
      (graph.preparation roots bindings) (graph'.preparation roots' bindings) := by
  rw [Graph.preparation, Graph.preparation, renamed.capturing_reach counterparts,
    renamed.reach counterparts, freeVariables_rename]
  exact (renamed.checkRoots (capturing_subset renamed.reach_subset) counterparts).bind
    fun _ _ _ => bindAll_alike _ _

theorem relabels (known : ∀ root ∈ roots, root ∈ graph.ids) (options options' : Options) :
    graph.Relabels graph' roots (roots.map f) options options'
      (relabeling f options options' (graph.plannedNodes roots)) where
  labels node planned node' _ counterparts unnamed := by
    rw [relabeling_label planned unnamed,
      renamed.eq_of_counterparts (renamed.wf.inside_of_planned planned) counterparts]
  bijective := by
    refine ⟨?_, ?_, ?_⟩
    · rintro _ ⟨node, planned, unnamed, rfl⟩
      rw [relabeling_label planned unnamed]
      refine ⟨node.rename f, ?_, unnamed, rfl⟩
      rw [renamed.plannedNodes known]
      exact List.mem_map_of_mem planned
    · rintro _ ⟨a, ha, unnamed, rfl⟩ _ ⟨b, hb, unnamed', rfl⟩ same
      rw [relabeling_label ha unnamed, relabeling_label hb unnamed'] at same
      rw [renamed.eq_of_id (renamed.wf.inside_of_planned ha) (renamed.wf.inside_of_planned hb)
        (Options.label_injective same)]
    · rintro _ ⟨node', planned', unnamed, rfl⟩
      rw [renamed.plannedNodes known] at planned'
      obtain ⟨node, planned, rfl⟩ := List.mem_map.1 planned'
      exact ⟨_, ⟨node, planned, unnamed, rfl⟩, relabeling_label planned unnamed⟩
  others name isNone := relabeling_other fun node planned unnamed same =>
    isNone ⟨node, planned, unnamed, same⟩

end Renamed

/-- Graphs that differ in their ids alone and are rendered from roots of theirs, in the same way
but for the labels, none of which is a name from elsewhere. -/
structure SideBySide (f : NodeId → NodeId) (graph graph' : Graph) (roots : List NodeId)
    (bindings : Bindings) (options options' : Options) (relabel : String → String) : Prop
    extends Renamed f graph graph' where
  known : ∀ root ∈ roots, root ∈ graph.ids
  same : options'.bindUnreferenced = options.bindUnreferenced
  relabels : graph.Relabels graph' roots (roots.map f) options options' relabel
  clear : ∀ label ∈ graph.labels roots options, label ∉ graph.givenNames roots bindings options
  clear' : ∀ label ∈ graph'.labels (roots.map f) options',
    label ∉ graph'.givenNames (roots.map f) bindings options'

namespace SideBySide

variable {f : NodeId → NodeId} {graph' : Graph} {relabel : String → String}
  (both : SideBySide f graph graph' roots bindings options options' relabel)

include both

theorem given {name : String} (isGiven : name ∈ graph.givenNames roots bindings options) :
    relabel name = name :=
  both.relabels.others name fun isLabel => both.clear name isLabel isGiven

theorem planned {node : Node} (isPlanned : node ∈ graph.plannedNodes roots) :
    node.rename f ∈ graph'.plannedNodes (roots.map f) := by
  rw [both.plannedNodes both.known]
  exact List.mem_map_of_mem isPlanned

theorem statementName {node : Node} (isPlanned : node ∈ graph.plannedNodes roots) :
    statementName options' (node.rename f) = relabel (Extraction.statementName options node) := by
  cases name : node.name with
  | some name' =>
    have isGiven := mem_givenNames_of_planned bindings options isPlanned name
    simp [Extraction.statementName, name, both.given isGiven]
  | none =>
    have inside := both.wf.inside_of_planned isPlanned
    simp [Extraction.statementName, name, both.relabels.labels node isPlanned _
      (both.planned isPlanned) (both.counterpart inside) name]

/-- Names stay apart, whether they are labels or not. -/
theorem injective {a b : String}
    (ha : a ∈ graph.labels roots options ∨ a ∈ graph.givenNames roots bindings options)
    (hb : b ∈ graph.labels roots options ∨ b ∈ graph.givenNames roots bindings options)
    (same : relabel a = relabel b) : a = b := by
  have apart {label name : String} (isLabel : label ∈ graph.labels roots options)
      (isGiven : name ∈ graph.givenNames roots bindings options) : relabel label ≠ name := by
    rintro rfl
    rw [← both.givenNames both.known both.same] at isGiven
    exact both.clear' _ (both.relabels.bijective.mapsTo isLabel) isGiven
  rcases ha with ha | ha
  · rcases hb with hb | hb
    · exact both.relabels.bijective.injOn ha hb same
    · exact absurd (same.trans (both.given hb)) (apart ha hb)
  · rcases hb with hb | hb
    · exact absurd (same.symm.trans (both.given ha)) (apart hb ha)
    · rw [← both.given ha, same, both.given hb]

omit both in
theorem name_known {node : Node} (isPlanned : node ∈ graph.plannedNodes roots) :
    Extraction.statementName options node ∈ graph.labels roots options ∨
      Extraction.statementName options node ∈ graph.givenNames roots bindings options := by
  cases name : node.name with
  | some name' =>
    have isGiven := mem_givenNames_of_planned bindings options isPlanned name
    exact Or.inr (by simpa [Extraction.statementName, name] using isGiven)
  | none => exact Or.inl ⟨node, isPlanned, name, by simp [Extraction.statementName, name]⟩

/-- How the errors of two passes are related. -/
inductive Stops (relabel : String → String) : RenderError → RenderError → Prop where
  | escape (name : String) :
      Stops relabel (.placeholderEscape (.statement name)) (.placeholderEscape (.statement name))
  | duplicate (name : String) :
      Stops relabel (.duplicateStatement name) (.duplicateStatement (relabel name))

/-- How the statements of two passes are related. -/
def Hoists (f : NodeId → NodeId) (graph : Graph) (roots : List NodeId)
    (hoisted hoisted' : List Node) : Prop :=
  hoisted' = hoisted.map (Node.rename f) ∧ ∀ node ∈ hoisted, node ∈ graph.plannedNodes roots

variable {plan : Plan} (taken : List String)

theorem names_rename (options_eq : plan.options = options)
    (bound : ∀ name ∈ taken, name ∈ graph.givenNames roots bindings options)
    {hoisted : List Node} (earlier : ∀ node ∈ hoisted, node ∈ graph.plannedNodes roots) :
    taken ++ (plan.rename f options').names (hoisted.map (Node.rename f)) =
      (taken ++ plan.names hoisted).map relabel := by
  subst options_eq
  rw [List.map_append, List.map_congr_left fun name member => both.given (bound name member)]
  simp only [Plan.names, List.map_map, List.map_id']
  exact congrArg (taken ++ ·)
    (List.map_congr_left fun other member => both.statementName (earlier other member))

theorem contains_names (options_eq : plan.options = options)
    (bound : ∀ name ∈ taken, name ∈ graph.givenNames roots bindings options)
    {hoisted : List Node} (earlier : ∀ node ∈ hoisted, node ∈ graph.plannedNodes roots)
    {node : Node} (isPlanned : node ∈ graph.plannedNodes roots) :
    ((taken ++ plan.names hoisted).map relabel).contains
        (relabel (Extraction.statementName options node)) =
      (taken ++ plan.names hoisted).contains (Extraction.statementName options node) := by
  subst options_eq
  have among : ∀ name ∈ taken ++ plan.names hoisted,
      name ∈ graph.labels roots plan.options ∨
        name ∈ graph.givenNames roots bindings plan.options := by
    intro name member
    rcases List.mem_append.1 member with member | member
    · exact Or.inr (bound name member)
    · obtain ⟨other, isHoisted, rfl⟩ := List.mem_map.1 member
      exact name_known (earlier other isHoisted)
  rw [Bool.eq_iff_iff, List.contains_iff_mem, List.contains_iff_mem]
  constructor
  · intro member
    obtain ⟨name, listed, same⟩ := List.mem_map.1 member
    rwa [← both.injective (among name listed) (name_known isPlanned) same]
  · exact List.mem_map_of_mem

theorem add (options_eq : plan.options = options)
    (bound : ∀ name ∈ taken, name ∈ graph.givenNames roots bindings options)
    {hoisted hoisted' : List Node} (hoists : Hoists f graph roots hoisted hoisted') {node : Node}
    (isPlanned : node ∈ graph.plannedNodes roots) :
    Outcome.Alike (Stops relabel) (Hoists f graph roots) (plan.add taken hoisted node)
      ((plan.rename f options').add taken hoisted' (node.rename f)) := by
  obtain ⟨rfl, earlier⟩ := hoists
  have names := both.names_rename taken options_eq bound earlier
  have known := both.contains_names taken options_eq bound earlier isPlanned
  subst options_eq
  have name : Extraction.statementName (plan.rename f options').options (node.rename f) =
      relabel (Extraction.statementName plan.options node) := both.statementName isPlanned
  simp only [Plan.add, names, name, known]
  split
  · exact .error (.duplicate _)
  · refine .ok ⟨by simp, ?_⟩
    intro other member
    rcases List.mem_append.1 member with member | isLast
    · exact earlier other member
    · rw [List.mem_singleton.1 isLast]
      exact isPlanned

end SideBySide

namespace SideBySide

variable {f : NodeId → NodeId} {graph' : Graph} {relabel : String → String}
  (both : SideBySide f graph graph' (rest ++ [last]) bindings options options' relabel)
  {taken : List String}
  (bound : ∀ name ∈ taken, name ∈ graph.givenNames (rest ++ [last]) bindings options)

include both bound

theorem enter {hoisted hoisted' : List Node}
    (hoists : Hoists f graph (rest ++ [last]) hoisted hoisted') {node : Node}
    (inside : node ∈ graph.nodes)
    (isPlanned : (graph.planOf rest last options).hoists node = true →
      node ∈ graph.plannedNodes (rest ++ [last])) :
    Outcome.Alike (Stops relabel) (Hoists f graph (rest ++ [last]))
      ((graph.planOf rest last options).enter taken hoisted node)
      (((graph.planOf rest last options).rename f options').enter taken hoisted'
        (node.rename f)) := by
  have wants : ((graph.planOf rest last options).rename f options').wants (node.rename f) =
      (graph.planOf rest last options).wants node :=
    both.wants (forced_subset both.known) inside options'
  have captured := both.contains_map
    (both.capturing_known : ∀ id ∈ (graph.planOf rest last options).capturing, id ∈ graph.ids)
    inside
  unfold Plan.enter
  rw [wants, Node.rename_id, Node.rename_name, Plan.rename, captured]
  by_cases wanted : (graph.planOf rest last options).wants node = true
  · by_cases capturing : (graph.planOf rest last options).capturing.contains node.id = true
    · simp only [wanted, capturing, Bool.not_true, Bool.false_eq_true, if_false, if_true]
      cases node.name with
      | some name => exact .error (.escape name)
      | none => exact .ok hoists
    · simp only [wanted, capturing, Bool.not_true, Bool.false_eq_true, if_false]
      refine both.add taken rfl bound hoists (isPlanned (Plan.hoists_iff.2 ⟨wanted, ?_⟩))
      exact fun member => capturing (List.contains_iff_mem.2 member)
  · simp only [wanted, Bool.not_false, if_true]
    exact .ok hoists

/-- How the progress of two passes is related. -/
structure Passes (f : NodeId → NodeId) (graph : Graph) (roots : List NodeId)
    (progress progress' : Plan.Progress) : Prop where
  done : progress'.done = progress.done.map (Node.rename f)
  completed : graph.Completed progress.done
  hoists : Hoists f graph roots progress.hoisted progress'.hoisted

theorem pass {progress progress' : Plan.Progress}
    (passes : Passes f graph (rest ++ [last]) progress progress') {root : Node}
    (inside : root ∈ graph.nodes)
    (below : ∀ node ∈ graph.postorder root.id,
      (graph.planOf rest last options).hoists node = true →
        node ∈ graph.plannedNodes (rest ++ [last])) :
    Outcome.Alike (Stops relabel) (Passes f graph (rest ++ [last]))
      ((graph.planOf rest last options).pass graph taken progress root.id)
      (((graph.planOf rest last options).rename f options').pass graph' taken progress'
        (f root.id)) := by
  obtain ⟨done, hoisted⟩ := progress
  obtain ⟨_, hoisted'⟩ := progress'
  obtain ⟨rfl, completed, hoists⟩ := passes
  have completed' := (both.wf.walkTo_eq root.id completed).1
  have new := both.wf.walkTo_append root.id completed
  simp only [Plan.pass, both.walkTo completed inside, List.length_map, ← List.map_drop]
  refine Outcome.Alike.bind (Outcome.Alike.foldlM ?_ hoists) fun _ _ hoists =>
    .ok ⟨rfl, completed', hoists⟩
  intro node member _ _ hoists
  rw [new, List.drop_left] at member
  have met : node ∈ graph.postorder root.id :=
    (List.mem_filter.1 (List.mem_eraseDups.1 member)).1
  exact both.enter bound hoists (both.mem_of_postorder met) (below node met)

theorem passRoot {progress progress' : Plan.Progress}
    (passes : Passes f graph (rest ++ [last]) progress progress') {root : Node}
    (inside : root ∈ graph.nodes) (isPlanned : root ∈ graph.plannedNodes (rest ++ [last]))
    (below : ∀ node ∈ graph.postorder root.id,
      (graph.planOf rest last options).hoists node = true →
        node ∈ graph.plannedNodes (rest ++ [last])) :
    Outcome.Alike (Stops relabel) (Passes f graph (rest ++ [last]))
      ((graph.planOf rest last options).passRoot graph taken progress root.id)
      (((graph.planOf rest last options).rename f options').passRoot graph' taken progress'
        (f root.id)) := by
  refine Outcome.Alike.bind (both.pass bound passes inside below) ?_
  rintro ⟨done, hoisted⟩ ⟨_, _⟩ ⟨rfl, completed, hoists⟩
  obtain ⟨rfl, earlier⟩ := hoists
  have known : ((hoisted.map (Node.rename f)).map (·.id)).contains (f root.id) =
      (hoisted.map (·.id)).contains root.id := by
    have ids : ∀ id ∈ hoisted.map (·.id), id ∈ graph.ids := by
      intro id member
      obtain ⟨node, isHoisted, rfl⟩ := List.mem_map.1 member
      exact mem_ids.2 ⟨node, both.wf.inside_of_planned (earlier node isHoisted), rfl⟩
    rw [← both.contains_map ids inside, List.map_map, List.map_map]
    rfl
  simp only [both.find? inside, both.wf.find?_eq_some.2 ⟨inside, rfl⟩, known]
  split
  · exact .ok ⟨rfl, completed, rfl, earlier⟩
  · exact (both.add taken rfl bound ⟨rfl, earlier⟩ isPlanned).bind fun _ _ hoists =>
      .ok ⟨rfl, completed, hoists⟩

theorem allPasses (valid : ∀ root ∈ rest ++ [last], graph.CanBeRoot root) :
    Outcome.Alike (Stops relabel) (Passes f graph (rest ++ [last]))
      (rest.foldlM ((graph.planOf rest last options).passRoot graph taken) ⟨[], []⟩ >>=
        fun progress => (graph.planOf rest last options).pass graph taken progress last)
      ((rest.map f).foldlM
          (((graph.planOf rest last options).rename f options').passRoot graph' taken) ⟨[], []⟩ >>=
        fun progress => ((graph.planOf rest last options).rename f options').pass graph' taken
          progress (f last)) := by
  have covers : (graph.planOf rest last options).Covers graph rest (graph.reach (rest ++ [last]))
      (graph.plannedNodes (rest ++ [last])) := by
    rw [plannedNodes_concat]
    exact both.wf.covers fun root isRoot => valid root (List.mem_append_left _ isRoot)
  have below {root : NodeId} (isRoot : root ∈ rest ++ [last]) : ∀ node ∈ graph.postorder root,
      (graph.planOf rest last options).hoists node = true →
        node ∈ graph.plannedNodes (rest ++ [last]) :=
    fun node met => covers.hoisted node (both.wf.mem_reach_of_postorder isRoot met)
  have start : Passes f graph (rest ++ [last]) ⟨[], []⟩ ⟨[], []⟩ := ⟨rfl, .nil, rfl, nofun⟩
  refine Outcome.Alike.bind (Outcome.Alike.foldlM ?_ start) fun _ _ passes => ?_
  · intro root isRoot _ _ passes
    have among : root ∈ rest ++ [last] := List.mem_append_left _ isRoot
    obtain ⟨node, inside, rfl, _⟩ := valid root among
    exact both.passRoot bound passes inside
      (covers.forced _ isRoot node (both.wf.find?_eq_some.2 ⟨inside, rfl⟩)) (below among)
  · obtain ⟨node, inside, rfl, _⟩ := valid last (by simp)
    exact both.pass bound passes inside (below (by simp))

omit bound in
theorem matches_of_stops {met : List Node} {error error' : RenderError}
    (bound : ∀ name ∈ taken, name ∈ graph.givenNames (rest ++ [last]) bindings options)
    (stopped : (graph.planOf rest last options).Stopped taken met
      (graph.plannedNodes (rest ++ [last])) error) (stops : Stops relabel error error') :
    error.Matches (graph.Counterparts graph') error' := by
  cases stops with
  | escape name => exact .statement name
  | duplicate name =>
    suffices isGiven : name ∈ graph.givenNames (rest ++ [last]) bindings options by
      rw [both.given isGiven]
      exact .duplicateStatement name
    cases stopped with
    | @duplicate hoisted node earlier member fresh known =>
      rcases List.mem_append.1 known with isBound | isHoisted
      · exact bound _ isBound
      · obtain ⟨other, isHoisted, same⟩ := List.mem_map.1 isHoisted
        have same : Extraction.statementName options other =
          Extraction.statementName options node := same
        cases name : node.name with
        | some given =>
          have isGiven := mem_givenNames_of_planned bindings options member name
          simpa [Extraction.statementName, name, Graph.planOf] using isGiven
        | none =>
          cases otherName : other.name with
          | some given =>
            have isGiven := mem_givenNames_of_planned bindings options (earlier other isHoisted)
              otherName
            simp only [Extraction.statementName, otherName, Option.getD_some] at same
            rw [same] at isGiven
            exact isGiven
          | none =>
            simp only [Extraction.statementName, name, otherName, Option.getD_none] at same
            have one := both.wf.eq_of_id (both.wf.inside_of_planned (earlier other isHoisted))
              (both.wf.inside_of_planned member) (Options.label_injective same)
            exact absurd (one ▸ isHoisted) fresh

omit bound in
theorem outline : Outcome.Alike (RenderError.Matches (graph.Counterparts graph'))
    (fun outline outline' => outline.plan = graph.planOf rest last options ∧
      outline' = ⟨outline.plan.rename f options', outline.bound,
        outline.hoisted.map (Node.rename f)⟩)
    (graph.outline rest last bindings options)
    (graph'.outline (rest.map f) (f last) bindings options') := by
  have whole : rest.map f ++ [f last] = (rest ++ [last]).map f := by simp
  have counterparts := both.counterparts_map both.known
  have free : Graph.freeVariables (graph'.reach ((rest ++ [last]).map f)) =
      Graph.freeVariables (graph.reach (rest ++ [last])) := by
    rw [both.reach counterparts, freeVariables_rename]
  simp only [outline_eq, both.planOf both.known options options', whole, free, both.same]
  have prepares := (both.preparation bindings counterparts).mono (fun _ _ _ related => related)
    fun _ _ prepared same => And.intro (preparation_ok prepared) same
  refine prepares.bind ?_
  rintro bound _ ⟨⟨renderable, bound'⟩, rfl⟩
  have valid : ∀ root ∈ rest ++ [last], graph.CanBeRoot root := fun root isRoot =>
    (both.wf.renderable_iff isRoot).1 (renderable root isRoot)
  have isGiven : ∀ name ∈ Entries.keys (bound ++ if options.bindUnreferenced then
      bindings.entries.filter fun entry =>
        !(Graph.freeVariables (graph.reach (rest ++ [last]))).contains entry.1 else []),
      name ∈ graph.givenNames (rest ++ [last]) bindings options := by
    intro name member
    rw [keys_bound (bindAll_ok bound').1, both.wf.freeVariables_reach] at member
    exact List.mem_append_left _ member
  refine ((both.allPasses isGiven valid).mono (fun error _ failed stops => ?_)
    fun _ _ _ passes => passes).bind fun _ _ passes => .ok ⟨rfl, ?_⟩
  · have stopped := both.wf.stopped_of_passes renderable failed
    rw [← plannedNodes_concat] at stopped
    exact both.matches_of_stops isGiven stopped stops
  · rw [passes.hoists.1]

end SideBySide

end Graph

end QueryGraph
