import QueryGraph.Proofs.Images
import QueryGraph.Proofs.Plan

namespace QueryGraph

open Extraction

namespace Extraction

variable {ε κ : Type}

/-- The constants of variables. -/
def bindAll (bindings : Bindings) : List String → Except RenderError (List (String × Constant))
  | [] => .ok []
  | name :: rest =>
    match bindings.get? name with
    | none => .error (.unboundVariable name .missing)
    | some value => do
      let others ← bindAll bindings rest
      return (name, value) :: others

/-- The statements that bind constants. -/
def bindingStatements (backend : Backend ε κ) (bound : List (String × Constant)) :
    List (Statement ε) :=
  bound.map fun entry => ⟨entry.1, backend.constant entry.2⟩

theorem boundVariables_eq (backend : Backend ε κ) (bindings : Bindings) (free : List String) :
    boundVariables backend bindings free =
      (bindAll bindings free).map (bindingStatements backend) := by
  induction free with
  | nil => rfl
  | cons name rest ih =>
    cases found : bindings.get? name with
    | none => simp [boundVariables, bindAll, found]
    | some value =>
      simp only [boundVariables, bindAll, found, ih]
      cases bindAll bindings rest <;> rfl

/-- What does not depend on the back end when roots are rendered. -/
structure Outline where
  plan : Plan
  /-- The names that are bound to constants before all else. -/
  bound : List (String × Constant)
  /-- The nodes that become statements, in order. -/
  hoisted : List Node

def statementOf (backend : Backend ε κ) (graph : Graph) (plan : Plan) (node : Node) :
    Statement ε where
  name := statementName plan.options node
  body := graph.body backend (plan.settle backend) node

/-- What a back end makes of an outline. -/
def Outline.render (outline : Outline) (backend : Backend ε κ) (graph : Graph) (last : NodeId) :
    Rendering ε where
  statements := bindingStatements backend outline.bound ++
    outline.hoisted.map (statementOf backend graph outline.plan)
  final := graph.image backend (outline.plan.settle backend) last

/-- What is kept of a node that was rendered. -/
def resultOf (backend : Backend ε κ) (graph : Graph) (plan : Plan) (node : Node) :
    Rendered ε κ :=
  if node.kind.isValue then .value (graph.image backend (plan.settle backend) node.id)
  else .call (graph.callImage backend (plan.settle backend) node.id)

/-- The state of a pass that began with the statements `first`. -/
def snapshot (backend : Backend ε κ) (graph : Graph) (plan : Plan) (first : List (Statement ε))
    (progress : Plan.Progress) : Traversal ε κ (State ε) where
  done := progress.done
  results := (progress.done.map fun node =>
    (node.id, resultOf backend graph plan node)).reverse
  state := {
    statements := first ++ progress.hoisted.map (statementOf backend graph plan)
    hoisted := (progress.hoisted.map (·.id)).reverse }

section

variable {backend : Backend ε κ} {graph : Graph} {plan : Plan} {first : List (Statement ε)}

theorem results_snapshot (backend : Backend ε κ) (graph : Graph) (plan : Plan)
    (first : List (Statement ε)) (progress : Plan.Progress) :
    (snapshot backend graph plan first progress).results =
      graph.results backend (plan.settle backend) progress.done :=
  rfl

theorem hoist_snapshot (progress : Plan.Progress) (node : Node) :
    hoist backend plan (snapshot backend graph plan first progress).state node
        (graph.body backend (plan.settle backend) node) =
      (plan.add (first.map (·.name)) progress.hoisted node).map fun hoisted =>
        (backend.reference (statementName plan.options node),
          (snapshot backend graph plan first { progress with hoisted }).state) := by
  have known : ((snapshot backend graph plan first progress).state.statements.any fun other =>
      other.name == statementName plan.options node) =
      (first.map (·.name) ++ plan.names progress.hoisted).contains
        (statementName plan.options node) := by
    rw [Bool.eq_iff_iff]
    simp [snapshot, Plan.names, statementOf]
  simp only [hoist, State.push, known, Plan.add]
  split
  · rfl
  · simp [snapshot, statementOf]

theorem finish_snapshot (backend : Backend ε κ) (plan : Plan) (first : List (Statement ε))
    (wf : graph.WellFormed) (progress : Plan.Progress) {node : Node}
    (inside : node ∈ graph.nodes) :
    finish backend plan (snapshot backend graph plan first progress).state node
        (graph.body backend (plan.settle backend) node) =
      (plan.enter (first.map (·.name)) progress.hoisted node).map fun hoisted =>
        (graph.image backend (plan.settle backend) node.id,
          (snapshot backend graph plan first { progress with hoisted }).state) := by
  rw [wf.image_eq inside, Plan.settle]
  simp only [finish, Plan.enter]
  by_cases wanted : plan.wants node
  · by_cases capturing : plan.capturing.contains node.id
    · simp only [wanted, capturing, Plan.hoists]
      cases node.name <;> rfl
    · simp only [wanted, capturing, Plan.hoists]
      exact hoist_snapshot progress node
  · simp only [wanted, Plan.hoists]
    rfl

theorem complete_snapshot (wf : graph.WellFormed) {done hoisted : List Node}
    (completed : graph.Completed done) {node : Node} (inside : node ∈ graph.nodes)
    (operands : ∀ id ∈ node.kind.operands, ∃ operand ∈ done, operand.id = id) :
    Traversal.complete backend (finish backend plan) graph
        (snapshot backend graph plan first ⟨done, hoisted⟩) node =
      (plan.enter (first.map (·.name)) hoisted node).map fun hoisted' =>
        snapshot backend graph plan first ⟨done ++ [node], hoisted'⟩ := by
  have rendered := completed.node_eq wf
    (results_snapshot backend graph plan first ⟨done, hoisted⟩) inside operands
  rw [Traversal.complete, rendered, Outcome.ok_bind]
  cases isValue : node.kind.isValue with
  | true =>
    have finished := finish_snapshot backend plan first wf ⟨done, hoisted⟩ inside
    simp only [Graph.body] at finished
    simp only [Backend.renderedOf, isValue, if_true, finished]
    cases plan.enter (first.map (·.name)) hoisted node with
    | error error => rfl
    | ok hoisted' => simp [snapshot, resultOf, isValue]
  | false =>
    have stays : plan.wants node = false := by
      cases kind : node.kind with
      | call => simp [Plan.wants, kind, NodeKind.isNameable]
      | _ => simp [kind, NodeKind.isValue] at isValue
    simp [Backend.renderedOf, isValue, Plan.enter, stays, snapshot, resultOf,
      wf.callImage_eq inside]

theorem advance_snapshot (wf : graph.WellFormed) {progress : Plan.Progress}
    (completed : graph.Completed progress.done) (root : NodeId) :
    (snapshot backend graph plan first progress).advance backend (finish backend plan) graph
        root =
      (plan.pass graph (first.map (·.name)) progress root).map
        (snapshot backend graph plan first) := by
  have completeAll : ∀ (new done hoisted : List Node), graph.Completed (done ++ new) →
      new.foldlM (Traversal.complete backend (finish backend plan) graph)
          (snapshot backend graph plan first ⟨done, hoisted⟩) =
        (new.foldlM (plan.enter (first.map (·.name))) hoisted).map fun hoisted' =>
          snapshot backend graph plan first ⟨done ++ new, hoisted'⟩ := by
    intro new
    induction new with
    | nil =>
      intro done hoisted _
      simp
    | cons node rest ih =>
      intro done hoisted completed
      obtain ⟨before, inside, _, operands⟩ := completed.cut rfl
      have whole : done ++ node :: rest = done ++ [node] ++ rest := List.append_cons ..
      rw [List.foldlM_cons, List.foldlM_cons, complete_snapshot wf before inside operands, whole]
      rw [whole] at completed
      cases plan.enter (first.map (·.name)) hoisted node with
      | error error => rfl
      | ok hoisted' => exact ih (done ++ [node]) hoisted' completed
  obtain ⟨done, hoisted⟩ := progress
  have completed' := (wf.walkTo_eq root completed).1
  have parts := wf.walkTo_drop root completed
  show List.foldlM _ _ ((graph.walkTo done root).drop done.length) = _
  rw [completeAll _ done hoisted (parts.symm ▸ completed'), parts]
  simp only [Plan.pass]
  cases ((graph.walkTo done root).drop done.length).foldlM (plan.enter _) hoisted <;> rfl

theorem visit_snapshot (wf : graph.WellFormed) {progress : Plan.Progress}
    (sound : plan.Sound graph (first.map (·.name)) progress) {root : Node}
    (inside : root ∈ graph.nodes) (isValue : root.kind.isValue = true) :
    (snapshot backend graph plan first progress).visit backend (finish backend plan) graph
        root.id =
      (plan.pass graph (first.map (·.name)) progress root.id).map fun progress' =>
        (graph.image backend (plan.settle backend) root.id,
          snapshot backend graph plan first progress') := by
  have checked : graph.checkValue root.id = .ok () := by
    simp [Graph.checkValue, wf.find?_eq_some.2 ⟨inside, rfl⟩, isValue]
  simp only [Traversal.visit, checked, Outcome.ok_bind, advance_snapshot wf sound.completed]
  cases passed : plan.pass graph (first.map (·.name)) progress root.id with
  | error error => rfl
  | ok progress' =>
    obtain ⟨sound', done, _⟩ := sound.pass wf passed
    have member : root ∈ progress'.done := by
      rw [done, List.mem_eraseDups, List.mem_append]
      exact Or.inr ((wf.mem_postorder inside).2 ⟨inside, .refl _⟩)
    have value := sound'.completed.value_eq wf
      (results_snapshot backend graph plan first progress') member isValue
    simp [value]

theorem renderRoot_snapshot (wf : graph.WellFormed) {progress : Plan.Progress}
    (sound : plan.Sound graph (first.map (·.name)) progress) {root : Node}
    (inside : root ∈ graph.nodes) (isValue : root.kind.isValue = true) :
    renderRoot backend graph plan (snapshot backend graph plan first progress) root.id =
      (plan.passRoot graph (first.map (·.name)) progress root.id).map
        (snapshot backend graph plan first) := by
  simp only [renderRoot, Plan.passRoot, visit_snapshot wf sound inside isValue]
  cases passed : plan.pass graph (first.map (·.name)) progress root.id with
  | error error => rfl
  | ok progress' =>
    obtain ⟨sound', done, _⟩ := sound.pass wf passed
    have known : (snapshot backend graph plan first progress').state.hoisted.contains root.id =
        (progress'.hoisted.map (·.id)).contains root.id := by
      rw [Bool.eq_iff_iff]
      simp [snapshot]
    simp only [Outcome.map_ok, Outcome.ok_bind, wf.find?_eq_some.2 ⟨inside, rfl⟩, known]
    split
    · rfl
    · rename_i unknown
      -- The root is not a statement yet, so a reference does not stand for it either.
      have stays : plan.hoists root = false := by
        rw [← Bool.not_eq_true]
        intro hoists
        have member : root ∈ progress'.done := by
          rw [done, List.mem_eraseDups, List.mem_append]
          exact Or.inr ((wf.mem_postorder inside).2 ⟨inside, .refl _⟩)
        have isHoisted := sound'.settled root member hoists
        exact unknown (List.contains_iff_mem.2 (List.mem_map_of_mem isHoisted))
      have plain : graph.image backend (plan.settle backend) root.id =
          graph.body backend (plan.settle backend) root := by
        rw [wf.image_eq inside, Plan.settle, stays]
        rfl
      rw [plain, hoist_snapshot]
      cases plan.add (first.map (·.name)) progress'.hoisted root <;> rfl

end

end Extraction

namespace Graph

/-- What is settled about roots before the first node is rendered. -/
def planOf (graph : Graph) (rest : List NodeId) (last : NodeId) (options : Options) : Plan where
  options
  capturing := capturing (graph.reach (rest ++ [last]))
  forced := if !rest.isEmpty && isUsed graph last then rest ++ [last] else rest

def outline (graph : Graph) (rest : List NodeId) (last : NodeId) (bindings : Bindings)
    (options : Options) : Except RenderError Outline := do
  let plan := graph.planOf rest last options
  checkRoots graph plan.capturing (rest ++ [last])
  let free := freeVariables (graph.reach (rest ++ [last]))
  let bound ← bindAll bindings free
  let others := if options.bindUnreferenced then
    bindings.entries.filter fun entry => !free.contains entry.1 else []
  let bound := bound ++ others
  let progress ← rest.foldlM (plan.passRoot graph (Entries.keys bound)) ⟨[], []⟩
  let progress ← plan.pass graph (Entries.keys bound) progress last
  return ⟨plan, bound, progress.hoisted⟩

end Graph

namespace Extraction

variable {ε κ : Type} {backend : Backend ε κ} {graph : Graph} {plan : Plan}
  {first : List (Statement ε)}

theorem renderRoots_snapshot (wf : graph.WellFormed) {roots : List NodeId}
    {progress : Plan.Progress} (sound : plan.Sound graph (first.map (·.name)) progress)
    (renderable : ∀ root ∈ roots, graph.Renderable plan.capturing root) :
    roots.foldlM (renderRoot backend graph plan) (snapshot backend graph plan first progress) =
      (roots.foldlM (plan.passRoot graph (first.map (·.name))) progress).map
        (snapshot backend graph plan first) := by
  induction roots generalizing progress with
  | nil => rfl
  | cons root rest ih =>
    obtain ⟨node, inside, rfl, isValue, _⟩ := renderable root List.mem_cons_self
    rw [List.foldlM_cons, List.foldlM_cons, renderRoot_snapshot wf sound inside isValue]
    cases passed : plan.passRoot graph (first.map (·.name)) progress node.id with
    | error error => rfl
    | ok progress' =>
      have sound' := (sound.passRoot wf inside isValue passed).1
      exact ih sound' fun root member => renderable root (List.mem_cons_of_mem _ member)

end Extraction

namespace Graph

variable {ε κ : Type} {graph : Graph}

/-- Every back end makes of the roots what it makes of their outline. -/
theorem WellFormed.extract_eq (wf : graph.WellFormed) (backend : Backend ε κ)
    (rest : List NodeId) (last : NodeId) (bindings : Bindings) (options : Options) :
    graph.extract backend (rest ++ [last]) bindings options =
      (graph.outline rest last bindings options).map fun outline =>
        outline.render backend graph last := by
  have lastRoot : (rest ++ [last]).getLast? = some last := by simp
  have restRoots : (rest ++ [last]).dropLast = rest := by simp
  unfold extract outline
  simp only [lastRoot, restRoots, boundVariables_eq, planOf]
  generalize freeVariables (graph.reach (rest ++ [last])) = free
  generalize capturing (graph.reach (rest ++ [last])) = captured
  generalize (if !rest.isEmpty && isUsed graph last then rest ++ [last] else rest) = forced
  cases checked : checkRoots graph captured (rest ++ [last]) with
  | error error => rfl
  | ok =>
    have renderable := checkRoots_ok checked
    simp only [Outcome.ok_bind]
    cases bindAll bindings free with
    | error error => rfl
    | ok bound =>
      simp only [Outcome.map_ok, Outcome.ok_bind]
      generalize unused : (if options.bindUnreferenced then
        bindings.entries.filter fun entry => !free.contains entry.1 else []) = more
      have start : (Traversal.start ⟨bindingStatements backend bound ++
          (if options.bindUnreferenced then unreferenced backend bindings free else []), []⟩ :
            Traversal ε κ (State ε)) =
          snapshot backend graph ⟨options, captured, forced⟩
            (bindingStatements backend (bound ++ more)) ⟨[], []⟩ := by
        rw [← unused]
        cases options.bindUnreferenced <;>
          simp [Traversal.start, snapshot, bindingStatements, unreferenced]
      have names : (bindingStatements backend (bound ++ more)).map (·.name) =
          Entries.keys (bound ++ more) := by
        simp [bindingStatements, Entries.keys, Function.comp_def]
      have sound : Plan.Sound ⟨options, captured, forced⟩ graph
          ((bindingStatements backend (bound ++ more)).map (·.name)) ⟨[], []⟩ := .start
      have others := fun root member => renderable root (List.mem_append_left _ member)
      rw [start, renderRoots_snapshot wf sound others, names]
      cases passed : rest.foldlM (Plan.passRoot ⟨options, captured, forced⟩ graph
        (Entries.keys (bound ++ more))) ⟨[], []⟩ with
      | error error => rfl
      | ok progress =>
        obtain ⟨node, inside, rfl, isValue, _⟩ := renderable last (by simp)
        have sound' := (sound.passRoots wf others (names ▸ passed)).1
        simp only [Outcome.map_ok, Outcome.ok_bind, visit_snapshot wf sound' inside isValue, names]
        cases Plan.pass ⟨options, captured, forced⟩ graph _ progress node.id <;> rfl

/-- What is sure of an outline. -/
structure Outlines (graph : Graph) (rest : List NodeId) (last : NodeId) (bindings : Bindings)
    (options : Options) (outline : Outline) : Prop where
  plan : outline.plan = graph.planOf rest last options
  renderable : ∀ root ∈ rest ++ [last], graph.Renderable outline.plan.capturing root
  names : Entries.keys outline.bound = freeVariables (graph.reach (rest ++ [last])) ++
    if options.bindUnreferenced then
      (Entries.keys bindings.entries).filter fun name =>
        !(freeVariables (graph.reach (rest ++ [last]))).contains name
    else []
  constants : ∀ entry ∈ outline.bound, bindings.get? entry.1 = some entry.2
  admitted : outline.plan.Admitted graph (Entries.keys outline.bound) outline.hoisted
  reached : ∀ node ∈ outline.hoisted, node ∈ graph.reach (rest ++ [last])
  settled : ∀ node ∈ graph.reach (rest ++ [last]), outline.plan.hoists node = true →
    node ∈ outline.hoisted
  admits : ∀ node ∈ graph.reach (rest ++ [last]), outline.plan.Admits node
  order : outline.hoisted = (rest.flatMap (outline.plan.turn graph) ++
    (graph.postorder last).filter outline.plan.hoists).eraseDups

theorem bindAll_ok {bindings : Bindings} {free : List String} {bound : List (String × Constant)}
    (h : bindAll bindings free = .ok bound) : Entries.keys bound = free ∧
      ∀ entry ∈ bound, bindings.get? entry.1 = some entry.2 := by
  induction free generalizing bound with
  | nil =>
    cases h
    exact ⟨rfl, nofun⟩
  | cons name rest ih =>
    unfold bindAll at h
    split at h
    · cases h
    · rename_i value found
      obtain ⟨others, rest', h⟩ := Outcome.bind_eq_ok.1 h
      cases h
      obtain ⟨keys, constants⟩ := ih rest'
      refine ⟨congrArg (name :: ·) keys, ?_⟩
      intro entry member
      rcases List.mem_cons.1 member with rfl | member
      · exact found
      · exact constants entry member

theorem keys_bound {free : List String} {bound : List (String × Constant)} {bindings : Bindings}
    {options : Options} (keys : Entries.keys bound = free) :
    Entries.keys (bound ++ if options.bindUnreferenced then
        bindings.entries.filter fun entry => !free.contains entry.1 else []) =
      free ++ if options.bindUnreferenced then
        (Entries.keys bindings.entries).filter fun name => !free.contains name else [] := by
  simp only [Entries.keys, List.map_append]
  rw [show bound.map (·.1) = _ from keys]
  split <;> simp [List.filter_map, Function.comp_def]

theorem WellFormed.outline_ok {graph : Graph} (wf : graph.WellFormed) {rest : List NodeId}
    {last : NodeId} {bindings : Bindings} {options : Options} {outline : Outline}
    (h : graph.outline rest last bindings options = .ok outline) :
    graph.Outlines rest last bindings options outline := by
  obtain ⟨_, checked, h⟩ := Outcome.bind_eq_ok.1 h
  obtain ⟨bound, bound', h⟩ := Outcome.bind_eq_ok.1 h
  obtain ⟨progress, passedRest, h⟩ := Outcome.bind_eq_ok.1 h
  obtain ⟨progress', passedLast, h⟩ := Outcome.bind_eq_ok.1 h
  cases h
  have renderable := checkRoots_ok checked
  obtain ⟨keys, constants⟩ := bindAll_ok bound'
  have others := fun root member => renderable root (List.mem_append_left _ member)
  obtain ⟨sound, done, hoisted⟩ := Plan.Sound.start.passRoots wf others passedRest
  obtain ⟨sound', done', hoisted'⟩ := sound.pass wf passedLast
  have reached : progress'.done = graph.reach (rest ++ [last]) := by
    rw [done', done, (wf.reach_eq _).2, List.eraseDups_eraseDups_append, List.nil_append,
      List.flatMap_append, List.flatMap_singleton]
  refine ⟨rfl, renderable, keys_bound keys, ?_, sound'.admitted, ?_, ?_, ?_, ?_⟩
  · intro entry member
    rcases List.mem_append.1 member with member | member
    · exact constants entry member
    · split at member
      · exact List.lookup_of_mem bindings.distinct (List.mem_filter.1 member).1
      · cases member
  · exact fun node member => reached ▸ sound'.inside node member
  · exact fun node member hoists => sound'.settled node (reached ▸ member) hoists
  · exact fun node member => sound'.admits node (reached ▸ member)
  · rw [hoisted', hoisted, List.eraseDups_eraseDups_append, List.nil_append]

theorem Outlines.distinct {graph : Graph} {rest : List NodeId} {last : NodeId}
    {bindings : Bindings} {options : Options} {outline : Outline}
    (outlines : graph.Outlines rest last bindings options outline) :
    (Entries.keys outline.bound ++ outline.plan.names outline.hoisted).Nodup := by
  apply outlines.admitted.nodup
  rw [outlines.names]
  have free : (freeVariables (graph.reach (rest ++ [last]))).Nodup := by
    rw [freeVariables_eq]
    exact List.nodup_eraseDups _
  split
  · refine List.nodup_append.2 ⟨free, bindings.distinct.filter _, ?_⟩
    intro name isFree other isOther
    rintro rfl
    simp [isFree] at isOther
  · simpa using free

end Graph

end QueryGraph
