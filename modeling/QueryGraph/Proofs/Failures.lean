import Mathlib.Data.List.Duplicate
import QueryGraph.Proofs.References
import QueryGraph.Proofs.Statements

namespace List

variable {α β : Type}

theorem duplicate_append_of_mem {l m : List α} {a : α} (first : a ∈ l) (second : a ∈ m) :
    Duplicate a (l ++ m) := by
  rw [duplicate_iff_sublist]
  exact (singleton_sublist.2 first).append (singleton_sublist.2 second)

theorem duplicate_map_of_ne {l : List α} {a b : α} (ha : a ∈ l) (hb : b ∈ l) (distinct : a ≠ b)
    {f : α → β} (same : f a = f b) : Duplicate (f a) (l.map f) := by
  obtain ⟨before, after, rfl⟩ := append_of_mem ha
  rw [map_append, map_cons]
  rcases mem_append.1 hb with earlier | later
  · exact duplicate_append_of_mem (same ▸ mem_map_of_mem earlier) mem_cons_self
  · have later : b ∈ after := (mem_cons.1 later).resolve_left distinct.symm
    have twice : Duplicate (f a) (f a :: after.map f) :=
      (same ▸ mem_map_of_mem later : f a ∈ after.map f).duplicate_cons_self
    exact duplicate_iff_sublist.2
      ((duplicate_iff_sublist.1 twice).trans (sublist_append_right _ _))

end List

namespace QueryGraph

open Extraction

namespace Extraction.Plan

variable {plan : Plan} {graph : Graph} {taken : List String} {met planned : List Node}

theorem add_error {hoisted : List Node} {node : Node} {error : RenderError}
    (h : plan.add taken hoisted node = .error error) :
    error = .duplicateStatement (statementName plan.options node) ∧
      statementName plan.options node ∈ taken ++ plan.names hoisted := by
  simp only [add] at h
  split at h
  · rename_i known
    cases h
    exact ⟨rfl, List.contains_iff_mem.1 known⟩
  · cases h

/-- What can stop the passes over the nodes `met`, of which the nodes `planned` are to become
statements. -/
inductive Stopped (plan : Plan) (taken : List String) (met planned : List Node) :
    RenderError → Prop where
  | escape {node : Node} {name : String} (member : node ∈ met) (named : node.name = some name)
      (captured : node.id ∈ plan.capturing) :
      Stopped plan taken met planned (.placeholderEscape (.statement name))
  | duplicate {hoisted : List Node} {node : Node} (earlier : ∀ other ∈ hoisted, other ∈ planned)
      (member : node ∈ planned) (fresh : node ∉ hoisted)
      (known : statementName plan.options node ∈ taken ++ plan.names hoisted) :
      Stopped plan taken met planned (.duplicateStatement (statementName plan.options node))

theorem Stopped.of_add {hoisted : List Node} {node : Node} {error : RenderError}
    (earlier : ∀ other ∈ hoisted, other ∈ planned) (member : node ∈ planned)
    (fresh : node ∉ hoisted) (h : plan.add taken hoisted node = .error error) :
    plan.Stopped taken met planned error := by
  obtain ⟨rfl, known⟩ := add_error h
  exact .duplicate earlier member fresh known

theorem Stopped.of_enter {hoisted : List Node} {node : Node} {error : RenderError}
    (earlier : ∀ other ∈ hoisted, other ∈ planned) (member : node ∈ met)
    (isPlanned : plan.hoists node = true → node ∈ planned)
    (fresh : node ∉ hoisted) (h : plan.enter taken hoisted node = .error error) :
    plan.Stopped taken met planned error := by
  simp only [enter] at h
  split at h
  · cases h
  · rename_i wanted
    split at h
    · rename_i capturing
      split at h
      · rename_i name named
        cases h
        exact .escape member named (List.contains_iff_mem.1 capturing)
      · cases h
    · rename_i free
      have hoists := hoists_iff.2 ⟨by simpa using wanted, by simpa using free⟩
      exact .of_add earlier (isPlanned hoists) fresh h

theorem Stopped.of_pass {progress : Progress} (sound : plan.Sound graph taken progress)
    (wf : graph.WellFormed) (earlier : ∀ other ∈ progress.hoisted, other ∈ planned)
    {root : NodeId} (below : ∀ node ∈ graph.postorder root, node ∈ met)
    (isPlanned : ∀ node ∈ met, plan.hoists node = true → node ∈ planned) {error : RenderError}
    (h : plan.pass graph taken progress root = .error error) :
    plan.Stopped taken met planned error := by
  obtain ⟨done, hoisted⟩ := progress
  have completed := (wf.walkTo_eq root sound.completed).1
  have new := wf.walkTo_append root sound.completed
  have newMet : ∀ node ∈ ((graph.postorder root).removeAll done).eraseDups, node ∈ met := by
    intro node member
    exact below node (List.mem_filter.1 (List.mem_eraseDups.1 member)).1
  rcases Outcome.bind_eq_error.1 h with failed | ⟨_, _, failed⟩
  · rw [new, List.drop_left] at failed
    rw [new] at completed
    generalize ((graph.postorder root).removeAll done).eraseDups = nodes at *
    -- Up to the node that the pass fails at all is sound, so that this node is no statement yet.
    obtain ⟨before, node, after, hoisted', rfl, entered, failed⟩ :=
      Outcome.foldlM_eq_error failed
    rw [← List.append_assoc] at completed
    obtain ⟨completed', _, fresh, _⟩ := completed.cut rfl
    obtain ⟨sound', rfl⟩ := sound.enterAll wf completed' entered
    refine .of_enter ?_ (newMet node (by simp)) (isPlanned node (newMet node (by simp)))
      (fun isHoisted => fresh (sound'.inside node isHoisted)) failed
    intro other isHoisted
    rcases List.mem_append.1 isHoisted with isHoisted | isNew
    · exact earlier other isHoisted
    · obtain ⟨member, hoists⟩ := List.mem_filter.1 isNew
      exact isPlanned other (newMet other (List.mem_append_left _ member)) hoists
  · cases failed

theorem Stopped.of_passRoot {progress : Progress} (sound : plan.Sound graph taken progress)
    (wf : graph.WellFormed) (earlier : ∀ other ∈ progress.hoisted, other ∈ planned)
    {root : Node} (inside : root ∈ graph.nodes) (rootPlanned : root ∈ planned)
    (below : ∀ node ∈ graph.postorder root.id, node ∈ met)
    (isPlanned : ∀ node ∈ met, plan.hoists node = true → node ∈ planned) {error : RenderError}
    (h : plan.passRoot graph taken progress root.id = .error error) :
    plan.Stopped taken met planned error := by
  rcases Outcome.bind_eq_error.1 h with failed | ⟨progress', passed, h⟩
  · exact .of_pass sound wf earlier below isPlanned failed
  · obtain ⟨_, _, hoisted⟩ := sound.pass wf passed
    simp only [wf.find?_eq_some.2 ⟨inside, rfl⟩] at h
    split at h
    · cases h
    · rename_i unknown
      rcases Outcome.bind_eq_error.1 h with failed | ⟨_, _, failed⟩
      · refine .of_add ?_ rootPlanned
          (fun isHoisted => unknown (List.contains_iff_mem.2 (List.mem_map_of_mem isHoisted)))
          failed
        intro other isHoisted
        rw [hoisted, List.mem_eraseDups, List.mem_append, List.mem_filter] at isHoisted
        rcases isHoisted with isHoisted | ⟨isMet, hoists⟩
        · exact earlier other isHoisted
        · exact isPlanned other (below other isMet) hoists
      · cases failed

/-- Whether the walks from some roots stay among the nodes `met`, and what they make statements of,
the roots included, is among the nodes `planned`. -/
structure Covers (plan : Plan) (graph : Graph) (roots : List NodeId) (met planned : List Node) :
    Prop where
  below : ∀ root ∈ roots, ∀ node ∈ graph.postorder root, node ∈ met
  hoisted : ∀ node ∈ met, plan.hoists node = true → node ∈ planned
  forced : ∀ root ∈ roots, ∀ node, graph.find? root = some node → node ∈ planned

theorem Covers.of_append {before after : List NodeId}
    (covers : plan.Covers graph (before ++ after) met planned) :
    plan.Covers graph before met planned where
  below root member := covers.below root (List.mem_append_left _ member)
  hoisted := covers.hoisted
  forced root member := covers.forced root (List.mem_append_left _ member)

theorem Covers.mem_of_turn {roots : List NodeId} (covers : plan.Covers graph roots met planned)
    {node : Node} (member : node ∈ roots.flatMap (plan.turn graph)) : node ∈ planned := by
  obtain ⟨root, isRoot, member⟩ := List.mem_flatMap.1 member
  rcases List.mem_append.1 member with isMet | isItself
  · obtain ⟨isMet, hoists⟩ := List.mem_filter.1 isMet
    exact covers.hoisted node (covers.below root isRoot node isMet) hoists
  · exact covers.forced root isRoot node (Option.mem_toList.1 isItself)

theorem Covers.mem_of_hoisted {roots : List NodeId} (covers : plan.Covers graph roots met planned)
    (wf : graph.WellFormed) (renderable : ∀ root ∈ roots, graph.Renderable plan.capturing root)
    {progress : Progress}
    (passed : roots.foldlM (plan.passRoot graph taken) ⟨[], []⟩ = .ok progress) :
    ∀ node ∈ progress.hoisted, node ∈ planned := by
  obtain ⟨_, _, hoisted⟩ := Plan.Sound.start.passRoots wf renderable passed
  intro node isHoisted
  rw [hoisted, List.mem_eraseDups, List.nil_append] at isHoisted
  exact covers.mem_of_turn isHoisted

theorem Stopped.of_passRoots (wf : graph.WellFormed) {roots : List NodeId}
    (renderable : ∀ root ∈ roots, graph.Renderable plan.capturing root)
    (covers : plan.Covers graph roots met planned) {error : RenderError}
    (h : roots.foldlM (plan.passRoot graph taken) ⟨[], []⟩ = .error error) :
    plan.Stopped taken met planned error := by
  obtain ⟨before, root, after, progress, rfl, passed, failed⟩ := Outcome.foldlM_eq_error h
  have others := fun root member => renderable root (List.mem_append_left _ member)
  obtain ⟨sound, _⟩ := Plan.Sound.start.passRoots wf others passed
  obtain ⟨node, inside, rfl, _⟩ := renderable root (by simp)
  exact .of_passRoot sound wf (covers.of_append.mem_of_hoisted wf others passed) inside
    (covers.forced _ (by simp) node (wf.find?_eq_some.2 ⟨inside, rfl⟩)) (covers.below _ (by simp))
    covers.hoisted failed

theorem Stopped.escape_or_twice {error : RenderError}
    (stopped : plan.Stopped taken met planned error) :
    (∃ node ∈ met, ∃ name, node.name = some name ∧ node.id ∈ plan.capturing ∧
      error = .placeholderEscape (.statement name)) ∨
    ∃ name, List.Duplicate name (taken ++ plan.names planned) ∧
      error = .duplicateStatement name := by
  cases stopped with
  | @escape node name member named captured =>
    exact Or.inl ⟨node, member, name, named, captured, rfl⟩
  | @duplicate hoisted node earlier member fresh known =>
    refine Or.inr ⟨_, ?_, rfl⟩
    rcases List.mem_append.1 known with known | known
    · exact List.duplicate_append_of_mem known (List.mem_map_of_mem member)
    · obtain ⟨other, isHoisted, same⟩ := List.mem_map.1 known
      have distinct : node ≠ other := fun same => fresh (same ▸ isHoisted)
      have twice := List.duplicate_map_of_ne member (earlier other isHoisted) distinct same.symm
      exact List.duplicate_iff_sublist.2
        ((List.duplicate_iff_sublist.1 twice).trans (List.sublist_append_right _ _))

end Extraction.Plan

namespace Extraction

theorem bindAll_error {bindings : Bindings} {names : List String} {error : RenderError}
    (h : bindAll bindings names = .error error) : ∃ before name after,
      names = before ++ name :: after ∧
      (∀ earlier ∈ before, (bindings.get? earlier).isSome = true) ∧
      bindings.get? name = none ∧ error = .unboundVariable name .missing := by
  induction names with
  | nil => cases h
  | cons first rest ih =>
    unfold bindAll at h
    split at h
    · rename_i missing
      cases h
      exact ⟨[], first, rest, rfl, nofun, missing, rfl⟩
    · rename_i value found
      rcases Outcome.bind_eq_error.1 h with failed | ⟨_, _, failed⟩
      · obtain ⟨before, name, after, rfl, bound, missing, rfl⟩ := ih failed
        refine ⟨first :: before, name, after, rfl, ?_, missing, rfl⟩
        intro earlier member
        rcases List.mem_cons.1 member with rfl | member
        · simp [found]
        · exact bound earlier member
      · cases failed

end Extraction

namespace Graph

variable {graph : Graph} {roots rest : List NodeId} {last : NodeId} {bindings : Bindings}
  {options : Options}

/-- Whether an id is that of a value of the graph without a placeholder of its own. -/
def CanBeRoot (graph : Graph) (root : NodeId) : Prop :=
  ∃ node ∈ graph.nodes, node.id = root ∧ node.kind.isValue = true ∧ ¬ graph.Captures root

/-- What is wrong with an id that cannot be a root. -/
inductive RootFault (graph : Graph) (root : NodeId) : RenderError → Prop where
  | unknown (missing : ∀ node ∈ graph.nodes, node.id ≠ root) :
      RootFault graph root (.unknownNode root)
  | call {node : Node} {space name : String} {arguments : Entries NodeId}
      (inside : node ∈ graph.nodes) (same : node.id = root)
      (isCall : node.kind = .call space name arguments) :
      RootFault graph root (.detachedCall space name)
  | placeholder {node : Node} (inside : node ∈ graph.nodes) (same : node.id = root)
      (isValue : node.kind.isValue = true) (captures : graph.Captures root) :
      RootFault graph root (.placeholderEscape (.topLevel root))

/-- The names of all that is to be a statement: the variables below the roots, the other bindings
if they are asked for, and the nodes. -/
noncomputable def statementNames (graph : Graph) (roots : List NodeId) (bindings : Bindings)
    (options : Options) : List String :=
  graph.variableNames roots ++
    (if options.bindUnreferenced then bindings.entries.keys.filter fun name =>
      !(graph.variableNames roots).contains name else []) ++
    (roots.getLast?.toList.flatMap (graph.statementNodes roots.dropLast)).map
      (statementName options)

/-- Whether no root is at fault and every variable below the roots has a constant. -/
structure Prepared (graph : Graph) (roots : List NodeId) (bindings : Bindings) : Prop where
  valid : ∀ root ∈ roots, graph.CanBeRoot root
  bound : ∀ node ∈ graph.nodes, graph.ReachedFrom roots node.id → ∀ name,
    node.kind = .variable name → ∃ value, bindings.get? name = some value

/-- Whether roots can be rendered. -/
structure Renders (graph : Graph) (roots : List NodeId) (bindings : Bindings)
    (options : Options) : Prop extends Prepared graph roots bindings where
  nonempty : roots ≠ []
  named : ∀ node ∈ graph.nodes, graph.ReachedFrom roots node.id → node.name.isSome = true →
    ¬ graph.Captures node.id
  distinct : (graph.statementNames roots bindings options).Nodup

/-- The error of roots that cannot be rendered. Of several roots at fault the first counts, and of
several variables without a constant the one that a walk meets first. -/
inductive Fails (graph : Graph) (roots : List NodeId) (bindings : Bindings) (options : Options) :
    RenderError → Prop where
  | noRoots (empty : roots = []) : Fails graph roots bindings options .noRoots
  | root {before after : List NodeId} {root : NodeId} {error : RenderError}
      (parts : roots = before ++ root :: after)
      (sound : ∀ earlier ∈ before, graph.CanBeRoot earlier) (fault : graph.RootFault root error) :
      Fails graph roots bindings options error
  | unbound {before after : List String} {name : String}
      (sound : ∀ root ∈ roots, graph.CanBeRoot root)
      (parts : graph.variableNames roots = before ++ name :: after)
      (bound : ∀ earlier ∈ before, (bindings.get? earlier).isSome = true)
      (missing : bindings.get? name = none) :
      Fails graph roots bindings options (.unboundVariable name .missing)
  | escape {node : Node} {name : String} (prepared : graph.Prepared roots bindings)
      (inside : node ∈ graph.nodes) (reached : graph.ReachedFrom roots node.id)
      (named : node.name = some name) (captures : graph.Captures node.id) :
      Fails graph roots bindings options (.placeholderEscape (.statement name))
  | duplicate {name : String} (prepared : graph.Prepared roots bindings)
      (twice : List.Duplicate name (graph.statementNames roots bindings options)) :
      Fails graph roots bindings options (.duplicateStatement name)

theorem statementNames_concat : graph.statementNames (rest ++ [last]) bindings options =
    graph.variableNames (rest ++ [last]) ++
      (if options.bindUnreferenced then bindings.entries.keys.filter fun name =>
        !(graph.variableNames (rest ++ [last])).contains name else []) ++
      (graph.statementNodes rest last).map (statementName options) := by
  simp [statementNames]

theorem WellFormed.mem_variableNames (wf : graph.WellFormed) {name : String} :
    name ∈ graph.variableNames roots ↔ ∃ node ∈ graph.nodes,
      graph.ReachedFrom roots node.id ∧ node.kind = .variable name := by
  have isVariable {kind : NodeKind} : kind.variableName? = some name ↔ kind = .variable name := by
    cases kind <;> simp [NodeKind.variableName?]
  rw [variableNames, ← wf.freeVariables_reach, freeVariables_eq, List.mem_eraseDups,
    List.mem_filterMap]
  simp only [isVariable, wf.mem_reach, and_assoc]

theorem RootFault.not_canBeRoot (wf : graph.WellFormed) {root : NodeId} {error : RenderError}
    (fault : graph.RootFault root error) : ¬ graph.CanBeRoot root := by
  rintro ⟨node, inside, same, isValue, free⟩
  cases fault with
  | unknown missing => exact missing node inside same
  | call inside' same' isCall =>
    cases wf.eq_of_id inside inside' (same.trans same'.symm)
    rw [isCall] at isValue
    cases isValue
  | placeholder _ _ _ captures => exact free captures

/-- The errors that name ids and operator calls are about roots. -/
theorem Fails.origin {error : RenderError} (fails : graph.Fails roots bindings options error) :
    (∀ id, error ≠ .notACall id) ∧
    (∀ id, error = .unknownNode id → id ∈ roots ∧ ∀ node ∈ graph.nodes, node.id ≠ id) ∧
    (∀ space name, error = .detachedCall space name → ∃ node ∈ graph.nodes,
      node.id ∈ roots ∧ ∃ arguments, node.kind = .call space name arguments) := by
  cases fails with
  | @root before after root _ parts _ fault =>
    have isRoot : root ∈ roots := by simp [parts]
    cases fault with
    | unknown missing =>
      refine ⟨nofun, ?_, nofun⟩
      rintro _ ⟨⟩
      exact ⟨isRoot, missing⟩
    | @call node space name arguments inside same isCall =>
      refine ⟨nofun, nofun, ?_⟩
      rintro _ _ ⟨⟩
      exact ⟨node, inside, same ▸ isRoot, arguments, isCall⟩
    | placeholder => exact ⟨nofun, nofun, nofun⟩
  | _ => exact ⟨nofun, nofun, nofun⟩

theorem Fails.not_renders (wf : graph.WellFormed) {error : RenderError}
    (fails : graph.Fails roots bindings options error) :
    ¬ graph.Renders roots bindings options := by
  intro renders
  cases fails with
  | noRoots empty => exact renders.nonempty empty
  | @root before after root _ parts _ fault =>
    exact fault.not_canBeRoot wf (renders.valid root (by simp [parts]))
  | @unbound before after name _ parts _ missing =>
    have met : name ∈ graph.variableNames roots := by simp [parts]
    obtain ⟨node, inside, reached, isVariable⟩ := wf.mem_variableNames.1 met
    obtain ⟨value, found⟩ := renders.bound node inside reached name isVariable
    rw [missing] at found
    cases found
  | escape _ inside reached named captures =>
    exact renders.named _ inside reached (by simp [named]) captures
  | duplicate _ twice => exact List.nodup_iff_forall_not_duplicate.1 renders.distinct _ twice

theorem WellFormed.rootFault_of_checkRoot (wf : graph.WellFormed) {root : NodeId}
    (isRoot : root ∈ roots) {error : RenderError}
    (h : checkRoot graph (capturing (graph.reach roots)) root = .error error) :
    graph.RootFault root error := by
  cases found : graph.find? root with
  | none =>
    have unknown : error = .unknownNode root := by
      simpa [checkRoot, checkValue, notAValue, found] using h.symm
    rw [unknown]
    refine .unknown fun node inside same => ?_
    simp [wf.find?_eq_some.2 ⟨inside, same⟩] at found
  | some node =>
    obtain ⟨inside, rfl⟩ := mem_of_find? found
    by_cases isValue : node.kind.isValue = true
    · have captured : node.id ∈ capturing (graph.reach roots) ∧
          error = .placeholderEscape (.topLevel node.id) := by
        simp only [checkRoot, checkValue, found, isValue, if_true, Outcome.ok_bind] at h
        split at h
        · rename_i captured
          cases h
          exact ⟨List.contains_iff_mem.1 captured, rfl⟩
        · cases h
      obtain ⟨captured, rfl⟩ := captured
      exact .placeholder inside rfl isValue
        ((wf.mem_capturing_reach (wf.mem_reach_root inside isRoot)).1 captured)
    · cases kind : node.kind with
      | call space name arguments =>
        have detached : error = .detachedCall space name := by
          obtain ⟨id, given, _, uses⟩ := node
          cases kind
          simpa [checkRoot, checkValue, notAValue, found, NodeKind.isValue] using h.symm
        rw [detached]
        exact .call inside rfl kind
      | _ => simp [kind, NodeKind.isValue] at isValue

theorem checkRoots_error {capturing : List NodeId} {error : RenderError}
    (h : checkRoots graph capturing roots = .error error) : ∃ before root after,
      roots = before ++ root :: after ∧
      (∀ earlier ∈ before, graph.Renderable capturing earlier) ∧
      checkRoot graph capturing root = .error error := by
  induction roots with
  | nil => cases h
  | cons root rest ih =>
    rcases Outcome.bind_eq_error.1 h with failed | ⟨_, checked, failed⟩
    · exact ⟨[], root, rest, rfl, nofun, failed⟩
    · obtain ⟨before, faulty, after, rfl, renderable, failed⟩ := ih failed
      refine ⟨root :: before, faulty, after, rfl, ?_, failed⟩
      intro earlier member
      rcases List.mem_cons.1 member with rfl | member
      · exact checkRoot_ok checked
      · exact renderable earlier member

theorem WellFormed.prepared (wf : graph.WellFormed)
    (renderable : ∀ root ∈ roots, graph.Renderable (capturing (graph.reach roots)) root)
    {bound : List (String × Constant)}
    (bound' : bindAll bindings (freeVariables (graph.reach roots)) = .ok bound) :
    graph.Prepared roots bindings := by
  refine ⟨fun root isRoot => (wf.renderable_iff isRoot).1 (renderable root isRoot), ?_⟩
  intro node inside reached name isVariable
  obtain ⟨keys, constants⟩ := bindAll_ok bound'
  have met : name ∈ graph.variableNames roots :=
    wf.mem_variableNames.2 ⟨node, inside, reached, isVariable⟩
  rw [variableNames, ← wf.freeVariables_reach, ← keys] at met
  obtain ⟨entry, member, rfl⟩ := List.mem_map.1 met
  exact ⟨entry.2, constants entry member⟩

theorem WellFormed.covers (wf : graph.WellFormed)
    (valid : ∀ root ∈ rest, graph.CanBeRoot root) :
    (graph.planOf rest last options).Covers graph rest (graph.reach (rest ++ [last]))
      (graph.statementNodes rest last) := by
  refine ⟨?_, ?_, ?_⟩
  · intro root isRoot node met
    exact wf.mem_reach_of_postorder (List.mem_append_left _ isRoot) met
  · intro node member hoists
    exact wf.mem_statementNodes.2 (Or.inl ((wf.hoists_iff member).1 hoists))
  · intro root isRoot node found
    obtain ⟨inside, rfl⟩ := mem_of_find? found
    obtain ⟨other, otherInside, same, isValue, free⟩ := valid _ isRoot
    cases wf.eq_of_id inside otherInside same.symm
    rw [wf.mem_statementNodes]
    by_cases isVariable : node.kind.variableName?.isSome = true
    · exact Or.inr ⟨inside, isRoot, isVariable⟩
    · exact Or.inl (wf.becomes_of_root inside isRoot isValue free isVariable)

theorem WellFormed.stopped_of_passes (wf : graph.WellFormed)
    (renderable : ∀ root ∈ rest ++ [last],
      graph.Renderable (graph.planOf rest last options).capturing root)
    {taken : List String} {error : RenderError}
    (h : (rest.foldlM ((graph.planOf rest last options).passRoot graph taken) ⟨[], []⟩ >>=
      fun progress => (graph.planOf rest last options).pass graph taken progress last) =
        .error error) :
    (graph.planOf rest last options).Stopped taken (graph.reach (rest ++ [last]))
      (graph.statementNodes rest last) error := by
  have others := fun root member => renderable root (List.mem_append_left _ member)
  have covers : (graph.planOf rest last options).Covers graph rest (graph.reach (rest ++ [last]))
      (graph.statementNodes rest last) := wf.covers fun root isRoot =>
    (wf.renderable_iff (List.mem_append_left _ isRoot)).1 (others root isRoot)
  rcases Outcome.bind_eq_error.1 h with failed | ⟨progress, passed, failed⟩
  · exact .of_passRoots wf others covers failed
  · obtain ⟨sound, _⟩ := Plan.Sound.start.passRoots wf others passed
    exact .of_pass sound wf (covers.mem_of_hoisted wf others passed)
      (fun node => wf.mem_reach_of_postorder (by simp)) covers.hoisted failed

theorem WellFormed.fails_of_outline (wf : graph.WellFormed) {error : RenderError}
    (h : graph.outline rest last bindings options = .error error) :
    graph.Fails (rest ++ [last]) bindings options error := by
  rcases Outcome.bind_eq_error.1 h with failed | ⟨_, checked, h⟩
  · obtain ⟨before, root, after, parts, renderable, failed⟩ := checkRoots_error failed
    refine .root parts ?_ (wf.rootFault_of_checkRoot (by simp [parts]) failed)
    intro earlier member
    exact (wf.renderable_iff (by simp [parts, member])).1 (renderable earlier member)
  have renderable := checkRoots_ok checked
  rcases Outcome.bind_eq_error.1 h with failed | ⟨bound, bound', h⟩
  · obtain ⟨before, name, after, parts, bound, missing, rfl⟩ := bindAll_error failed
    rw [wf.freeVariables_reach] at parts
    refine .unbound ?_ parts bound missing
    exact fun root isRoot => (wf.renderable_iff isRoot).1 (renderable root isRoot)
  have prepared := wf.prepared renderable bound'
  rw [← bind_assoc] at h
  rcases Outcome.bind_eq_error.1 h with failed | ⟨_, _, failed⟩
  · rcases (wf.stopped_of_passes renderable failed).escape_or_twice with
      ⟨node, member, name, named, captured, rfl⟩ | ⟨name, twice, rfl⟩
    · obtain ⟨inside, reached⟩ := wf.mem_reach.1 member
      exact .escape prepared inside reached named ((wf.mem_capturing_reach member).1 captured)
    · refine .duplicate prepared ?_
      rw [keys_bound (bindAll_ok bound').1, wf.freeVariables_reach] at twice
      rw [statementNames_concat]
      exact twice
  · cases failed

theorem Outlines.renders (wf : graph.WellFormed) {outline : Outline}
    (outlines : graph.Outlines rest last bindings options outline) :
    graph.Renders (rest ++ [last]) bindings options := by
  refine ⟨⟨?_, ?_⟩, by simp, ?_, ?_⟩
  · intro root isRoot
    have renderable := outlines.renderable root isRoot
    rw [outlines.plan] at renderable
    exact (wf.renderable_iff isRoot).1 renderable
  · intro node inside reached name isVariable
    have known := outlines.bound_of_variable (wf.mem_reach.2 ⟨inside, reached⟩)
      (by rw [isVariable]; rfl : node.kind.variableName? = some name)
    obtain ⟨entry, member, rfl⟩ := List.mem_map.1 known
    exact ⟨entry.2, outlines.constants entry member⟩
  · intro node inside reached isNamed captures
    have member := wf.mem_reach.2 ⟨inside, reached⟩
    obtain ⟨name, named⟩ := Option.isSome_iff_exists.1 isNamed
    have wants : outline.plan.wants node = true := by
      simp [Plan.wants, (wf.named node inside name named).2, isNamed]
    have captured : node.id ∈ outline.plan.capturing := by
      rw [outlines.plan]
      exact (wf.mem_capturing_reach member).2 captures
    rw [outlines.admits node member wants captured] at named
    cases named
  · have distinct := outlines.distinct
    rw [outlines.names, outlines.hoisted_eq wf, outlines.plan, wf.freeVariables_reach] at distinct
    rw [statementNames_concat]
    exact distinct

/-- Roots are rendered if and only if they can be, and if they cannot, the error says why. That a
step of a pipeline is no operator call is never the reason, and ids that are unknown and operator
calls that stand alone are the roots themselves. -/
theorem Built.extract_outcome (built : graph.Built) {ε κ : Type} (backend : Backend ε κ)
    (roots : List NodeId) (bindings : Bindings) (options : Options) :
    ((∃ rendering, graph.extract backend roots bindings options = .ok rendering) ↔
      graph.Renders roots bindings options) ∧
    (∀ error, graph.extract backend roots bindings options = .error error →
      graph.Fails roots bindings options error ∧
      (∀ id, error ≠ .notACall id) ∧
      (∀ id, error = .unknownNode id → id ∈ roots ∧ ∀ node ∈ graph.nodes, node.id ≠ id) ∧
      (∀ space name, error = .detachedCall space name → ∃ node ∈ graph.nodes,
        node.id ∈ roots ∧ ∃ arguments, node.kind = .call space name arguments)) := by
  have wf := built.wellFormed
  have failure : ∀ error, graph.extract backend roots bindings options = .error error →
      graph.Fails roots bindings options error := by
    intro error failed
    rcases List.eq_nil_or_concat roots with rfl | ⟨rest, last, rfl⟩
    · cases failed
      exact .noRoots rfl
    · rw [List.concat_eq_append] at failed ⊢
      rw [wf.extract_eq, Outcome.map_eq_error] at failed
      exact wf.fails_of_outline failed
  refine ⟨⟨?_, ?_⟩, fun error failed => ⟨failure error failed, ?_⟩⟩
  · rintro ⟨rendering, rendered⟩
    obtain ⟨rest, last, rfl⟩ := exists_last_of_extract rendered
    rw [wf.extract_eq] at rendered
    obtain ⟨outline, h, _⟩ := Outcome.map_eq_ok.1 rendered
    exact (wf.outline_ok h).renders wf
  · intro renders
    cases outcome : graph.extract backend roots bindings options with
    | ok rendering => exact ⟨rendering, rfl⟩
    | error error => exact absurd renders ((failure error outcome).not_renders wf)
  · exact (failure error failed).origin

theorem sample_extract_outcome :
    sample.Renders [7, 9] (.ofList [("rows", .bool true)]) .standard ∧
    sample.Fails [9, 3, 6] (.ofList [("rows", .bool true)]) .standard
      (.placeholderEscape (.topLevel 3)) ∧
    sample.Fails [9] .empty .standard (.unboundVariable "rows" .missing) :=
  ⟨(built_sample.extract_outcome Backend.tree _ _ _).1.1 ⟨_, rfl⟩,
    ((built_sample.extract_outcome Backend.tree _ _ _).2 _ rfl).1,
    ((built_sample.extract_outcome Backend.tree _ _ _).2 _ rfl).1⟩

end Graph

end QueryGraph
