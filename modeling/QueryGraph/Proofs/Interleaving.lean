import QueryGraph.Proofs.Equivariance
import QueryGraph.Proofs.Inlining
import QueryGraph.Proofs.Parallel
import QueryGraph.Query.Binary

namespace QueryGraph

open QueryGraph.Graph

namespace Graph

variable {graph graph' : Graph} {roots roots' : List NodeId} {bindings : Bindings}

theorem WellFormed.serialize_of_preparation (wf : graph.WellFormed) (nonempty : roots ≠ [])
    {options : Options} {error : RenderError}
    (failed : graph.preparation roots bindings = .error error) :
    graph.serialize roots bindings options = .error error := by
  rcases List.eq_nil_or_concat roots with rfl | ⟨rest, last, rfl⟩
  · exact absurd rfl nonempty
  · rw [List.concat_eq_append] at failed ⊢
    rw [serialize, wf.extract_eq, outline_eq, failed]
    rfl

theorem Renamed.fails_or_prepared {f : NodeId → NodeId} (renamed : Renamed f graph graph')
    (counterparts : List.Forall₂ (graph.Counterparts graph') roots roots')
    (options options' : Options) :
    (∃ error error', graph.serialize roots bindings options = .error error ∧
      graph'.serialize roots' bindings options' = .error error' ∧
      error.Matches (graph.Counterparts graph') error') ∨
    roots ≠ [] ∧ graph.Prepared roots bindings ∧ graph'.Prepared roots' bindings := by
  by_cases empty : roots = []
  · subst empty
    cases counterparts
    exact Or.inl ⟨.noRoots, .noRoots, rfl, rfl, .noRoots⟩
  · have nonempty' : roots' ≠ [] := by
      rintro rfl
      cases counterparts
      exact empty rfl
    rcases (renamed.preparation bindings counterparts).outcomes with
      ⟨error, error', failed, failed', related⟩ | ⟨bound, bound', outcome, outcome', _⟩
    · exact Or.inl ⟨error, error', renamed.wf.serialize_of_preparation empty failed,
        renamed.wf'.serialize_of_preparation nonempty' failed', related⟩
    · obtain ⟨renderable, isBound⟩ := preparation_ok outcome
      obtain ⟨renderable', isBound'⟩ := preparation_ok outcome'
      exact Or.inr ⟨empty, renamed.wf.prepared renderable isBound,
        renamed.wf'.prepared renderable' isBound'⟩

theorem Renamed.sideBySide {f : NodeId → NodeId} (renamed : Renamed f graph graph')
    (counterparts : List.Forall₂ (graph.Counterparts graph') roots roots')
    {options options' : Options} (same : options'.bindUnreferenced = options.bindUnreferenced)
    (prepared : graph.Prepared roots bindings) (prepared' : graph'.Prepared roots' bindings)
    (clear : graph.LabelsClear roots bindings options)
    (clear' : graph'.LabelsClear roots' bindings options') :
    roots' = roots.map f ∧ SideBySide f graph graph' roots bindings options options'
      (relabeling f options options' (graph.plannedNodes roots)) := by
  have known : ∀ root ∈ roots, root ∈ graph.ids := by
    intro root isRoot
    obtain ⟨node, inside, same, _⟩ := prepared.valid root isRoot
    exact mem_ids.2 ⟨node, inside, same⟩
  obtain rfl := renamed.eq_map_of_counterparts counterparts known
  exact ⟨rfl, renamed, known, same, renamed.relabels known options options', clear prepared,
    clear' prepared'⟩

end Graph

namespace Session

/-- The slot that a step is about, unless it opens one. -/
def Step.slot? : Step → Option Nat
  | .openBuilder _ => none
  | .openScope _ _ _ => none
  | .make index _ => some index
  | .setName index _ _ => some index
  | .finish index => some index
  | .print index _ => some index
  | .execute index _ => some index
  | .drop index => some index

variable {session session' : Session} {index index' : Nat} {b b' : Builder}

theorem builder?_replace {other : Nat} (apart : other ≠ index) (slot : Slot) :
    (session.replace other slot).builder? index = session.builder? index := by
  simp [builder?, List.getElem?_set_ne apart]

theorem builder?_append (found : session.builder? index = some b) (slot : Slot)
    (flags : Thread → Bool) :
    ({ session with slots := session.slots ++ [slot], flags } : Session).builder? index =
      some b := by
  obtain ⟨slot', found, isOpen⟩ := Option.bind_eq_some_iff.1 found
  have inside := (List.getElem?_eq_some_iff.1 found).1
  rw [builder?, List.getElem?_append_left inside, found]
  exact isOpen

theorem builder?_commit_ne {other : Nat} (apart : other ≠ index) (slot : Slot)
    (state : BuildState) :
    (session.commit other slot state).builder? index = session.builder? index := by
  simp [builder?, commit, List.getElem?_set_ne apart]

/-- A step elsewhere leaves a builder alone, and ids do not come again. -/
theorem step_elsewhere (found : session.builder? index = some b) {step : Step}
    (elsewhere : step.slot? ≠ some index) :
    (session.step step).2.builder? index = some b ∧
      session.nextId ≤ (session.step step).2.nextId := by
  have unchanged : session.builder? index = some b ∧ session.nextId ≤ session.nextId :=
    ⟨found, Nat.le_refl _⟩
  have replaced {other : Nat} (notHere : some other ≠ some index) (slot : Slot) :
      (session.replace other slot).builder? index = some b ∧
        session.nextId ≤ (session.replace other slot).nextId := by
    rw [builder?_replace (fun same => notHere (congrArg some same)), found, nextId_replace]
    exact ⟨rfl, Nat.le_refl _⟩
  have called {other : Nat} (notHere : some other ≠ some index) {call : BuildM NodeId}
      (atomic : call.Atomic) (ascends : call.Ascends) :
      (session.call other call).2.builder? index = some b ∧
        session.nextId ≤ (session.call other call).2.nextId := by
    rcases session.call_cases other atomic with
      ⟨_, same⟩ | ⟨_, same⟩ | ⟨slot, _, _, state, _, _, done, same⟩
    · rwa [same]
    · rwa [same]
    · rw [same]
      exact ⟨(builder?_commit_ne (fun same => notHere (congrArg some same)) slot state).trans found,
        ascends _ _ _ done⟩
  cases step with
  | openBuilder registry => exact ⟨builder?_append found _ _, Nat.le_refl _⟩
  | openScope registry options thread =>
    simp only [Session.step]
    split
    · exact unchanged
    · exact ⟨builder?_append found _ _, Nat.le_refl _⟩
  | make other request =>
    exact called elsewhere (BuildM.atomic_make request) (BuildM.ascends_make request)
  | setName other id name =>
    exact called elsewhere (BuildM.atomic_named id name) (BuildM.ascends_named id name)
  | finish other =>
    simp only [Session.step]
    split
    · exact unchanged
    · exact replaced elsewhere _
  | print other bindings =>
    simp only [Session.step]
    split
    · exact replaced elsewhere _
    · exact unchanged
  | execute other bindings =>
    simp only [Session.step]
    split
    · exact replaced elsewhere _
    · exact unchanged
  | drop other =>
    simp only [Session.step]
    split
    · exact unchanged
    · exact replaced elsewhere _

/-- Two sessions in each of which the same calls have been made on a builder since it was opened,
with ids of counterparts. What the sessions were about before, and what else they have been about
since, is up to each of them. -/
inductive Parallel (index index' : Nat) : Session → Session → Prop where
  | opened {session session' : Session} (registry : Option Registry)
      (found : session.builder? index = some (.empty registry))
      (found' : session'.builder? index' = some (.empty registry)) :
      Parallel index index' session session'
  | left {session session' : Session} (before : Parallel index index' session session')
      (step : Step) (elsewhere : step.slot? ≠ some index) :
      Parallel index index' (session.step step).2 session'
  | right {session session' : Session} (before : Parallel index index' session session')
      (step : Step) (elsewhere : step.slot? ≠ some index') :
      Parallel index index' session (session'.step step).2
  | make {session session' : Session} {b b' : Builder}
      (before : Parallel index index' session session')
      (found : session.builder? index = some b) (found' : session'.builder? index' = some b')
      (request : NodeKind) (g : NodeId → NodeId)
      (counterparts : ∀ id ∈ request.operands, b.graph.Counterparts b'.graph id (g id)) :
      Parallel index index' (session.step (.make index request)).2
        (session'.step (.make index' (request.rename g))).2
  | setName {session session' : Session} {b b' : Builder}
      (before : Parallel index index' session session')
      (found : session.builder? index = some b) (found' : session'.builder? index' = some b')
      (id id' : NodeId) (counterparts : b.graph.Counterparts b'.graph id id') (name : String) :
      Parallel index index' (session.step (.setName index id name)).2
        (session'.step (.setName index' id' name)).2

/-- Whether the builders of two slots have come equally far. -/
def Level (index index' : Nat) (session session' : Session) : Prop :=
  ∃ b b', session.builder? index = some b ∧ session'.builder? index' = some b' ∧
    Builder.Abreast session.nextId session'.nextId b b'

theorem Parallel.level (parallel : Parallel index index' session session') :
    Level index index' session session' := by
  induction parallel with
  | opened registry found found' => exact ⟨_, _, found, found', .empty _ _ registry⟩
  | left before step elsewhere ih =>
    obtain ⟨b, b', found, found', abreast⟩ := ih
    obtain ⟨still, later⟩ := step_elsewhere found elsewhere
    exact ⟨b, b', still, found', abreast.later later (Nat.le_refl _)⟩
  | right before step elsewhere ih =>
    obtain ⟨b, b', found, found', abreast⟩ := ih
    obtain ⟨still, later⟩ := step_elsewhere found' elsewhere
    exact ⟨b, b', found, still, abreast.later (Nat.le_refl _) later⟩
  | @make _ _ b b' before found found' request g counterparts ih =>
    obtain ⟨_, _, isFound, isFound', abreast⟩ := ih
    cases found.symm.trans isFound
    cases found'.symm.trans isFound'
    obtain ⟨f, renamed⟩ := abreast.renamed
    have admits_iff := renamed.admits_iff abreast.registry counterparts
    by_cases admits : b.Admits request
    · obtain ⟨slot, inside, _, made⟩ := step_make found admits
      obtain ⟨slot', inside', _, made'⟩ := step_make found' (admits_iff.2 admits)
      rw [made, made']
      exact ⟨_, _, builder?_commit inside _, builder?_commit inside' _,
        abreast.make counterparts admits⟩
    · obtain ⟨_, failed⟩ := step_make_fails found admits
      obtain ⟨_, failed'⟩ := step_make_fails found' (mt admits_iff.1 admits)
      rw [failed, failed']
      exact ⟨b, b', found, found', abreast⟩
  | @setName _ _ b b' before found found' id id' counterparts name ih =>
    obtain ⟨_, _, isFound, isFound', abreast⟩ := ih
    cases found.symm.trans isFound
    cases found'.symm.trans isFound'
    obtain ⟨f, renamed⟩ := abreast.renamed
    have mayName_iff : b'.MayName id' name ↔ b.MayName id name := renamed.mayName_iff counterparts
    by_cases mayName : b.MayName id name
    · obtain ⟨slot, inside, _, named⟩ := step_setName found mayName
      obtain ⟨slot', inside', _, named'⟩ := step_setName found' (mayName_iff.2 mayName)
      rw [named, named']
      exact ⟨_, _, builder?_commit inside _, builder?_commit inside' _,
        abreast.withName counterparts mayName⟩
    · obtain ⟨_, failed⟩ := step_setName_fails found mayName
      obtain ⟨_, failed'⟩ := step_setName_fails found' (mt mayName_iff.1 mayName)
      rw [failed, failed']
      exact ⟨b, b', found, found', abreast⟩

/-- Ids do not matter but for the labels. Calls that go along in two sessions lead to graphs that
both fail to be rendered, with errors about counterparts, or that are both rendered, with each
label replaced by that of its node's counterpart wherever it is used. -/
theorem Parallel.ids_immaterial (parallel : Parallel index index' session session')
    {graph graph' : Graph}
    (finished : (session.builder? index).map Builder.finish = some graph)
    (finished' : (session'.builder? index').map Builder.finish = some graph')
    {roots roots' : List NodeId}
    (counterparts : List.Forall₂ (graph.Counterparts graph') roots roots') {bindings : Bindings}
    {options options' : Options} (same : options'.bindUnreferenced = options.bindUnreferenced)
    (clear : graph.LabelsClear roots bindings options)
    (clear' : graph'.LabelsClear roots' bindings options') :
    (∃ error error', graph.serialize roots bindings options = .error error ∧
      graph'.serialize roots' bindings options' = .error error' ∧
      graph.print roots bindings options = .error error ∧
      graph'.print roots' bindings options' = .error error' ∧
      error.Matches (graph.Counterparts graph') error') ∨
    ∃ query query' text text' relabel,
      graph.serialize roots bindings options = .ok query ∧
      graph'.serialize roots' bindings options' = .ok query' ∧
      graph.print roots bindings options = .ok text ∧
      graph'.print roots' bindings options' = .ok text' ∧
      graph.Relabels graph' roots roots' options options' relabel ∧
      query' = query.relabel relabel ∧
      ((∀ node ∈ graph.plannedNodes roots, node.name ≠ none) →
        query'.toBytes = query.toBytes ∧ text' = text) := by
  obtain ⟨b, b', found, found', abreast⟩ := parallel.level
  obtain ⟨f, renamed⟩ := abreast.renamed
  rw [found] at finished
  rw [found'] at finished'
  cases finished
  cases finished'
  change Renamed f b.finish b'.finish at renamed
  rcases renamed.fails_or_prepared counterparts options options' with
    ⟨error, error', failed, failed', related⟩ | ⟨nonempty, prepared, prepared'⟩
  · exact Or.inl ⟨error, error', failed, failed', print_eq_error.2 failed,
      print_eq_error.2 failed', related⟩
  obtain ⟨rfl, both⟩ := renamed.sideBySide counterparts same prepared prepared' clear clear'
  rcases List.eq_nil_or_concat roots with rfl | ⟨rest, last, rfl⟩
  · exact absurd rfl nonempty
  rw [List.concat_eq_append] at *
  rcases both.serialize.outcomes with
    ⟨error, error', failed, failed', related⟩ | ⟨query, query', done, done', related⟩
  · exact Or.inl ⟨error, error', failed, failed', print_eq_error.2 failed,
      print_eq_error.2 failed', related⟩
  obtain ⟨text, printed⟩ := exists_print_of_serialize done
  obtain ⟨text', printed'⟩ := exists_print_of_serialize done'
  refine Or.inr ⟨query, query', text, text', _, done, done', printed, printed', both.relabels,
    related, fun named => ⟨?_, ?_⟩⟩
  · have same := both.serialize_of_named named
    rw [done, done'] at same
    cases same with
    | ok same => rw [same]
  · have same := both.print_of_named named
    rw [printed, printed'] at same
    cases same with
    | ok same => exact same.symm

/-- A session about a single builder. -/
def alone : Session :=
  start.run [.openBuilder none, .make 0 (.variable "rows"), .make 0 (.lookup 1 "size"),
    .make 0 (.table 7), .make 0 (.binary 2 .add 2), .make 0 (.list [2, 3]), .setName 0 3 "total"]

def alone.graph : Graph where
  nodes := [
    ⟨1, none, .variable "rows", 1⟩,
    ⟨2, none, .lookup 1 "size", 2⟩,
    ⟨3, some "total", .binary 2 .add 2, 1⟩,
    ⟨4, none, .list [2, 3], 0⟩]

/-- The same calls, with others on another builder in between. What was the id of no node is that
of a node of the other builder here. -/
def among : Session :=
  start.run [.openBuilder (some .standard), .make 0 .placeholder, .openBuilder none,
    .make 1 (.variable "rows"), .make 1 (.lookup 2 "size"), .make 0 (.table 1),
    .make 1 (.table 4), .make 1 (.binary 3 .add 3), .make 1 (.list [3, 5]), .drop 0,
    .setName 1 5 "total"]

def among.graph : Graph where
  nodes := [
    ⟨2, none, .variable "rows", 1⟩,
    ⟨3, none, .lookup 2 "size", 2⟩,
    ⟨5, some "total", .binary 3 .add 3, 1⟩,
    ⟨6, none, .list [3, 5], 0⟩]

theorem alone_parallel_among : Parallel 0 1 alone among := by
  have opened : Parallel 0 1 (start.run [.openBuilder none])
      (start.run [.openBuilder (some .standard), .make 0 .placeholder, .openBuilder none]) :=
    .opened none rfl rfl
  have rows := opened.make rfl rfl (.variable "rows") id (by decide)
  have size := rows.make rfl rfl (.lookup 1 "size") (· + 1) (by decide)
  have other := size.right (.make 0 (.table 1)) (by decide)
  have table := other.make rfl rfl (.table 7) (fun _ => 4) (by decide)
  have sum := table.make rfl rfl (.binary 2 .add 2) (· + 1) (by decide)
  have list := sum.make rfl rfl (.list [2, 3]) (fun id => if id = 2 then 3 else 5) (by decide)
  have dropped := list.right (.drop 0) (by decide)
  exact dropped.setName rfl rfl 3 5 (by decide) "total"

/-- The label of the node that is used twice, and is not given a name, is all that changes. -/
theorem sample_ids_immaterial : Parallel 0 1 alone among ∧
    alone.graph.LabelsClear [4] (.ofList [("rows", .bool true)]) .standard ∧
    among.graph.LabelsClear [6] (.ofList [("rows", .bool true)]) ⟨"v", false⟩ ∧
    ∃ query query' relabel,
      alone.graph.serialize [4] (.ofList [("rows", .bool true)]) .standard = .ok query ∧
      among.graph.serialize [6] (.ofList [("rows", .bool true)]) ⟨"v", false⟩ = .ok query' ∧
      alone.graph.Relabels among.graph [4] [6] .standard ⟨"v", false⟩ relabel ∧
      query' = query.relabel relabel := by
  have finished : (alone.builder? 0).map Builder.finish = some alone.graph := rfl
  have finished' : (among.builder? 1).map Builder.finish = some among.graph := rfl
  have counterparts : List.Forall₂ (alone.graph.Counterparts among.graph) [4] [6] := by decide
  have same : Options.bindUnreferenced ⟨"v", false⟩ = Options.standard.bindUnreferenced := rfl
  have built : alone.graph.Built := ⟨_, 0, (rfl : (alone.slots[0]?).bind Slot.graph? = _)⟩
  have built' : among.graph.Built := ⟨_, 1, (rfl : (among.slots[1]?).bind Slot.graph? = _)⟩
  have clear : alone.graph.LabelsClear [4] (.ofList [("rows", .bool true)]) .standard :=
    built.wellFormed.labelsClear (by decide)
  have clear' : among.graph.LabelsClear [6] (.ofList [("rows", .bool true)]) ⟨"v", false⟩ :=
    built'.wellFormed.labelsClear (by decide)
  refine ⟨alone_parallel_among, clear, clear', ?_⟩
  rcases alone_parallel_among.ids_immaterial finished finished' counterparts same clear clear' with
    ⟨_, _, failed, _⟩ | ⟨query, query', _, _, relabel, done, done', _, _, relabels, related, _⟩
  · cases failed
  · exact ⟨query, query', relabel, done, done', relabels, related⟩

end Session

end QueryGraph
