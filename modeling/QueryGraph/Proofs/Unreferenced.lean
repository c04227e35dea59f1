import QueryGraph.Proofs.Failures
import QueryGraph.Proofs.Inlining

namespace QueryGraph

open Extraction

variable {ε κ : Type}

theorem Entries.eq_of_keys {α : Type} (value? : String → Option α) {first second : Entries α}
    (keys : first.keys = second.keys)
    (values : ∀ entry ∈ first, value? entry.1 = some entry.2)
    (values' : ∀ entry ∈ second, value? entry.1 = some entry.2) : first = second := by
  induction first generalizing second with
  | nil => exact (List.map_eq_nil_iff.1 keys.symm).symm
  | cons entry rest ih =>
    obtain ⟨entry', rest', rfl, same, keys⟩ :
        ∃ entry' rest', second = entry' :: rest' ∧ entry'.1 = entry.1 ∧
          Entries.keys rest' = Entries.keys rest := List.map_eq_cons_iff.1 keys.symm
    have found : entry'.2 = entry.2 := by
      rw [← Option.some_inj, ← values' entry' List.mem_cons_self, same]
      exact values entry List.mem_cons_self
    rw [Prod.ext same found, ih keys.symm
      (fun entry member => values entry (List.mem_cons_of_mem _ member))
      (fun entry member => values' entry (List.mem_cons_of_mem _ member))]

namespace Extraction

theorem boundVariables_congr (backend : Backend ε κ) {bindings other : Bindings}
    {names : List String} (agree : ∀ name ∈ names, bindings.get? name = other.get? name) :
    boundVariables backend bindings names = boundVariables backend other names := by
  induction names with
  | nil => rfl
  | cons name rest ih =>
    rw [boundVariables, boundVariables, agree name List.mem_cons_self,
      ih fun name member => agree name (List.mem_cons_of_mem _ member)]

end Extraction

namespace Graph

variable {graph : Graph} {roots rest : List NodeId} {last : NodeId} {bindings : Bindings}

/-- The bindings of variables that do not occur below the roots. -/
def unreferenced (graph : Graph) (roots : List NodeId) (bindings : Bindings) : Entries Constant :=
  bindings.entries.filter fun entry => !(graph.variableNames roots).contains entry.1

/-- The names that are bound to constants before anything else is made a statement. -/
def boundNames (graph : Graph) (roots : List NodeId) (bindings : Bindings) (options : Options) :
    List String :=
  graph.variableNames roots ++
    if options.bindUnreferenced then (graph.unreferenced roots bindings).keys else []

theorem keys_unreferenced : (graph.unreferenced roots bindings).keys =
    bindings.entries.keys.filter fun name => !(graph.variableNames roots).contains name := by
  simp [unreferenced, Entries.keys, List.filter_map, Function.comp_def]

theorem WellFormed.extract_congr (wf : graph.WellFormed) (backend : Backend ε κ)
    {other : Bindings} {options : Options} (alone : options.bindUnreferenced = false)
    (agree : ∀ name ∈ graph.variableNames roots, bindings.get? name = other.get? name) :
    graph.extract backend roots bindings options = graph.extract backend roots other options := by
  rw [variableNames, ← wf.freeVariables_reach] at agree
  simp only [extract, boundVariables_congr backend agree, alone]
  rfl

theorem Renders.alone {labelPrefix : String}
    (renders : graph.Renders roots bindings ⟨labelPrefix, true⟩) :
    graph.Renders roots bindings ⟨labelPrefix, false⟩ where
  toPrepared := renders.toPrepared
  nonempty := renders.nonempty
  named := renders.named
  distinct := by
    have kept : (graph.statementNames roots bindings ⟨labelPrefix, false⟩).Sublist
        (graph.statementNames roots bindings ⟨labelPrefix, true⟩) := by
      refine List.Sublist.append ?_ (.refl _)
      exact (List.append_nil _).symm ▸ List.sublist_append_left ..
    exact kept.nodup renders.distinct

theorem Outlines.keys_eq {options : Options} {outline : Outline}
    (outlines : graph.Outlines rest last bindings options outline) (wf : graph.WellFormed) :
    Entries.keys outline.bound = graph.boundNames (rest ++ [last]) bindings options := by
  rw [outlines.names, boundNames, keys_unreferenced, wf.freeVariables_reach]
  rfl

theorem Outlines.bound_eq {labelPrefix : String} {outline outline' : Outline}
    (outlines : graph.Outlines rest last bindings ⟨labelPrefix, true⟩ outline)
    (outlines' : graph.Outlines rest last bindings ⟨labelPrefix, false⟩ outline')
    (wf : graph.WellFormed) :
    outline.bound = outline'.bound ++ graph.unreferenced (rest ++ [last]) bindings := by
  refine Entries.eq_of_keys bindings.get? ?_ outlines.constants ?_
  · have keys' : Entries.keys outline'.bound = graph.variableNames (rest ++ [last]) := by
      simpa [boundNames] using outlines'.keys_eq wf
    have parts : Entries.keys (outline'.bound ++ graph.unreferenced (rest ++ [last]) bindings) =
        Entries.keys outline'.bound ++ (graph.unreferenced (rest ++ [last]) bindings).keys :=
      List.map_append
    rw [outlines.keys_eq wf, boundNames, parts, keys', if_pos rfl]
  · intro entry member
    rcases List.mem_append.1 member with member | member
    · exact outlines'.constants entry member
    · exact List.lookup_of_mem bindings.distinct (List.mem_filter.1 member).1

/-- Binding the variables that do not occur only puts statements of their own after those of the
variables that do. -/
theorem WellFormed.extract_alone (wf : graph.WellFormed) {backend : Backend ε κ}
    {labelPrefix : String} {rendering : Rendering ε}
    (rendered : graph.extract backend roots bindings ⟨labelPrefix, true⟩ = .ok rendering) :
    ∃ (referenced : Entries Constant) (statements : List (Statement ε)),
      referenced.keys = graph.variableNames roots ∧
      (∀ entry ∈ referenced, bindings.get? entry.1 = some entry.2) ∧
      rendering.statements = bindingStatements backend
        (referenced ++ graph.unreferenced roots bindings) ++ statements ∧
      graph.extract backend roots bindings ⟨labelPrefix, false⟩ =
        .ok ⟨bindingStatements backend referenced ++ statements, rendering.final⟩ := by
  obtain ⟨rest, last, rfl⟩ := exists_last_of_extract rendered
  rw [wf.extract_eq] at rendered ⊢
  obtain ⟨outline, h, rfl⟩ := Outcome.map_eq_ok.1 rendered
  have outlines := wf.outline_ok h
  cases h' : graph.outline rest last bindings ⟨labelPrefix, false⟩ with
  | error error => exact absurd (outlines.renders wf).alone ((wf.fails_of_outline h').not_renders wf)
  | ok outline' =>
    have outlines' := wf.outline_ok h'
    have hoisted : outline.hoisted = outline'.hoisted := by
      rw [outlines.hoisted_eq wf, outlines'.hoisted_eq wf]
    have settled : outline.plan.settle backend = outline'.plan.settle backend := by
      rw [outlines.plan, outlines'.plan]
      rfl
    have statements : statementOf backend graph outline.plan =
        statementOf backend graph outline'.plan := by
      rw [outlines.plan, outlines'.plan]
      rfl
    have keys := outlines'.keys_eq wf
    refine ⟨outline'.bound, outline'.hoisted.map (statementOf backend graph outline'.plan), ?_,
      outlines'.constants, ?_, ?_⟩
    · simpa [boundNames] using keys
    · rw [Outline.render, outlines.bound_eq outlines' wf, hoisted, statements]
    · rw [Outcome.map_ok, Outline.render, Outline.render, settled]

/-- Without other variables being asked for, a graph is rendered in the same way under any two
bindings that agree on the variables below the roots, whether rendering succeeds or not. If they
are asked for and rendering succeeds, it does so without them as well, and they make no other
difference than their statements after those of the variables below the roots. -/
theorem Built.render_unreferenced (built : graph.Built) (roots : List NodeId)
    (bindings : Bindings) (labelPrefix : String) :
    (∀ other : Bindings,
      (∀ node ∈ graph.nodes, graph.ReachedFrom roots node.id → ∀ name,
        node.kind = .variable name → bindings.get? name = other.get? name) →
      graph.print roots bindings ⟨labelPrefix, false⟩ =
        graph.print roots other ⟨labelPrefix, false⟩ ∧
      graph.serialize roots bindings ⟨labelPrefix, false⟩ =
        graph.serialize roots other ⟨labelPrefix, false⟩) ∧
    (∀ text, graph.print roots bindings ⟨labelPrefix, true⟩ = .ok text →
      ∃ (referenced : Entries Constant) (statements : List (Statement Fragment))
        (final : Fragment),
        referenced.keys = graph.variableNames roots ∧
        (∀ entry ∈ referenced, bindings.get? entry.1 = some entry.2) ∧
        text = String.ofList (Rendering.layout ⟨bindingStatements Backend.text
          (referenced ++ graph.unreferenced roots bindings) ++ statements, final⟩) ∧
        graph.print roots bindings ⟨labelPrefix, false⟩ = .ok (String.ofList (Rendering.layout
          ⟨bindingStatements Backend.text referenced ++ statements, final⟩))) ∧
    (∀ query, graph.serialize roots bindings ⟨labelPrefix, true⟩ = .ok query →
      ∃ (referenced : Entries Constant) (statements : List (Statement Expr)),
        referenced.keys = graph.variableNames roots ∧
        (∀ entry ∈ referenced, bindings.get? entry.1 = some entry.2) ∧
        query.statements = bindingStatements Backend.tree
          (referenced ++ graph.unreferenced roots bindings) ++ statements ∧
        graph.serialize roots bindings ⟨labelPrefix, false⟩ =
          .ok ⟨bindingStatements Backend.tree referenced ++ statements, query.final⟩) := by
  have wf := built.wellFormed
  refine ⟨?_, ?_, ?_⟩
  · intro other agree
    have agree' : ∀ name ∈ graph.variableNames roots, bindings.get? name = other.get? name := by
      intro name met
      obtain ⟨node, inside, reached, isVariable⟩ := wf.mem_variableNames.1 met
      exact agree node inside reached name isVariable
    rw [print, print, serialize, serialize, wf.extract_congr Backend.text rfl agree',
      wf.extract_congr Backend.tree rfl agree']
    exact ⟨rfl, rfl⟩
  · intro text printed
    obtain ⟨rendering, rendered, h⟩ := Outcome.bind_eq_ok.1 printed
    cases h
    obtain ⟨referenced, statements, keys, constants, parts, alone⟩ := wf.extract_alone rendered
    refine ⟨referenced, statements, rendering.final, keys, constants, ?_, ?_⟩
    · rw [← parts]
    · rw [print, alone]
      rfl
  · intro query serialized
    obtain ⟨rendering, rendered, h⟩ := Outcome.bind_eq_ok.1 serialized
    cases h
    obtain ⟨referenced, statements, keys, constants, parts, alone⟩ := wf.extract_alone rendered
    refine ⟨referenced, statements, keys, constants, parts, ?_⟩
    rw [serialize, alone]
    rfl

theorem sample_render_unreferenced :
    sample.print [8, 9] (.ofList [("rows", .bool true), ("limit", .int 3)]) .standard =
      sample.print [8, 9] (.ofList [("limit", .bool false), ("rows", .bool true)]) .standard ∧
    ∃ (query : Query) (referenced : Entries Constant) (statements : List (Statement Expr)),
      sample.serialize [8, 9] (.ofList [("limit", .int 3), ("rows", .bool true)]) ⟨"_", true⟩ =
        .ok query ∧
      query.statements.map (·.name) =
        ["rows", "limit", "_00000004", "_00000007", "_00000008"] ∧
      query.statements = bindingStatements Backend.tree
        (referenced ++ [("limit", .int 3)]) ++ statements ∧
      sample.serialize [8, 9] (.ofList [("limit", .int 3), ("rows", .bool true)]) ⟨"_", false⟩ =
        .ok ⟨bindingStatements Backend.tree referenced ++ statements, query.final⟩ := by
  have named : ∀ node ∈ sample.nodes,
      node.kind.variableName? = none ∨ node.kind.variableName? = some "rows" := by decide
  refine ⟨((built_sample.render_unreferenced [8, 9] _ "_").1 _ ?_).1, ?_⟩
  · intro node inside _ name isVariable
    have known := named node inside
    rw [isVariable] at known
    obtain rfl : name = "rows" := by simpa [NodeKind.variableName?] using known
    rfl
  · obtain ⟨query, serialized⟩ : ∃ query, sample.serialize [8, 9]
        (.ofList [("limit", .int 3), ("rows", .bool true)]) ⟨"_", true⟩ = .ok query := ⟨_, rfl⟩
    obtain ⟨referenced, statements, _, _, parts, alone⟩ :=
      (built_sample.render_unreferenced [8, 9] _ "_").2.2 query serialized
    refine ⟨query, referenced, statements, serialized, ?_, parts, alone⟩
    cases serialized
    rfl

end Graph

end QueryGraph
