import QueryGraph.Proofs.Acceptance
import QueryGraph.Proofs.Comparison
import QueryGraph.Proofs.Parts

namespace QueryGraph

open Extraction Grammar

/-- Whether no step of a pipeline brings an operand along, at any depth. -/
def Expr.Bare (expr : Expr) : Prop :=
  ∀ base steps, (Expr.pipeline base steps).Occurs expr → ∀ step ∈ steps, step.operand = none

theorem Expr.bare_iff {expr : Expr} : expr.Bare ↔
    (∀ base steps, expr = .pipeline base steps → ∀ step ∈ steps, step.operand = none) ∧
      ∀ part ∈ expr.parts, part.Bare := by
  constructor
  · intro bare
    refine ⟨fun base steps same => bare base steps (same ▸ .self), ?_⟩
    exact fun part isPart base steps occurs => bare base steps (.part isPart occurs)
  · rintro ⟨own, below⟩ base steps occurs
    rcases Expr.occurs_iff.1 occurs with same | ⟨part, isPart, occurs⟩
    · exact own base steps same.symm
    · exact below part isPart base steps occurs

theorem Expr.bare_of_parts {expr : Expr} (single : ∀ base steps, expr ≠ .pipeline base steps)
    (below : ∀ part ∈ expr.parts, part.Bare) : expr.Bare :=
  bare_iff.2 ⟨fun base steps same => absurd same (single base steps), below⟩

/-- A call that can be a step. -/
structure Call.Bare (call : Call) : Prop where
  operand : call.operand = none
  arguments : ∀ value ∈ Entries.values call.arguments, value.Bare

theorem Call.Bare.parts {call : Call} (bare : call.Bare) : ∀ part ∈ call.parts, part.Bare := by
  intro part isPart
  rw [Call.parts, bare.operand] at isPart
  exact bare.arguments part isPart

theorem Expr.bare_pipeline {base : Expr} {steps : List Call} (base' : base.Bare)
    (steps' : ∀ step ∈ steps, step.Bare) : (Expr.pipeline base steps).Bare := by
  refine bare_iff.2 ⟨?_, ?_⟩
  · rintro _ _ ⟨⟩ step member
    exact (steps' step member).operand
  · intro part isPart
    rcases List.mem_cons.1 isPart with rfl | isPart
    · exact base'
    · obtain ⟨step, member, isPart⟩ := List.mem_flatMap.1 isPart
      exact (steps' step member).parts part isPart

theorem bare_ofList {α : Type} {entries : List (String × α)} {value : α → Expr}
    (values : ∀ entry ∈ entries, (value entry.2).Bare) : ∀ part ∈ Entries.values
      (Entries.ofList (entries.map fun entry => (entry.1, value entry.2))), part.Bare := by
  intro part isPart
  obtain ⟨entry, listed, rfl⟩ := List.mem_map.1 isPart
  obtain ⟨pair, member, rfl⟩ := List.mem_map.1 (Entries.mem_of_mem_ofList listed)
  exact values pair member

theorem bare_agree (kind : NodeKind) : Backend.tree.Agree Backend.tree
    (fun expr _ => expr.Bare) (fun call _ => call.Bare) kind := by
  constructor
  · intro isValue value _ call _ values calls
    cases kind with
    | constant | «variable» | placeholder =>
      refine Expr.bare_of_parts ?_ ?_
      · rintro _ _ ⟨⟩
      · rintro _ ⟨⟩
    | call => cases isValue
    | pipeline base steps =>
      refine Expr.bare_pipeline (values base List.mem_cons_self) fun step listed => ?_
      obtain ⟨id, isStep, rfl⟩ := List.mem_map.1 listed
      exact calls id isStep
    | list ids =>
      refine Expr.bare_of_parts ?_ ?_
      · rintro _ _ ⟨⟩
      · intro part isPart
        obtain ⟨id, isOperand, rfl⟩ := List.mem_map.1 isPart
        exact values id isOperand
    | dict entries =>
      refine Expr.bare_of_parts ?_ ?_
      · rintro _ _ ⟨⟩
      · exact bare_ofList fun entry member => values entry.2 (List.mem_map_of_mem member)
    | lookup | table | binary | conditional =>
      refine Expr.bare_of_parts ?_ ?_
      · rintro _ _ ⟨⟩
      · simp only [NodeKind.valueOperands, NodeKind.operands, List.forall_mem_cons] at values
        simp_all [Backend.valueOf, Backend.tree, Expr.ofOperator, Expr.parts]
  · intro isCall value _ values
    cases kind with
    | call space name arguments =>
      exact ⟨rfl, bare_ofList fun entry member => values entry.2 (List.mem_map_of_mem member)⟩
    | _ => cases isCall

/-- The bodies of the statements and the final expression. -/
def Query.exprs (query : Query) : List Expr :=
  query.statements.map (·.body) ++ [query.final]

def Query.Bare (query : Query) : Prop :=
  ∀ expr ∈ query.exprs, expr.Bare

theorem Graph.Built.bare {graph : Graph} (built : graph.Built) {roots : List NodeId}
    {bindings : Bindings} {options : Options} {query : Query}
    (serialized : graph.serialize roots bindings options = .ok query) : query.Bare := by
  obtain ⟨rendering, rendered, h⟩ := Outcome.bind_eq_ok.1 serialized
  cases h
  have agreement : graph.Agreement roots bindings options Backend.tree Backend.tree
      (fun expr _ => expr.Bare) fun call _ => call.Bare :=
    ⟨fun node _ => bare_agree node.kind, fun _ _ => Expr.bare_of_parts nofun nofun,
      fun _ _ _ => Expr.bare_of_parts nofun nofun⟩
  obtain ⟨_, _, statements, final⟩ := built.wellFormed.extract_related agreement rendered
  have bodies := ((List.forall₂_and_left _ _).1 (statements.imp fun _ _ related =>
    ⟨related.2, related⟩)).1
  exact List.forall_mem_append.2
    ⟨List.forall_mem_map.2 bodies, List.forall_mem_singleton.2 final⟩

/-- What holds of the meanings of phrases when nothing in them brings an operand along. -/
def Grammar.Category.Bare : (category : Category) → category.Meaning → Prop
  | expression | operand _ => Expr.Bare
  | links _ | accesses => fun result => ∀ left : Expr, left.Bare → Expr.Bare (result left)
  | steps => fun calls : List Call => ∀ step ∈ calls, step.Bare
  | call => Call.Bare
  | values => fun items : List Expr => ∀ value ∈ items, value.Bare
  | entries _ => fun result => ∀ sofar : Entries Expr,
    (∀ value ∈ Entries.values sofar, value.Bare) →
      ∀ value ∈ Entries.values (result sofar), value.Bare

theorem Expr.bare_ofOperator {left right : Expr} {op : Operator} (left' : left.Bare)
    (right' : right.Bare) : (Expr.ofOperator left op right).Bare :=
  bare_of_parts nofun (List.forall_mem_cons.2 ⟨left', List.forall_mem_singleton.2 right'⟩)

theorem Grammar.Derivation.bare {category : Category} (tree : Derivation category) :
    category.Bare tree.meaning := by
  induction tree with
  | conditional _ _ _ condition thenDo elseDo =>
    exact Expr.bare_of_parts nofun (List.forall_mem_cons.2
      ⟨condition, List.forall_mem_cons.2 ⟨thenDo, List.forall_mem_singleton.2 elseDo⟩⟩)
  | piped base steps base' steps' =>
    cases steps with
    | stepsNil => exact base'
    | stepsCons => exact Expr.bare_pipeline base' steps'
  | stepsNil | valuesNil => exact nofun
  | stepsCons _ _ step rest => exact List.forall_mem_cons.2 ⟨step, rest⟩
  | call _ _ _ arguments => exact ⟨rfl, arguments [] nofun⟩
  | entriesNil => exact fun _ bare => bare
  | entriesLast _ _ value => exact fun _ bare => Entries.forall_values_insert bare value
  | entriesCons _ _ _ value rest => exact fun _ bare => rest _ (Entries.forall_values_insert bare value)
  | valuesLast _ value => exact List.forall_mem_singleton.2 value
  | valuesCons _ _ value rest => exact List.forall_mem_cons.2 ⟨value, rest⟩
  | chain _ _ left rest | access _ _ left rest => exact rest _ left
  | linksNil | accessesNil => exact fun _ bare => bare
  | linksCons _ _ _ _ right rest => exact fun _ left => rest _ (Expr.bare_ofOperator left right)
  | single _ inner | parens _ inner => exact inner
  | comparison _ _ _ _ left right => exact Expr.bare_ofOperator left right
  | accessesLookup _ _ rest =>
    exact fun _ on => rest _ (Expr.bare_of_parts nofun (List.forall_mem_singleton.2 on))
  | accessesIndex _ _ index rest => exact fun _ on => rest _ (Expr.bare_ofOperator on index)
  | atom value => cases value <;> exact Expr.bare_of_parts nofun nofun
  | list _ values => exact Expr.bare_of_parts nofun values
  | dict _ entries => exact Expr.bare_of_parts nofun (entries [] nofun)
  | table _ inner => exact Expr.bare_of_parts nofun (List.forall_mem_singleton.2 inner)

theorem Query.bare_of_parse {text : String} {query : Query}
    (parsed : Query.parse text = .ok query) : query.Bare := by
  obtain ⟨tree, _, rfl⟩ := Parser.accepts_text parsed
  intro expr member
  rcases List.mem_append.1 member with member | member
  · obtain ⟨_, listed, rfl⟩ := List.mem_map.1 member
    obtain ⟨statement, _, rfl⟩ := List.mem_map.1 listed
    exact statement.body.bare
  · cases List.mem_singleton.1 member
    exact tree.final.bare

end QueryGraph
