import QueryGraph.Proofs.BareSteps
import QueryGraph.Proofs.Meaning
import QueryGraph.Query.Lowering

namespace QueryGraph

/-- Whether there is a pipeline in an expression, at any depth. -/
def Expr.Piped (expr : Expr) : Prop :=
  ∃ base steps, (Expr.pipeline base steps).Occurs expr

theorem Expr.piped_iff {expr : Expr} : expr.Piped ↔
    (∃ base steps, expr = .pipeline base steps) ∨ ∃ part ∈ expr.parts, part.Piped := by
  constructor
  · rintro ⟨base, steps, occurs⟩
    rcases Expr.occurs_iff.1 occurs with same | ⟨part, isPart, occurs⟩
    · exact Or.inl ⟨base, steps, same.symm⟩
    · exact Or.inr ⟨part, isPart, base, steps, occurs⟩
  · rintro (⟨base, steps, rfl⟩ | ⟨part, isPart, base, steps, occurs⟩)
    · exact ⟨base, steps, .self⟩
    · exact ⟨base, steps, .part isPart occurs⟩

theorem lowerList_eq (values : List Expr) : lowerList values = values.map Expr.lower := by
  induction values with
  | nil => rfl
  | cons expr rest ih => rw [lowerList, ih, List.map_cons]

theorem lowerEntries_eq (entries : List (String × Expr)) :
    lowerEntries entries = entries.map fun entry => (entry.1, entry.2.lower) := by
  induction entries with
  | nil => rfl
  | cons entry rest ih => rw [lowerEntries, ih, List.map_cons]

theorem lowerCalls_eq (calls : List Call) : lowerCalls calls = calls.map Call.lower := by
  induction calls with
  | nil => rfl
  | cons call rest ih => rw [lowerCalls, ih, List.map_cons]

theorem values_lowerEntries (entries : Entries Expr) :
    Entries.values (lowerEntries entries) = (Entries.values entries).map Expr.lower := by
  simp [lowerEntries_eq, Entries.values, Function.comp_def]

theorem Call.parts_lower (call : Call) : call.lower.parts = call.parts.map Expr.lower := by
  obtain ⟨operand, space, name, arguments⟩ := call
  cases operand <;> simp [Call.lower, Call.parts, lowerOperand, values_lowerEntries]

namespace Expr

theorem parts_lower {expr : Expr} (single : ∀ base steps, expr ≠ .pipeline base steps) :
    expr.lower.parts = expr.parts.map lower := by
  cases expr with
  | pipeline base steps => exact absurd rfl (single base steps)
  | list values => exact lowerList_eq values
  | dict entries => exact values_lowerEntries entries
  | call call => exact call.parts_lower
  | _ => rfl

theorem lower_ne_pipeline {expr : Expr} (single : ∀ base steps, expr ≠ .pipeline base steps)
    (base : Expr) (steps : List Call) : expr.lower ≠ .pipeline base steps := by
  cases expr with
  | pipeline base steps => exact absurd rfl (single base steps)
  | _ => rintro ⟨⟩

theorem not_piped_chain {stage : Expr} {calls : List Call} (free : ¬ stage.Piped)
    (arguments : ∀ call ∈ calls, ∀ value ∈ Entries.values call.arguments, ¬ value.Piped) :
    ¬ (lower.chain stage calls).Piped := by
  induction calls generalizing stage with
  | nil => exact free
  | cons call rest ih =>
    refine ih ?_ fun call member => arguments call (List.mem_cons_of_mem _ member)
    rw [piped_iff]
    rintro (⟨_, _, ⟨⟩⟩ | ⟨part, isPart, piped⟩)
    rcases List.mem_append.1 isPart with isStage | isArgument
    · cases List.mem_singleton.1 isStage
      exact free piped
    · exact arguments call List.mem_cons_self part isArgument piped

theorem not_piped_lower (expr : Expr) : ¬ expr.lower.Piped := by
  induction expr using Expr.induction with
  | step expr below =>
    by_cases isPipeline : ∃ base steps, expr = .pipeline base steps
    · obtain ⟨base, steps, rfl⟩ := isPipeline
      simp only [lower, lowerCalls_eq]
      refine not_piped_chain (below base List.mem_cons_self) ?_
      intro call member value isArgument
      obtain ⟨step, isStep, rfl⟩ := List.mem_map.1 member
      have isPart : value ∈ step.lower.parts := List.mem_append_right _ isArgument
      rw [Call.parts_lower] at isPart
      obtain ⟨part, ofStep, rfl⟩ := List.mem_map.1 isPart
      exact below part (List.mem_cons_of_mem _ (List.mem_flatMap.2 ⟨step, isStep, ofStep⟩))
    · have single : ∀ base steps, expr ≠ .pipeline base steps := fun base steps same =>
        isPipeline ⟨base, steps, same⟩
      rw [piped_iff, parts_lower single]
      rintro (⟨base, steps, same⟩ | ⟨part, isPart, piped⟩)
      · exact lower_ne_pipeline single base steps same
      · obtain ⟨part, isPart', rfl⟩ := List.mem_map.1 isPart
        exact below part isPart' piped

end Expr

theorem lowerEntries_eq_self {entries : Entries Expr}
    (same : ∀ value ∈ Entries.values entries, value.lower = value) :
    lowerEntries entries = entries := by
  rw [lowerEntries_eq]
  have unchanged : ∀ entry ∈ entries, (entry.1, entry.2.lower) = entry := fun entry member =>
    congrArg (Prod.mk entry.1) (same entry.2 (List.mem_map_of_mem member))
  exact (List.map_congr_left unchanged).trans (List.map_id entries)

theorem Call.lower_eq_self {call : Call} (same : ∀ part ∈ call.parts, part.lower = part) :
    call.lower = call := by
  obtain ⟨operand, space, name, arguments⟩ := call
  have arguments' := lowerEntries_eq_self fun value member =>
    same value (List.mem_append_right _ member)
  cases operand with
  | none => simp [Call.lower, lowerOperand, arguments']
  | some operand =>
    have operand' := same operand (List.mem_append_left _ (List.mem_singleton_self _))
    simp [Call.lower, lowerOperand, arguments', operand']

theorem Expr.lower_eq_self {expr : Expr} (free : ¬ expr.Piped) : expr.lower = expr := by
  induction expr using Expr.induction with
  | step expr below =>
    rw [piped_iff, not_or] at free
    have same : ∀ part ∈ expr.parts, part.lower = part := fun part isPart =>
      below part isPart fun piped => free.2 ⟨part, isPart, piped⟩
    cases expr with
    | atom | reference | placeholder => rfl
    | pipeline base steps => exact absurd ⟨base, steps, rfl⟩ free.1
    | list values =>
      have values' : values.map lower = values :=
        (List.map_congr_left same).trans (List.map_id values)
      rw [lower, lowerList_eq, values']
    | dict entries => rw [lower, lowerEntries_eq_self same]
    | call call => rw [lower, Call.lower_eq_self same]
    | binary | lookup | table | conditional =>
      simp only [parts, List.forall_mem_cons] at same
      simp [lower, same]

theorem find?_lowerEntries (entries : Entries Expr) (name : String) :
    Entries.find? (lowerEntries entries) name = (entries.find? name).map Expr.lower := by
  unfold Entries.find?
  rw [lowerEntries_eq]
  induction entries with
  | nil => rfl
  | cons first rest ih =>
    rw [List.map_cons, List.lookup_cons, List.lookup_cons]
    split
    · rfl
    · exact ih

section

variable {env : Entries Expr}

theorem lowerEntries_expand {entries : Entries Expr}
    (same : ∀ value ∈ Entries.values entries,
      (value.expand env).lower = value.lower.expand (lowerEntries env)) :
    lowerEntries (expandEntries env entries) =
      expandEntries (lowerEntries env) (lowerEntries entries) := by
  rw [lowerEntries_eq, expandEntries_eq, lowerEntries_eq entries, expandEntries_eq, List.map_map,
    List.map_map]
  exact List.map_congr_left fun entry member =>
    congrArg (Prod.mk entry.1) (same entry.2 (List.mem_map_of_mem member))

theorem Call.lower_expand {call : Call} (same : ∀ part ∈ call.parts,
      (part.expand env).lower = part.lower.expand (lowerEntries env)) :
    (call.expand env).lower = call.lower.expand (lowerEntries env) := by
  obtain ⟨operand, space, name, arguments⟩ := call
  have arguments' := lowerEntries_expand fun value member =>
    same value (List.mem_append_right _ member)
  cases operand with
  | none => simp [Call.expand, Call.lower, expandOperand, lowerOperand, arguments']
  | some operand =>
    have operand' := same operand (List.mem_append_left _ (List.mem_singleton_self _))
    simp [Call.expand, Call.lower, expandOperand, lowerOperand, arguments', operand']

theorem Expr.expand_chain (stage : Expr) (calls : List Call) :
    (lower.chain stage calls).expand env =
      lower.chain (stage.expand env) (calls.map (·.expand env)) := by
  induction calls generalizing stage with
  | nil => rfl
  | cons call rest ih =>
    obtain ⟨operand, space, name, arguments⟩ := call
    rw [lower.chain, ih]
    rfl

/-- Lowering commutes with putting expressions in the place of references, provided that these are
lowered as well. -/
theorem Expr.lower_expand (expr : Expr) :
    (expr.expand env).lower = expr.lower.expand (lowerEntries env) := by
  induction expr using Expr.induction with
  | step expr below =>
    cases expr with
    | atom | placeholder => rfl
    | reference name =>
      rw [expand, lower, expand, find?_lowerEntries]
      cases env.find? name <;> rfl
    | list values =>
      rw [expand, lower, lower, expand, expandList_eq, lowerList_eq, lowerList_eq, expandList_eq,
        List.map_map, List.map_map]
      exact congrArg list (List.map_congr_left below)
    | dict entries => rw [expand, lower, lower, expand, lowerEntries_expand below]
    | call call => rw [expand, lower, lower, expand, Call.lower_expand below]
    | pipeline base steps =>
      have steps' : ∀ step ∈ steps,
          (step.expand env).lower = step.lower.expand (lowerEntries env) := fun step member =>
        Call.lower_expand fun part isPart => below part
          (List.mem_cons_of_mem _ (List.mem_flatMap.2 ⟨step, member, isPart⟩))
      rw [expand, lower, lower, expand_chain, below base List.mem_cons_self, expandCalls_eq,
        lowerCalls_eq, lowerCalls_eq, List.map_map, List.map_map]
      exact congrArg (lower.chain _) (List.map_congr_left steps')
    | binary | lookup | table | conditional =>
      simp only [parts, List.forall_mem_cons] at below
      simp [expand, lower, below]

end

theorem expandStatements_lower (statements : List (Statement Expr)) :
    expandStatements (statements.map Statement.lower) =
      lowerEntries (expandStatements statements) := by
  induction statements using List.reverseRecOn with
  | nil => rfl
  | append_singleton statements statement ih =>
    rw [List.map_append, List.map_singleton, expandStatements_concat, expandStatements_concat, ih,
      lowerEntries_eq (_ ++ _), List.map_append, ← lowerEntries_eq, List.map_singleton,
      Expr.lower_expand]
    rfl

universe u

/-- What each construct means, given what its parts mean. -/
structure Interpretation (M : Type u) where
  atom : Constant → M
  binary : M → String → M → M
  lookup : M → String → M
  list : List M → M
  dict : List (String × M) → M
  table : M → M
  reference : String → M
  placeholder : M
  /-- An operator call without an operand that is no step of a pipeline. -/
  call : String → String → List (String × M) → M
  /-- An operator call applied to an operand. -/
  apply : String → String → List (String × M) → M → M
  /-- A step that brings an operand along, which comes first, applied to a stage. -/
  redirect : M → String → String → List (String × M) → M → M
  conditional : M → M → M → M

section

variable {M : Type u} (interp : Interpretation M)

mutual

/-- What an expression means. The steps of a pipeline are applied from left to right, each of them
to what the stage before it means. -/
def Expr.meaning : Expr → M
  | .atom value => interp.atom value
  | .binary left op right => interp.binary left.meaning op right.meaning
  | .lookup on property => interp.lookup on.meaning property
  | .list values => interp.list (listMeaning values)
  | .dict values => interp.dict (entriesMeaning values)
  | .table inner => interp.table inner.meaning
  | .reference name => interp.reference name
  | .placeholder => interp.placeholder
  | .call call => call.meaning
  | .pipeline base steps => stagesMeaning base.meaning steps
  | .conditional condition thenDo elseDo =>
    interp.conditional condition.meaning thenDo.meaning elseDo.meaning

def listMeaning : List Expr → List M
  | [] => []
  | expr :: rest => expr.meaning :: listMeaning rest

def entriesMeaning : List (String × Expr) → List (String × M)
  | [] => []
  | (key, expr) :: rest => (key, expr.meaning) :: entriesMeaning rest

def operandMeaning : Option Expr → Option M
  | none => none
  | some expr => some expr.meaning

def Call.meaning : Call → M
  | { operand, space, name, arguments } =>
    match operandMeaning operand with
    | none => interp.call space name (entriesMeaning arguments)
    | some value => interp.apply space name (entriesMeaning arguments) value

/-- What a step makes of what the stage before it means. -/
def Call.applied (stage : M) : Call → M
  | { operand, space, name, arguments } =>
    match operandMeaning operand with
    | none => interp.apply space name (entriesMeaning arguments) stage
    | some value => interp.redirect value space name (entriesMeaning arguments) stage

def stagesMeaning : M → List Call → M
  | stage, [] => stage
  | stage, call :: rest => stagesMeaning (call.applied stage) rest

end

theorem listMeaning_eq (values : List Expr) :
    listMeaning interp values = values.map (·.meaning interp) := by
  induction values with
  | nil => rfl
  | cons expr rest ih => rw [listMeaning, ih, List.map_cons]

theorem entriesMeaning_eq (entries : List (String × Expr)) : entriesMeaning interp entries =
    entries.map fun entry => (entry.1, entry.2.meaning interp) := by
  induction entries with
  | nil => rfl
  | cons entry rest ih => rw [entriesMeaning, ih, List.map_cons]

variable {interp}

theorem entriesMeaning_lower {entries : Entries Expr}
    (same : ∀ value ∈ Entries.values entries, value.lower.meaning interp = value.meaning interp) :
    entriesMeaning interp (lowerEntries entries) = entriesMeaning interp entries := by
  rw [lowerEntries_eq, entriesMeaning_eq, entriesMeaning_eq, List.map_map]
  exact List.map_congr_left fun entry member =>
    congrArg (Prod.mk entry.1) (same entry.2 (List.mem_map_of_mem member))

theorem Call.meaning_lower {call : Call}
    (same : ∀ part ∈ call.parts, part.lower.meaning interp = part.meaning interp) :
    call.lower.meaning interp = call.meaning interp := by
  obtain ⟨operand, space, name, arguments⟩ := call
  have arguments' := entriesMeaning_lower fun value member =>
    same value (List.mem_append_right _ member)
  cases operand with
  | none => simp [Call.lower, Call.meaning, lowerOperand, operandMeaning, arguments']
  | some operand =>
    have operand' := same operand (List.mem_append_left _ (List.mem_singleton_self _))
    simp [Call.lower, Call.meaning, lowerOperand, operandMeaning, arguments', operand']

/-- The chain that steps are lowered to feeds each of them what the stage before it means. -/
theorem Expr.meaning_chain {steps : List Call} (bare : ∀ step ∈ steps, step.operand = none)
    (same : ∀ step ∈ steps, ∀ part ∈ step.parts,
      part.lower.meaning interp = part.meaning interp) (stage : Expr) :
    (lower.chain stage (steps.map Call.lower)).meaning interp =
      stagesMeaning interp (stage.meaning interp) steps := by
  induction steps generalizing stage with
  | nil => rfl
  | cons step rest ih =>
    obtain ⟨operand, space, name, arguments⟩ := step
    obtain rfl : operand = none := bare _ List.mem_cons_self
    have arguments' := entriesMeaning_lower fun value member =>
      same _ List.mem_cons_self value (List.mem_append_right _ member)
    have first : (Expr.call ⟨some stage, space, name, lowerEntries arguments⟩).meaning interp =
        Call.applied interp (stage.meaning interp) ⟨none, space, name, arguments⟩ := by
      simp [Expr.meaning, Call.meaning, Call.applied, operandMeaning, arguments']
    rw [stagesMeaning, ← first]
    exact ih (fun step member => bare step (List.mem_cons_of_mem _ member))
      (fun step member => same step (List.mem_cons_of_mem _ member)) _

theorem Expr.Bare.meaning_lower {expr : Expr} (bare : expr.Bare) :
    expr.lower.meaning interp = expr.meaning interp := by
  induction expr using Expr.induction with
  | step expr below =>
    obtain ⟨own, inner⟩ := bare_iff.1 bare
    have same : ∀ part ∈ expr.parts, part.lower.meaning interp = part.meaning interp :=
      fun part isPart => below part isPart (inner part isPart)
    cases expr with
    | atom | reference | placeholder => rfl
    | list values =>
      rw [lower, meaning, meaning, listMeaning_eq, listMeaning_eq, lowerList_eq, List.map_map]
      exact congrArg interp.list (List.map_congr_left same)
    | dict entries => rw [lower, meaning, meaning, entriesMeaning_lower same]
    | call call => rw [lower, meaning, meaning, Call.meaning_lower same]
    | pipeline base steps =>
      have steps' : ∀ step ∈ steps, ∀ part ∈ step.parts,
          part.lower.meaning interp = part.meaning interp := fun step member part isPart =>
        same part (List.mem_cons_of_mem _ (List.mem_flatMap.2 ⟨step, member, isPart⟩))
      rw [lower, meaning, lowerCalls_eq, meaning_chain (own base steps rfl) steps',
        same base List.mem_cons_self]
    | binary | lookup | table | conditional =>
      simp only [parts, List.forall_mem_cons] at same
      simp [lower, meaning, same]

end

/-- The interpretation of references as what they are known to mean. -/
def Interpretation.knowing {M : Type u} (interp : Interpretation M) (known : List (String × M)) :
    Interpretation M :=
  { interp with reference := fun name => (known.lookup name).getD (interp.reference name) }

/-- What statements mean, from first to last, each of them knowing those before it. -/
def statementsMeaning {M : Type u} (interp : Interpretation M)
    (statements : List (Statement Expr)) : List (String × M) :=
  statements.foldl (fun known statement =>
    known ++ [(statement.name, statement.body.meaning (interp.knowing known))]) []

theorem statementsMeaning_concat {M : Type u} (interp : Interpretation M)
    (statements : List (Statement Expr)) (statement : Statement Expr) :
    statementsMeaning interp (statements ++ [statement]) = statementsMeaning interp statements ++
      [(statement.name,
        statement.body.meaning (interp.knowing (statementsMeaning interp statements)))] := by
  rw [statementsMeaning, List.foldl_append]
  rfl

namespace Query

def Piped (query : Query) : Prop :=
  ∃ expr ∈ query.exprs, expr.Piped

/-- What the final expression means when every reference to a statement means what its body does. -/
def meaning {M : Type u} (interp : Interpretation M) (query : Query) : M :=
  query.final.meaning (interp.knowing (statementsMeaning interp query.statements))

variable {query : Query}

theorem exprs_lower (query : Query) : query.lower.exprs = query.exprs.map Expr.lower := by
  simp [exprs, lower, Statement.lower, Function.comp_def]

theorem not_piped_lower (query : Query) : ¬ query.lower.Piped := by
  rintro ⟨expr, member, piped⟩
  rw [exprs_lower] at member
  obtain ⟨expr, _, rfl⟩ := List.mem_map.1 member
  exact expr.not_piped_lower piped

theorem lower_eq_self (free : ¬ query.Piped) : query.lower = query := by
  have same : ∀ expr ∈ query.exprs, expr.lower = expr := fun expr member =>
    Expr.lower_eq_self fun piped => free ⟨expr, member, piped⟩
  have statements : ∀ statement ∈ query.statements, statement.lower = statement := by
    intro statement member
    rw [Statement.lower, same statement.body (List.mem_append_left _ (List.mem_map_of_mem member))]
  rw [lower, same query.final (List.mem_append_right _ (List.mem_singleton_self _)),
    (List.map_congr_left statements).trans (List.map_id _)]

theorem statementsMeaning_lower {M : Type u} (interp : Interpretation M)
    {statements : List (Statement Expr)}
    (bare : ∀ statement ∈ statements, statement.body.Bare) :
    statementsMeaning interp (statements.map Statement.lower) =
      statementsMeaning interp statements := by
  induction statements using List.reverseRecOn with
  | nil => rfl
  | append_singleton statements statement ih =>
    have earlier := ih fun other member => bare other (List.mem_append_left _ member)
    have last := bare statement (List.mem_append_right _ (List.mem_singleton_self _))
    rw [List.map_append, List.map_singleton, statementsMeaning_concat, statementsMeaning_concat,
      earlier]
    simp only [Statement.lower, last.meaning_lower]

theorem Bare.meaning_lower {M : Type u} (bare : query.Bare) (interp : Interpretation M) :
    query.lower.meaning interp = query.meaning interp := by
  have statements : ∀ statement ∈ query.statements, statement.body.Bare := fun statement member =>
    bare _ (List.mem_append_left _ (List.mem_map_of_mem member))
  have final := bare query.final (List.mem_append_right _ (List.mem_singleton_self _))
  rw [meaning, meaning, lower, statementsMeaning_lower interp statements, final.meaning_lower]

theorem expanded_lower (query : Query) : query.lower.expanded = query.expanded.lower := by
  rw [expanded, expanded, lower, expandStatements_lower, Expr.lower_expand]

/-- Lowering leaves no pipeline anywhere and changes nothing where there was none. Under every
interpretation the query means what it did, expression by expression and as a whole, and putting
statements in the place of references commutes with lowering. This holds of all queries in which
no step brings an operand along, be it that graphs were rendered into them, that texts denote them
or otherwise. -/
theorem lower_sound (origin : query.Bare ∨
    (∃ graph : Graph, graph.Built ∧ ∃ roots bindings options,
      graph.serialize roots bindings options = .ok query) ∨
    ∃ text, Query.parse text = .ok query) :
    ¬ query.lower.Piped ∧ (query.lower = query ↔ ¬ query.Piped) ∧
    query.lower.lower = query.lower ∧
    query.lower.statements.map (·.name) = query.statements.map (·.name) ∧
    (∀ (M : Type u) (interp : Interpretation M),
      query.lower.exprs.map (·.meaning interp) = query.exprs.map (·.meaning interp) ∧
      query.lower.meaning interp = query.meaning interp) ∧
    query.expanded.lower = query.lower.expanded := by
  have bare : query.Bare := by
    rcases origin with bare | ⟨graph, built, roots, bindings, options, serialized⟩ | ⟨text, parsed⟩
    · exact bare
    · exact built.bare serialized
    · exact bare_of_parse parsed
  refine ⟨query.not_piped_lower, ⟨fun same => ?_, lower_eq_self⟩,
    lower_eq_self query.not_piped_lower, ?_, fun M interp => ⟨?_, bare.meaning_lower interp⟩,
    query.expanded_lower.symm⟩
  · rw [← same]
    exact query.not_piped_lower
  · simp [lower, Statement.lower, Function.comp_def]
  · rw [exprs_lower, List.map_map]
    exact List.map_congr_left fun expr member => (bare expr member).meaning_lower

/-- Pipelines in each other's place: as a base, in the arguments of a step, and without steps. -/
def pipedSample : Query where
  statements := [⟨"kept", .pipeline
    (.pipeline (.reference "rows") [⟨none, "table", "distinct", []⟩])
    [⟨none, "table", "filter", [("keep", .pipeline .placeholder [])]⟩, ⟨none, "table", "top", []⟩]⟩]
  final := .list [.reference "kept", .pipeline (.reference "kept") []]

theorem pipedSample_bare : pipedSample.Bare := by
  have leaf (expr : Expr) (noParts : expr.parts = [])
      (single : ∀ base steps, expr ≠ .pipeline base steps) : expr.Bare :=
    Expr.bare_of_parts single (noParts ▸ nofun)
  refine List.forall_mem_cons.2 ⟨?_, List.forall_mem_singleton.2 ?_⟩
  · refine Expr.bare_pipeline (Expr.bare_pipeline (leaf _ rfl nofun) ?_) ?_
    · exact List.forall_mem_singleton.2 ⟨rfl, nofun⟩
    · refine List.forall_mem_cons.2 ⟨⟨rfl, ?_⟩, List.forall_mem_singleton.2 ⟨rfl, nofun⟩⟩
      exact List.forall_mem_singleton.2 (Expr.bare_pipeline (leaf _ rfl nofun) nofun)
  · refine Expr.bare_of_parts nofun (List.forall_mem_cons.2
      ⟨leaf _ rfl nofun, List.forall_mem_singleton.2 ?_⟩)
    exact Expr.bare_pipeline (leaf _ rfl nofun) nofun

theorem pipedSample_lower_sound :
    pipedSample.lower.final = .list [.reference "kept", .reference "kept"] ∧
    ¬ pipedSample.lower.Piped ∧ pipedSample.lower.lower = pipedSample.lower ∧
    pipedSample.expanded.lower = pipedSample.lower.expanded :=
  have ⟨free, _, again, _, _, expanded⟩ := lower_sound.{0} (Or.inl pipedSample_bare)
  ⟨rfl, free, again, expanded⟩

end Query

end QueryGraph
