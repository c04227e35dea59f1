import QueryGraph.Proofs.Homomorphisms
import QueryGraph.Proofs.Images
import QueryGraph.Proofs.Parts
import QueryGraph.Render.Tree

namespace QueryGraph

/-- A base piped through calls, if there are any. -/
def Expr.piped (base : Expr) : List Call → Expr
  | [] => base
  | step :: rest => .pipeline base (step :: rest)

mutual

/-- An expression with the base in the place of every pipeline that has no steps. -/
def Expr.trim : Expr → Expr
  | .atom value => .atom value
  | .binary left op right => .binary left.trim op right.trim
  | .lookup on property => .lookup on.trim property
  | .list values => .list (trimList values)
  | .dict values => .dict (trimEntries values)
  | .table inner => .table inner.trim
  | .reference name => .reference name
  | .placeholder => .placeholder
  | .call call => .call call.trim
  | .pipeline base steps => base.trim.piped (trimCalls steps)
  | .conditional condition thenDo elseDo =>
    .conditional condition.trim thenDo.trim elseDo.trim

def trimList : List Expr → List Expr
  | [] => []
  | expr :: rest => expr.trim :: trimList rest

def trimEntries : List (String × Expr) → List (String × Expr)
  | [] => []
  | (key, expr) :: rest => (key, expr.trim) :: trimEntries rest

def trimOperand : Option Expr → Option Expr
  | none => none
  | some expr => some expr.trim

def Call.trim : Call → Call
  | { operand, space, name, arguments } =>
    { operand := trimOperand operand, space, name, arguments := trimEntries arguments }

def trimCalls : List Call → List Call
  | [] => []
  | call :: rest => call.trim :: trimCalls rest

end

def Query.trim (query : Query) : Query :=
  ⟨query.statements.map (Statement.map Expr.trim), query.final.trim⟩

theorem trimList_eq (values : List Expr) : trimList values = values.map Expr.trim := by
  induction values with
  | nil => rfl
  | cons expr rest ih => rw [trimList, ih, List.map_cons]

theorem trimEntries_eq (entries : List (String × Expr)) :
    trimEntries entries = entries.map fun entry => (entry.1, entry.2.trim) := by
  induction entries with
  | nil => rfl
  | cons entry rest ih => rw [trimEntries, ih, List.map_cons]

theorem trimCalls_eq (calls : List Call) : trimCalls calls = calls.map Call.trim := by
  induction calls with
  | nil => rfl
  | cons call rest ih => rw [trimCalls, ih, List.map_cons]

/-- The back end for queries, but for pipelines without steps. -/
def Backend.trimmed : Backend Expr Call :=
  { Backend.tree with pipeline := Expr.piped }

/-- Trimming goes along with putting queries together. -/
def Backend.trimming : Backend.tree.Hom Backend.trimmed id where
  onValue := Expr.trim
  onCall := Call.trim
  constant _ := rfl
  binary _ _ _ := rfl
  lookup _ _ := rfl
  list values := congrArg Expr.list (trimList_eq values)
  dict entries := congrArg Expr.dict
    ((trimEntries_eq _).trans (Entries.map_ofList Expr.trim entries))
  table _ := rfl
  reference _ := rfl
  placeholder := rfl
  call space name arguments := by
    simp [Backend.tree, Backend.trimmed, Call.trim, trimOperand, trimEntries_eq,
      Entries.map_ofList]
  pipeline base steps := congrArg base.trim.piped (trimCalls_eq steps)
  conditional _ _ _ := rfl

theorem Graph.extract_trimmed (graph : Graph) (roots : List NodeId) (bindings : Bindings)
    (options : Options) : graph.extract Backend.trimmed roots bindings options =
      (graph.extract Backend.tree roots bindings options).map (Rendering.map Expr.trim) :=
  Graph.extract_map Backend.trimming graph roots bindings options

/-- Whether a condition holds of all constants in an expression, at any depth. -/
def Expr.Constants (condition : Constant → Prop) (expr : Expr) : Prop :=
  ∀ constant, (Expr.atom constant).Occurs expr → condition constant

def Call.Constants (condition : Constant → Prop) (call : Call) : Prop :=
  ∀ part ∈ call.parts, part.Constants condition

namespace Expr

variable {condition : Constant → Prop} {expr : Expr}

theorem constants_iff : expr.Constants condition ↔
    (∀ constant, expr = .atom constant → condition constant) ∧
      ∀ part ∈ expr.parts, part.Constants condition := by
  constructor
  · intro all
    refine ⟨fun constant same => all constant (same ▸ .self), ?_⟩
    exact fun part isPart constant occurs => all constant (.part isPart occurs)
  · rintro ⟨own, below⟩ constant occurs
    rcases occurs_iff.1 occurs with same | ⟨part, isPart, occurs⟩
    · exact own constant same.symm
    · exact below part isPart constant occurs

theorem constants_pipeline {base : Expr} {steps : List Call} :
    (Expr.pipeline base steps).Constants condition ↔
      base.Constants condition ∧ ∀ step ∈ steps, step.Constants condition := by
  rw [constants_iff, and_iff_right (by rintro _ ⟨⟩)]
  simp only [parts, List.forall_mem_cons, List.forall_mem_flatMap]
  rfl

theorem constants_piped {base : Expr} {steps : List Call} :
    (base.piped steps).Constants condition ↔
      base.Constants condition ∧ ∀ step ∈ steps, step.Constants condition := by
  cases steps with
  | nil => simp [piped]
  | cons step rest => exact constants_pipeline

end Expr

theorem values_trimEntries (entries : Entries Expr) :
    Entries.values (trimEntries entries) = (Entries.values entries).map Expr.trim := by
  simp [trimEntries_eq, Entries.values, Function.comp_def]

theorem Call.parts_trim (call : Call) : call.trim.parts = call.parts.map Expr.trim := by
  obtain ⟨operand, space, name, arguments⟩ := call
  cases operand <;> simp [Call.trim, Call.parts, trimOperand, values_trimEntries]

theorem Expr.parts_trim {expr : Expr} (single : ∀ base steps, expr ≠ .pipeline base steps) :
    expr.trim.parts = expr.parts.map trim := by
  cases expr with
  | pipeline base steps => exact absurd rfl (single base steps)
  | list values => exact trimList_eq values
  | dict entries => exact values_trimEntries entries
  | call call => exact call.parts_trim
  | _ => rfl

theorem Expr.constants_trim {condition : Constant → Prop} (expr : Expr) :
    expr.trim.Constants condition ↔ expr.Constants condition := by
  induction expr using Expr.induction with
  | step expr below =>
    by_cases isPipeline : ∃ base steps, expr = .pipeline base steps
    · obtain ⟨base, steps, rfl⟩ := isPipeline
      have calls : ∀ step ∈ steps, step.trim.Constants condition ↔ step.Constants condition := by
        intro step member
        rw [Call.Constants, Call.parts_trim, List.forall_mem_map]
        exact forall₂_congr fun part isPart =>
          below part (List.mem_cons_of_mem _ (List.mem_flatMap.2 ⟨step, member, isPart⟩))
      rw [trim, constants_piped, constants_pipeline, below base List.mem_cons_self, trimCalls_eq,
        List.forall_mem_map]
      exact and_congr_right fun _ => forall₂_congr calls
    · have single : ∀ base steps, expr ≠ .pipeline base steps := fun base steps same =>
        isPipeline ⟨base, steps, same⟩
      have same : ∀ constant, expr.trim = .atom constant ↔ expr = .atom constant := by
        cases expr with
        | pipeline base steps => exact absurd rfl (single base steps)
        | _ => simp [trim]
      rw [constants_iff, constants_iff, parts_trim single, List.forall_mem_map]
      exact and_congr (forall_congr' fun constant => imp_congr_left (same constant))
        (forall₂_congr below)

namespace NodeKind

variable {condition : Constant → Prop} {kind : NodeKind} {value : NodeId → Expr}
  {call : NodeId → Call}

theorem values_ofList_map {entries : Entries NodeId} (distinct : entries.keys.Nodup) :
    Entries.values (Entries.ofList (entries.map fun entry => (entry.1, value entry.2))) =
      entries.values.map value := by
  simp [Entries.ofList_map distinct, Entries.values]

theorem constants_valueOf (isValue : kind.isValue = true) (distinct : kind.entryKeys.Nodup) :
    (Backend.trimmed.valueOf value call kind).Constants condition ↔
      (∀ constant, kind = .constant constant → condition constant) ∧
      (∀ id ∈ kind.valueOperands, (value id).Constants condition) ∧
      ∀ id ∈ kind.callOperands, (call id).Constants condition := by
  cases kind with
  | call => cases isValue
  | pipeline base steps =>
    simp [Backend.valueOf, Backend.trimmed, Expr.constants_piped, valueOperands, callOperands]
  | dict entries =>
    rw [Expr.constants_iff]
    simp [Backend.valueOf, Backend.trimmed, Backend.tree, Expr.parts, values_ofList_map distinct,
      valueOperands, callOperands, operands]
  | _ =>
    rw [Expr.constants_iff]
    simp [Backend.valueOf, Backend.trimmed, Backend.tree, Expr.ofOperator, Expr.parts,
      valueOperands, callOperands, operands]

theorem constants_callOf (isCall : kind.isValue = false) (distinct : kind.entryKeys.Nodup) :
    (Backend.trimmed.callOf value kind).Constants condition ↔
      ∀ id ∈ kind.valueOperands, (value id).Constants condition := by
  cases kind with
  | call space name arguments =>
    simp [Backend.callOf, Backend.trimmed, Backend.tree, Call.Constants, Call.parts,
      values_ofList_map distinct, valueOperands, operands]
  | _ => cases isCall

end NodeKind

end QueryGraph
