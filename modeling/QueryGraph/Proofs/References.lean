import QueryGraph.Proofs.Outline
import QueryGraph.Render.Tree

namespace QueryGraph

open Extraction

mutual

/-- The names that an expression refers to, those in the arguments of operator calls included. -/
def Expr.references : Expr → List String
  | .atom _ | .placeholder => []
  | .binary left _ right => left.references ++ right.references
  | .lookup on _ => on.references
  | .list values => listReferences values
  | .dict values => entriesReferences values
  | .table inner => inner.references
  | .reference name => [name]
  | .call call => call.references
  | .pipeline base steps => base.references ++ callsReferences steps
  | .conditional condition thenDo elseDo =>
    condition.references ++ thenDo.references ++ elseDo.references

def listReferences : List Expr → List String
  | [] => []
  | expr :: rest => expr.references ++ listReferences rest

def entriesReferences : List (String × Expr) → List String
  | [] => []
  | (_, expr) :: rest => expr.references ++ entriesReferences rest

def operandReferences : Option Expr → List String
  | none => []
  | some expr => expr.references

def Call.references : Call → List String
  | { operand, space := _, name := _, arguments } =>
    operandReferences operand ++ entriesReferences arguments

def callsReferences : List Call → List String
  | [] => []
  | call :: rest => call.references ++ callsReferences rest

end

theorem mem_listReferences {values : List Expr} {name : String} :
    name ∈ listReferences values ↔ ∃ expr ∈ values, name ∈ expr.references := by
  induction values with
  | nil => simp [listReferences]
  | cons expr rest ih => simp [listReferences, ih]

theorem mem_entriesReferences {entries : List (String × Expr)} {name : String} :
    name ∈ entriesReferences entries ↔ ∃ entry ∈ entries, name ∈ entry.2.references := by
  induction entries with
  | nil => simp [entriesReferences]
  | cons entry rest ih => simp [entriesReferences, ih]

theorem mem_callsReferences {calls : List Call} {name : String} :
    name ∈ callsReferences calls ↔ ∃ call ∈ calls, name ∈ call.references := by
  induction calls with
  | nil => simp [callsReferences]
  | cons call rest ih => simp [callsReferences, ih]

/-- Statements in an order in which each refers to those before it, no two of them under the same
name. -/
inductive Scoped : List (Statement Expr) → Prop where
  | nil : Scoped []
  | snoc {statements : List (Statement Expr)} {statement : Statement Expr}
      (before : Scoped statements) (fresh : statement.name ∉ statements.map (·.name))
      (known : ∀ name ∈ statement.body.references, name ∈ statements.map (·.name)) :
      Scoped (statements ++ [statement])

theorem Scoped.nodup {statements : List (Statement Expr)} (inScope : Scoped statements) :
    (statements.map (·.name)).Nodup := by
  induction inScope with
  | nil => exact List.nodup_nil
  | snoc _ fresh _ ih =>
    rw [List.map_append]
    exact List.nodup_append_singleton ih fresh

theorem Scoped.cut {statements before after : List (Statement Expr)} {statement : Statement Expr}
    (inScope : Scoped statements) (parts : statements = before ++ statement :: after) :
    ∀ name ∈ statement.body.references, name ∈ before.map (·.name) := by
  induction inScope generalizing after with
  | nil => simp at parts
  | snoc _ _ known ih =>
    rcases List.append_singleton_eq_append_cons parts with ⟨_, rfl, rfl⟩ | ⟨after', _, parts⟩
    · exact known
    · exact ih parts

theorem references_agree {names : List String} {kind : NodeKind}
    (known : ∀ name, kind.variableName? = some name → name ∈ names) :
    Backend.tree.Agree Backend.tree (fun expr _ => ∀ name ∈ expr.references, name ∈ names)
      (fun call _ => ∀ name ∈ call.references, name ∈ names) kind := by
  constructor
  · intro isValue value _ call _ values calls
    cases kind with
    | constant constant => exact nofun
    | placeholder => exact nofun
    | call space name arguments => cases isValue
    | «variable» variableName =>
      intro name member
      rw [List.mem_singleton.1 member]
      exact known variableName rfl
    | binary left op right =>
      intro name member
      rcases List.mem_append.1 member with member | member
      · exact values left (by simp [NodeKind.valueOperands, NodeKind.operands]) name member
      · exact values right (by simp [NodeKind.valueOperands, NodeKind.operands]) name member
    | lookup on key => exact values on (by simp [NodeKind.valueOperands, NodeKind.operands])
    | table inner => exact values inner (by simp [NodeKind.valueOperands, NodeKind.operands])
    | list ids =>
      intro name member
      obtain ⟨expr, listed, member⟩ := mem_listReferences.1 member
      obtain ⟨id, isOperand, rfl⟩ := List.mem_map.1 listed
      exact values id isOperand name member
    | dict entries =>
      intro name member
      obtain ⟨entry, listed, member⟩ := mem_entriesReferences.1 member
      obtain ⟨pair, isEntry, rfl⟩ := List.mem_map.1 (Entries.mem_of_mem_ofList listed)
      exact values pair.2 (List.mem_map_of_mem isEntry) name member
    | pipeline base steps =>
      intro name member
      rcases List.mem_append.1 member with member | member
      · exact values base List.mem_cons_self name member
      · obtain ⟨step, listed, member⟩ := mem_callsReferences.1 member
        obtain ⟨id, isOperand, rfl⟩ := List.mem_map.1 listed
        exact calls id isOperand name member
    | conditional condition thenDo elseDo =>
      intro name member
      rcases List.mem_append.1 member with member | member
      · rcases List.mem_append.1 member with member | member
        · exact values condition (by simp [NodeKind.valueOperands, NodeKind.operands]) name member
        · exact values thenDo (by simp [NodeKind.valueOperands, NodeKind.operands]) name member
      · exact values elseDo (by simp [NodeKind.valueOperands, NodeKind.operands]) name member
  · intro isCall value _ values
    cases kind with
    | call space callName arguments =>
      intro name member
      obtain ⟨entry, listed, member⟩ := mem_entriesReferences.1 member
      obtain ⟨pair, isEntry, rfl⟩ := List.mem_map.1 (Entries.mem_of_mem_ofList listed)
      exact values pair.2 (List.mem_map_of_mem isEntry) name member
    | _ => cases isCall

namespace Extraction

variable {graph : Graph} {plan : Plan}

theorem scoped_bindings {bound : List (String × Constant)}
    (distinct : (Entries.keys bound).Nodup) : Scoped (bindingStatements Backend.tree bound) := by
  induction bound using List.reverseRecOn with
  | nil => exact .nil
  | append_singleton bound entry ih =>
    rw [Entries.keys, List.map_append, List.nodup_append] at distinct
    rw [bindingStatements, List.map_append]
    refine .snoc (ih distinct.1) ?_ fun name member => by cases member
    intro known
    have earlier : entry.1 ∈ bound.map (·.1) := by simpa [bindingStatements] using known
    exact distinct.2.2 entry.1 earlier entry.1 (by simp) rfl

theorem settle_references {names : List String} {node : Node}
    (known : plan.hoists node = true → statementName plan.options node ∈ names) {body : Expr}
    (below : ∀ name ∈ body.references, name ∈ names) :
    ∀ name ∈ (plan.settle Backend.tree node body).references, name ∈ names := by
  unfold Plan.settle
  split
  · rename_i hoists
    intro name member
    rw [List.mem_singleton.1 member]
    exact known hoists
  · exact below

theorem Plan.Admitted.scoped {taken : List String} {hoisted : List Node}
    (admitted : plan.Admitted graph taken hoisted) (wf : graph.WellFormed)
    {first : List (Statement Expr)} (scopedFirst : Scoped first)
    (names : first.map (·.name) = taken)
    (boundAll : ∀ node ∈ hoisted, ∀ other ∈ graph.postorder node.id, ∀ name,
      other.kind.variableName? = some name → name ∈ taken) :
    Scoped (first ++ hoisted.map (statementOf Backend.tree graph plan)) := by
  subst names
  induction admitted with
  | nil => simpa using scopedFirst
  | @snoc hoisted node _ inside isValue fresh below ih =>
    have known : (first ++ hoisted.map (statementOf Backend.tree graph plan)).map (·.name) =
        first.map (·.name) ++ plan.names hoisted := by
      simp [Plan.names, statementOf]
    rw [List.map_append, ← List.append_assoc]
    refine .snoc (ih fun node member => boundAll node (List.mem_append_left _ member)) ?_ ?_
    · rw [known]
      exact fresh
    · rw [known]
      have spelled : ∀ other ∈ graph.postorder node.id, ∀ name,
          other.kind.variableName? = some name →
            name ∈ first.map (·.name) ++ plan.names hoisted := fun other met name isVariable =>
        List.mem_append_left _ (boundAll node (by simp) other met name isVariable)
      refine wf.body_agree (plan.settle Backend.tree) inside isValue
        (fun other met => references_agree (spelled other met)) ?_
      intro id isOperand other met _ bodies
      refine settle_references (fun hoists => List.mem_append_right _ ?_) bodies
      exact List.mem_map_of_mem (below id isOperand other met hoists)

end Extraction

namespace Graph

variable {graph : Graph} {rest : List NodeId} {last : NodeId} {bindings : Bindings}
  {options : Options} {outline : Outline}

theorem Outlines.bound_of_variable
    (outlines : graph.Outlines rest last bindings options outline) {node : Node}
    (member : node ∈ graph.reach (rest ++ [last])) {name : String}
    (isVariable : node.kind.variableName? = some name) : name ∈ Entries.keys outline.bound := by
  rw [outlines.names, List.mem_append, freeVariables_eq, List.mem_eraseDups, List.mem_filterMap]
  exact Or.inl ⟨node, member, isVariable⟩

theorem WellFormed.mem_reach_below (wf : graph.WellFormed) {roots : List NodeId} {node : Node}
    (member : node ∈ graph.reach roots) {other : Node} (met : other ∈ graph.postorder node.id) :
    other ∈ graph.reach roots :=
  (wf.reach_eq roots).1.mem_of_met wf member met

theorem exists_last_of_extract {ε κ : Type} {backend : Backend ε κ} {roots : List NodeId}
    {rendering : Rendering ε} (rendered : graph.extract backend roots bindings options =
      .ok rendering) : ∃ rest last, roots = rest ++ [last] := by
  rcases List.eq_nil_or_concat roots with rfl | ⟨rest, last, rfl⟩
  · cases rendered
  · exact ⟨rest, last, List.concat_eq_append⟩

/-- No two statements of a query have the same name. What the body of a statement refers to are
statements before it, and what the final expression refers to are statements. -/
theorem Built.references_known (built : graph.Built) {roots : List NodeId} {query : Query}
    (serialized : graph.serialize roots bindings options = .ok query) :
    (query.statements.map (·.name)).Nodup ∧
    (∀ before statement after, query.statements = before ++ statement :: after →
      ∀ name ∈ statement.body.references, name ∈ before.map (·.name)) ∧
    ∀ name ∈ query.final.references, name ∈ query.statements.map (·.name) := by
  have wf := built.wellFormed
  obtain ⟨rendering, rendered, h⟩ := Outcome.bind_eq_ok.1 serialized
  cases h
  obtain ⟨rest, last, rfl⟩ := exists_last_of_extract rendered
  rw [wf.extract_eq] at rendered
  obtain ⟨outline, h, rfl⟩ := Outcome.map_eq_ok.1 rendered
  have outlines := wf.outline_ok h
  have names : (bindingStatements Backend.tree outline.bound).map (·.name) =
      Entries.keys outline.bound := by
    simp [bindingStatements, Entries.keys, Function.comp_def]
  have inScope := outlines.admitted.scoped wf
    (scoped_bindings (List.nodup_append.1 outlines.distinct).1) names
    fun node member other met name isVariable => outlines.bound_of_variable
      (wf.mem_reach_below (outlines.reached node member) met) isVariable
  refine ⟨inScope.nodup, fun before statement after parts => inScope.cut parts, ?_⟩
  obtain ⟨root, inside, rfl, isValue, _⟩ := outlines.renderable last (by simp)
  have reached (other : Node) (met : other ∈ graph.postorder root.id) :
      other ∈ graph.reach (rest ++ [root.id]) := wf.mem_reach_of_postorder (by simp) met
  have known : (outline.render Backend.tree graph root.id).statements.map (·.name) =
      Entries.keys outline.bound ++ outline.plan.names outline.hoisted := by
    simp [Outline.render, ← names, Plan.names, statementOf]
  rw [known]
  have spelled (other : Node) (met : other ∈ graph.postorder root.id) (name : String)
      (isVariable : other.kind.variableName? = some name) :
      name ∈ Entries.keys outline.bound ++ outline.plan.names outline.hoisted :=
    List.mem_append_left _ (outlines.bound_of_variable (reached other met) isVariable)
  refine (wf.images_agree (outline.plan.settle Backend.tree) inside
    (fun other met => references_agree (spelled other met)) ?_).value isValue
  intro other met _ bodies
  refine settle_references (fun hoists => List.mem_append_right _ ?_) bodies
  exact List.mem_map_of_mem (outlines.settled other (reached other met) hoists)

theorem sample_references_known : ∃ query : Query,
    sample.serialize [8, 9] (.ofList [("rows", .bool true)]) .standard = .ok query ∧
    query.final.references = ["_00000007", "_00000008", "_00000004"] ∧
    (query.statements.map (·.name)).Nodup ∧
    ∀ name ∈ query.final.references, name ∈ query.statements.map (·.name) :=
  have ⟨query, serialized⟩ : ∃ query, sample.serialize [8, 9]
      (.ofList [("rows", .bool true)]) .standard = .ok query := ⟨_, rfl⟩
  have ⟨distinct, _, known⟩ := built_sample.references_known serialized
  ⟨query, serialized, by cases serialized; rfl, distinct, known⟩

end Graph

end QueryGraph
