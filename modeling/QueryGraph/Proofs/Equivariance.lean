import QueryGraph.Proofs.Relabeling
import QueryGraph.Render.Text

namespace QueryGraph

open Extraction

mutual

/-- An expression with other names in its references. -/
def Expr.relabel (relabel : String → String) : Expr → Expr
  | .atom value => .atom value
  | .binary left op right => .binary (left.relabel relabel) op (right.relabel relabel)
  | .lookup on property => .lookup (on.relabel relabel) property
  | .list values => .list (relabelList relabel values)
  | .dict values => .dict (relabelEntries relabel values)
  | .table inner => .table (inner.relabel relabel)
  | .reference name => .reference (relabel name)
  | .placeholder => .placeholder
  | .call call => .call (call.relabel relabel)
  | .pipeline base steps => .pipeline (base.relabel relabel) (relabelCalls relabel steps)
  | .conditional condition thenDo elseDo =>
    .conditional (condition.relabel relabel) (thenDo.relabel relabel) (elseDo.relabel relabel)

def relabelList (relabel : String → String) : List Expr → List Expr
  | [] => []
  | expr :: rest => expr.relabel relabel :: relabelList relabel rest

def relabelEntries (relabel : String → String) : List (String × Expr) → List (String × Expr)
  | [] => []
  | (key, expr) :: rest => (key, expr.relabel relabel) :: relabelEntries relabel rest

def relabelOperand (relabel : String → String) : Option Expr → Option Expr
  | none => none
  | some expr => some (expr.relabel relabel)

def Call.relabel (relabel : String → String) : Call → Call
  | { operand, space, name, arguments } =>
    { operand := relabelOperand relabel operand, space, name,
      arguments := relabelEntries relabel arguments }

def relabelCalls (relabel : String → String) : List Call → List Call
  | [] => []
  | call :: rest => call.relabel relabel :: relabelCalls relabel rest

end

/-- Statements under other names, each with a body that something is done to. -/
def Rendering.relabel {ε ε' : Type} (relabel : String → String) (f : ε → ε')
    (rendering : Rendering ε) : Rendering ε' where
  statements := rendering.statements.map fun statement =>
    ⟨relabel statement.name, f statement.body⟩
  final := f rendering.final

/-- A query with other names for statements and in references. -/
def Query.relabel (relabel : String → String) (query : Query) : Query where
  statements := query.statements.map fun statement =>
    ⟨relabel statement.name, statement.body.relabel relabel⟩
  final := query.final.relabel relabel

variable {relabel : String → String}

theorem relabelList_eq_map (values : List Expr) :
    relabelList relabel values = values.map (·.relabel relabel) := by
  induction values with
  | nil => rfl
  | cons expr rest ih => rw [relabelList, ih, List.map_cons]

theorem relabelEntries_eq_map (entries : List (String × Expr)) :
    relabelEntries relabel entries =
      entries.map fun entry => (entry.1, entry.2.relabel relabel) := by
  induction entries with
  | nil => rfl
  | cons entry rest ih => rw [relabelEntries, ih, List.map_cons]

theorem relabelCalls_eq_map (calls : List Call) :
    relabelCalls relabel calls = calls.map (·.relabel relabel) := by
  induction calls with
  | nil => rfl
  | cons call rest ih => rw [relabelCalls, ih, List.map_cons]

/-- Exchanging names goes along with putting queries together. -/
def Backend.relabelTree (relabel : String → String) : Backend.tree.Hom Backend.tree relabel where
  onValue := Expr.relabel relabel
  onCall := Call.relabel relabel
  constant _ := rfl
  binary _ _ _ := rfl
  lookup _ _ := rfl
  list values := congrArg Expr.list (relabelList_eq_map values)
  dict entries := congrArg Expr.dict
    ((relabelEntries_eq_map _).trans (Entries.map_ofList (Expr.relabel relabel) entries))
  table _ := rfl
  reference _ := rfl
  placeholder := rfl
  call space name arguments :=
    congrArg (fun arguments => ({ operand := none, space, name, arguments } : Call))
      ((relabelEntries_eq_map _).trans (Entries.map_ofList (Expr.relabel relabel) arguments))
  pipeline base steps :=
    congrArg (Expr.pipeline (base.relabel relabel)) (relabelCalls_eq_map steps)
  conditional _ _ _ := rfl

/-- The map that leaves everything as it is. -/
def Backend.Hom.refl {ε κ : Type} (backend : Backend ε κ) : backend.Hom backend id where
  onValue := id
  onCall := id
  constant _ := rfl
  binary _ _ _ := rfl
  lookup _ _ := rfl
  list values := by simp
  dict entries := by simp
  table _ := rfl
  reference _ := rfl
  placeholder := rfl
  call space name arguments := by simp
  pipeline base steps := by simp
  conditional _ _ _ := rfl

variable {ε κ ε' κ' : Type} {backend : Backend ε κ} {backend' : Backend ε' κ'}
  {f : NodeId → NodeId}

namespace Backend.Hom

variable (hom : Hom backend backend' relabel) {kind : NodeKind} {value : NodeId → ε}
  {value' : NodeId → ε'} {call : NodeId → κ} {call' : NodeId → κ'}

theorem entries_rename {pairs : Entries NodeId}
    (values : ∀ id ∈ Entries.values pairs, value' (f id) = hom.onValue (value id)) :
    (pairs.map fun entry => (entry.1, f entry.2)).map (fun entry => (entry.1, value' entry.2)) =
      (pairs.map fun entry => (entry.1, value entry.2)).map fun entry =>
        (entry.1, hom.onValue entry.2) := by
  rw [List.map_map, List.map_map]
  refine List.map_congr_left fun entry member => ?_
  simp [values entry.2 (List.mem_map_of_mem member)]

theorem map_rename {α β : Type} (ids : List NodeId) {a : NodeId → α} {b : NodeId → β} {g : α → β}
    (same : ∀ id ∈ ids, b (f id) = g (a id)) : (ids.map f).map b = (ids.map a).map g := by
  rw [List.map_map, List.map_map]
  exact List.map_congr_left same

theorem valueOf_rename
    (values : ∀ id ∈ kind.valueOperands, value' (f id) = hom.onValue (value id))
    (calls : ∀ id ∈ kind.callOperands, call' (f id) = hom.onCall (call id))
    (fixed : ∀ name, kind.variableName? = some name → relabel name = name) :
    backend'.valueOf value' call' (kind.rename f) =
      hom.onValue (backend.valueOf value call kind) := by
  cases kind with
  | constant constant => exact (hom.constant constant).symm
  | «variable» name => simp [NodeKind.rename, valueOf, hom.reference, fixed name rfl]
  | placeholder => exact hom.placeholder.symm
  | call => exact hom.placeholder.symm
  | binary left op right =>
    simp [NodeKind.rename, valueOf, hom.binary,
      values left (by simp [NodeKind.valueOperands, NodeKind.operands]),
      values right (by simp [NodeKind.valueOperands, NodeKind.operands])]
  | lookup on key =>
    simp [NodeKind.rename, valueOf, hom.lookup,
      values on (by simp [NodeKind.valueOperands, NodeKind.operands])]
  | table inner =>
    simp [NodeKind.rename, valueOf, hom.table,
      values inner (by simp [NodeKind.valueOperands, NodeKind.operands])]
  | list ids =>
    have ids' := map_rename ids values
    rw [valueOf, hom.list, NodeKind.rename, valueOf, ids']
  | dict pairs => rw [valueOf, hom.dict, NodeKind.rename, valueOf, hom.entries_rename values]
  | pipeline base ids =>
    have ids' := map_rename ids calls
    rw [valueOf, hom.pipeline, NodeKind.rename, valueOf, ids',
      values base (by simp [NodeKind.valueOperands])]
  | conditional condition thenDo elseDo =>
    simp [NodeKind.rename, valueOf, hom.conditional,
      values condition (by simp [NodeKind.valueOperands, NodeKind.operands]),
      values thenDo (by simp [NodeKind.valueOperands, NodeKind.operands]),
      values elseDo (by simp [NodeKind.valueOperands, NodeKind.operands])]

theorem callOf_rename
    (values : ∀ id ∈ kind.valueOperands, value' (f id) = hom.onValue (value id)) :
    backend'.callOf value' (kind.rename f) = hom.onCall (backend.callOf value kind) := by
  cases kind with
  | call space name arguments =>
    rw [callOf, hom.call, NodeKind.rename, callOf, hom.entries_rename values]
  | _ => simp [NodeKind.rename, callOf, hom.call]

end Backend.Hom

namespace Graph

variable {graph graph' : Graph} {settle : Node → ε → ε} {settle' : Node → ε' → ε'}

/-- Whether all is in place below a node for what becomes of it to go along. -/
structure Settled (f : NodeId → NodeId) (hom : backend.Hom backend' relabel)
    (settle : Node → ε → ε) (settle' : Node → ε' → ε') (node : Node) : Prop where
  fixed : ∀ name, node.kind.variableName? = some name → relabel name = name
  settled : ∀ body, settle' (node.rename f) (hom.onValue body) = hom.onValue (settle node body)

/-- Whether what a node is to its users goes along. -/
structure Follows (f : NodeId → NodeId) (graph graph' : Graph) (hom : backend.Hom backend' relabel)
    (settle : Node → ε → ε) (settle' : Node → ε' → ε') (id : NodeId) : Prop where
  value : graph'.image backend' settle' (f id) = hom.onValue (graph.image backend settle id)
  call : graph'.callImage backend' settle' (f id) = hom.onCall (graph.callImage backend settle id)

namespace Renamed

variable (renamed : Renamed f graph graph') {hom : backend.Hom backend' relabel}

include renamed

omit renamed in
theorem body_of_operands {node : Node}
    (operands : ∀ id ∈ node.kind.operands, Follows f graph graph' hom settle settle' id)
    (own : Settled f hom settle settle' node) :
    graph'.body backend' settle' (node.rename f) = hom.onValue (graph.body backend settle node) :=
  hom.valueOf_rename
    (fun id member => (operands id (NodeKind.mem_operands.2 (Or.inl member))).value)
    (fun id member => (operands id (NodeKind.mem_operands.2 (Or.inr member))).call) own.fixed

theorem follows {root : Node} (inside : root ∈ graph.nodes)
    (below : ∀ node ∈ graph.postorder root.id, Settled f hom settle settle' node) :
    Follows f graph graph' hom settle settle' root.id := by
  revert below
  refine renamed.wf.induction (motive := fun id =>
    (∀ node ∈ graph.postorder id, Settled f hom settle settle' node) →
      Follows f graph graph' hom settle settle' id) ?_ inside
  intro node inside ih below
  rw [renamed.wf.postorder_eq inside] at below
  have own := below node (List.mem_append_right _ (List.mem_singleton_self _))
  have operands : ∀ id ∈ node.kind.operands, Follows f graph graph' hom settle settle' id :=
    fun id isOperand => ih id isOperand fun other met =>
      below other (List.mem_append_left _ (List.mem_flatMap.2 ⟨id, isOperand, met⟩))
  constructor
  · have image' : graph'.image backend' settle' (f node.id) =
        settle' (node.rename f) (graph'.body backend' settle' (node.rename f)) :=
      renamed.wf'.image_eq (renamed.mem inside)
    rw [image', renamed.wf.image_eq inside, ← own.settled, body_of_operands operands own]
  · have callImage' : graph'.callImage backend' settle' (f node.id) =
        backend'.callOf (graph'.image backend' settle') (node.kind.rename f) :=
      renamed.wf'.callImage_eq (renamed.mem inside)
    rw [callImage', renamed.wf.callImage_eq inside]
    exact hom.callOf_rename fun id member =>
      (operands id (NodeKind.mem_operands.2 (Or.inl member))).value

theorem body {root : Node} (inside : root ∈ graph.nodes)
    (below : ∀ node ∈ graph.postorder root.id, Settled f hom settle settle' node) :
    graph'.body backend' settle' (root.rename f) =
      hom.onValue (graph.body backend settle root) := by
  rw [renamed.wf.postorder_eq inside] at below
  refine body_of_operands ?_ (below root (List.mem_append_right _ (List.mem_singleton_self _)))
  intro id isOperand
  obtain ⟨operand, operandInside, rfl⟩ := renamed.wf.operand inside isOperand
  exact renamed.follows operandInside fun other met =>
    below other (List.mem_append_left _ (List.mem_flatMap.2 ⟨_, isOperand, met⟩))

end Renamed

namespace SideBySide

variable {rest : List NodeId} {last : NodeId} {bindings : Bindings} {options options' : Options}
  {outline : Outline}
  (both : SideBySide f graph graph' (rest ++ [last]) bindings options options' relabel)

include both

theorem settled (hom : backend.Hom backend' relabel) {node : Node}
    (member : node ∈ graph.reach (rest ++ [last])) :
    Settled f hom ((graph.planOf rest last options).settle backend)
      (((graph.planOf rest last options).rename f options').settle backend') node := by
  have inside := both.reach_subset node member
  constructor
  · intro name isVariable
    refine both.given (List.mem_append_left _ (List.mem_append_left _ ?_))
    rw [variableNames, ← both.wf.freeVariables_reach, freeVariables_eq, List.mem_eraseDups,
      List.mem_filterMap]
    exact ⟨node, member, isVariable⟩
  · intro body
    rw [Plan.settle, Plan.settle, both.hoists both.known inside]
    split
    · rename_i hoists
      have planned : node ∈ graph.plannedNodes (rest ++ [last]) := by
        rw [plannedNodes_concat]
        exact both.wf.mem_statementNodes.2 (Or.inl ((both.wf.hoists_iff member).1 hoists))
      rw [hom.reference]
      exact congrArg _ (both.statementName planned)
    · rfl

theorem bindings_follow (hom : backend.Hom backend' relabel) {bound : Entries Constant}
    (given : ∀ name ∈ bound.keys, name ∈ graph.givenNames (rest ++ [last]) bindings options) :
    bindingStatements backend' bound =
      (bindingStatements backend bound).map fun statement =>
        ⟨relabel statement.name, hom.onValue statement.body⟩ := by
  rw [bindingStatements, bindingStatements, List.map_map]
  refine List.map_congr_left fun entry member => ?_
  simp [both.given (given entry.1 (List.mem_map_of_mem member)), hom.constant]

theorem statement_follows (hom : backend.Hom backend' relabel) {node : Node}
    (reached : node ∈ graph.reach (rest ++ [last]))
    (isPlanned : node ∈ graph.plannedNodes (rest ++ [last])) :
    statementOf backend' graph' ((graph.planOf rest last options).rename f options')
        (node.rename f) =
      ⟨relabel (Extraction.statementName options node), hom.onValue
        (graph.body backend ((graph.planOf rest last options).settle backend) node)⟩ := by
  refine congrArg₂ Statement.mk (both.statementName isPlanned) ?_
  exact both.body (both.reach_subset node reached) fun other met =>
    both.settled hom (both.wf.mem_reach_below reached met)

theorem render (hom : backend.Hom backend' relabel)
    (outlines : graph.Outlines rest last bindings options outline) :
    Outline.render ⟨outline.plan.rename f options', outline.bound,
        outline.hoisted.map (Node.rename f)⟩ backend' graph' (f last) =
      (outline.render backend graph last).relabel relabel hom.onValue := by
  obtain ⟨plan, bound, hoisted⟩ := outline
  obtain rfl := outlines.plan
  have given : ∀ name ∈ Entries.keys bound,
      name ∈ graph.givenNames (rest ++ [last]) bindings options := by
    intro name listed
    rw [outlines.names, both.wf.freeVariables_reach] at listed
    exact List.mem_append_left _ listed
  have nodesFollow : (hoisted.map (Node.rename f)).map
      (statementOf backend' graph' ((graph.planOf rest last options).rename f options')) =
      (hoisted.map (statementOf backend graph (graph.planOf rest last options))).map
        fun statement => ⟨relabel statement.name, hom.onValue statement.body⟩ := by
    rw [List.map_map, List.map_map]
    refine List.map_congr_left fun node member => ?_
    have isPlanned : node ∈ graph.plannedNodes (rest ++ [last]) := by
      rw [plannedNodes_concat, ← outlines.hoisted_eq both.wf]
      exact member
    exact both.statement_follows hom (outlines.reached node member) isPlanned
  obtain ⟨root, inside, rfl, _⟩ := outlines.renderable last (by simp)
  have final := (both.follows inside fun other met =>
    both.settled hom (both.wf.mem_reach_of_postorder (by simp) met)).value
  rw [Outline.render, Outline.render, Rendering.relabel, both.bindings_follow hom given, nodesFollow,
    final, List.map_append]

theorem extract (hom : backend.Hom backend' relabel) :
    Outcome.Alike (RenderError.Matches (graph.Counterparts graph'))
      (fun rendering rendering' => rendering' = rendering.relabel relabel hom.onValue)
      (graph.extract backend (rest ++ [last]) bindings options)
      (graph'.extract backend' ((rest ++ [last]).map f) bindings options') := by
  rw [List.map_append, List.map_singleton, both.wf.extract_eq, both.wf'.extract_eq]
  refine (both.outline.mono (fun _ _ _ related => related) fun _ _ outlined related =>
    And.intro (both.wf.outline_ok outlined) related.2).map ?_
  rintro outline _ ⟨outlines, rfl⟩
  exact both.render hom outlines

theorem serialize : Outcome.Alike (RenderError.Matches (graph.Counterparts graph'))
    (fun query query' => query' = query.relabel relabel)
    (graph.serialize (rest ++ [last]) bindings options)
    (graph'.serialize ((rest ++ [last]).map f) bindings options') := by
  refine (both.extract (Backend.relabelTree relabel)).bind ?_
  rintro rendering _ rfl
  exact .ok rfl

section

variable (named : ∀ node ∈ graph.plannedNodes (rest ++ [last]), node.name ≠ none)

include named

theorem extract_of_named (backend : Backend ε κ) :
    Outcome.Alike (RenderError.Matches (graph.Counterparts graph')) Eq
      (graph.extract backend (rest ++ [last]) bindings options)
      (graph'.extract backend ((rest ++ [last]).map f) bindings options') := by
  have relabel_eq : relabel = id := by
    funext name
    apply both.relabels.others
    rintro ⟨node, planned, unnamed, _⟩
    exact named node planned unnamed
  subst relabel_eq
  refine (both.extract (Backend.Hom.refl backend)).mono (fun _ _ _ related => related) ?_
  rintro ⟨statements, final⟩ _ _ rfl
  simp [Rendering.relabel, Backend.Hom.refl]

theorem serialize_of_named : Outcome.Alike (RenderError.Matches (graph.Counterparts graph')) Eq
    (graph.serialize (rest ++ [last]) bindings options)
    (graph'.serialize ((rest ++ [last]).map f) bindings options') := by
  refine (both.extract_of_named named Backend.tree).bind ?_
  rintro rendering _ rfl
  exact .ok rfl

theorem print_of_named : Outcome.Alike (RenderError.Matches (graph.Counterparts graph')) Eq
    (graph.print (rest ++ [last]) bindings options)
    (graph'.print ((rest ++ [last]).map f) bindings options') := by
  refine (both.extract_of_named named Backend.text).bind ?_
  rintro rendering _ rfl
  exact .ok rfl

end

end SideBySide

end Graph

end QueryGraph
