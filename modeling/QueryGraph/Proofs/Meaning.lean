import QueryGraph.Proofs.References

namespace QueryGraph

open Extraction

mutual

/-- Puts in the place of every reference what the environment has under its name. -/
def Expr.expand (env : Entries Expr) : Expr → Expr
  | .atom value => .atom value
  | .binary left op right => .binary (left.expand env) op (right.expand env)
  | .lookup on property => .lookup (on.expand env) property
  | .list values => .list (expandList env values)
  | .dict values => .dict (expandEntries env values)
  | .table inner => .table (inner.expand env)
  | .reference name => (env.find? name).getD (.reference name)
  | .placeholder => .placeholder
  | .call call => .call (call.expand env)
  | .pipeline base steps => .pipeline (base.expand env) (expandCalls env steps)
  | .conditional condition thenDo elseDo =>
    .conditional (condition.expand env) (thenDo.expand env) (elseDo.expand env)

def expandList (env : Entries Expr) : List Expr → List Expr
  | [] => []
  | expr :: rest => expr.expand env :: expandList env rest

def expandEntries (env : Entries Expr) : List (String × Expr) → List (String × Expr)
  | [] => []
  | (key, expr) :: rest => (key, expr.expand env) :: expandEntries env rest

def expandOperand (env : Entries Expr) : Option Expr → Option Expr
  | none => none
  | some expr => some (expr.expand env)

def Call.expand (env : Entries Expr) : Call → Call
  | { operand, space, name, arguments } =>
    { operand := expandOperand env operand, space, name, arguments := expandEntries env arguments }

def expandCalls (env : Entries Expr) : List Call → List Call
  | [] => []
  | call :: rest => call.expand env :: expandCalls env rest

end

/-- The bodies of statements, from first to last, each expanded by those before it. -/
def expandStatements (statements : List (Statement Expr)) : Entries Expr :=
  statements.foldl
    (fun env statement => env ++ [(statement.name, statement.body.expand env)]) []

/-- The final expression with every statement put in place. -/
def Query.expanded (query : Query) : Expr :=
  query.final.expand (expandStatements query.statements)

theorem expandList_eq (env : Entries Expr) (values : List Expr) :
    expandList env values = values.map (·.expand env) := by
  induction values with
  | nil => rfl
  | cons expr rest ih => rw [expandList, ih, List.map_cons]

theorem expandEntries_eq (env : Entries Expr) (entries : List (String × Expr)) :
    expandEntries env entries = entries.map fun entry => (entry.1, entry.2.expand env) := by
  induction entries with
  | nil => rfl
  | cons entry rest ih => rw [expandEntries, ih, List.map_cons]

theorem expandEntries_ofList {env : Entries Expr} {pairs : Entries NodeId}
    {value value' : NodeId → Expr} (distinct : pairs.keys.Nodup)
    (h : ∀ pair ∈ pairs, (value pair.2).expand env = value' pair.2) :
    expandEntries env (Entries.ofList (pairs.map fun pair => (pair.1, value pair.2))) =
      Entries.ofList (pairs.map fun pair => (pair.1, value' pair.2)) := by
  rw [Entries.ofList_map distinct, Entries.ofList_map distinct, expandEntries_eq, List.map_map]
  apply List.map_congr_left
  intro pair member
  exact congrArg (Prod.mk pair.1) (h pair member)

theorem expandCalls_eq (env : Entries Expr) (calls : List Call) :
    expandCalls env calls = calls.map (·.expand env) := by
  induction calls with
  | nil => rfl
  | cons call rest ih => rw [expandCalls, ih, List.map_cons]

theorem expandStatements_concat (statements : List (Statement Expr)) (statement : Statement Expr) :
    expandStatements (statements ++ [statement]) = expandStatements statements ++
      [(statement.name, statement.body.expand (expandStatements statements))] := by
  rw [expandStatements, List.foldl_append]
  rfl

/-- The back end for trees without references: variables are their constants. -/
def Backend.plain (bindings : Bindings) : Backend Expr Call :=
  { Backend.tree with
    reference := fun name => ((bindings.get? name).map Expr.atom).getD (.reference name) }

/-- The graph written out from a node. -/
def Graph.unfolding (graph : Graph) (bindings : Bindings) : NodeId → Expr :=
  graph.image (Backend.plain bindings) fun _ body => body

/-- Written out from a node, the graph is what the back end makes of the node and of the graph
written out from its operands. -/
theorem Graph.WellFormed.unfolding_eq {graph : Graph} (wf : graph.WellFormed) (bindings : Bindings)
    {node : Node} (inside : node ∈ graph.nodes) : graph.unfolding bindings node.id =
      graph.body (Backend.plain bindings) (fun _ body => body) node :=
  wf.image_eq inside

theorem expand_agree {bindings : Bindings} {env : Entries Expr} {kind : NodeKind}
    (distinct : kind.entryKeys.Nodup)
    (constants : ∀ name, kind.variableName? = some name →
      ∃ value, bindings.get? name = some value ∧ env.find? name = some (.atom value)) :
    Backend.tree.Agree (Backend.plain bindings) (fun expr plain => expr.expand env = plain)
      (fun call plain => call.expand env = plain) kind := by
  constructor
  · intro isValue value value' call call' values calls
    cases kind with
    | constant constant => rfl
    | placeholder => rfl
    | call space name arguments => cases isValue
    | «variable» name =>
      obtain ⟨constant, bound, found⟩ := constants name rfl
      simp [Backend.valueOf, Backend.tree, Backend.plain, Expr.expand, found, bound]
    | binary left op right =>
      have left' := values left (by simp [NodeKind.valueOperands, NodeKind.operands])
      have right' := values right (by simp [NodeKind.valueOperands, NodeKind.operands])
      simp [Backend.valueOf, Backend.tree, Backend.plain, Expr.ofOperator, Expr.expand, left',
        right']
    | lookup on key =>
      have on' := values on (by simp [NodeKind.valueOperands, NodeKind.operands])
      simp [Backend.valueOf, Backend.tree, Backend.plain, Expr.expand, on']
    | table inner =>
      have inner' := values inner (by simp [NodeKind.valueOperands, NodeKind.operands])
      simp [Backend.valueOf, Backend.tree, Backend.plain, Expr.expand, inner']
    | list ids =>
      have ids' : ids.map (fun id => (value id).expand env) = ids.map value' :=
        List.map_congr_left values
      simpa [Backend.valueOf, Backend.tree, Backend.plain, Expr.expand, expandList_eq] using ids'
    | dict entries =>
      have entries' : expandEntries env (Entries.ofList (entries.map fun pair =>
          (pair.1, value pair.2))) = Entries.ofList (entries.map fun pair =>
            (pair.1, value' pair.2)) :=
        expandEntries_ofList distinct fun pair member =>
          values pair.2 (List.mem_map_of_mem member)
      simp [Backend.valueOf, Backend.tree, Backend.plain, Expr.expand, entries']
    | pipeline base steps =>
      have base' := values base List.mem_cons_self
      have steps' : steps.map (fun id => (call id).expand env) = steps.map call' :=
        List.map_congr_left calls
      simpa [Backend.valueOf, Backend.tree, Backend.plain, Expr.expand, expandCalls_eq, base']
        using steps'
    | conditional condition thenDo elseDo =>
      have condition' := values condition (by simp [NodeKind.valueOperands, NodeKind.operands])
      have thenDo' := values thenDo (by simp [NodeKind.valueOperands, NodeKind.operands])
      have elseDo' := values elseDo (by simp [NodeKind.valueOperands, NodeKind.operands])
      simp [Backend.valueOf, Backend.tree, Backend.plain, Expr.expand, condition', thenDo', elseDo']
  · intro isCall value value' values
    cases kind with
    | call space name arguments =>
      have arguments' : expandEntries env (Entries.ofList (arguments.map fun pair =>
          (pair.1, value pair.2))) = Entries.ofList (arguments.map fun pair =>
            (pair.1, value' pair.2)) :=
        expandEntries_ofList distinct fun pair member =>
          values pair.2 (List.mem_map_of_mem member)
      simp [Backend.callOf, Backend.tree, Backend.plain, Call.expand, expandOperand, arguments']
    | _ => cases isCall

namespace Extraction

variable {graph : Graph} {plan : Plan} {bindings : Bindings} {bound : Entries Constant}

theorem settle_expand {env : Entries Expr} {node : Node} {body plain : Expr}
    (known : plan.hoists node = true →
      env.find? (statementName plan.options node) = some plain)
    (same : body.expand env = plain) :
    (plan.settle Backend.tree node body).expand env = plain := by
  unfold Plan.settle
  split
  · rename_i hoists
    simp [Backend.tree, Expr.expand, known hoists]
  · exact same

/-- What the names of statements stand for: their constants, or the graph written out from their
nodes. -/
def environment (graph : Graph) (plan : Plan) (bindings : Bindings) (bound : Entries Constant)
    (hoisted : List Node) : Entries Expr :=
  bound.map (fun entry => (entry.1, Expr.atom entry.2)) ++
    hoisted.map fun node => (statementName plan.options node, graph.unfolding bindings node.id)

/-- Whether no name stands for two things in the environment of some statements, and those of the
variables stand for what they are bound to. -/
structure Faithful (plan : Plan) (bindings : Bindings) (bound : Entries Constant)
    (hoisted : List Node) : Prop where
  distinct : (Entries.keys bound ++ plan.names hoisted).Nodup
  constants : ∀ entry ∈ bound, bindings.get? entry.1 = some entry.2

namespace Faithful

variable {hoisted : List Node}

theorem nodup_environment (faithful : Faithful plan bindings bound hoisted) :
    (Entries.keys (environment graph plan bindings bound hoisted)).Nodup := by
  simpa [environment, Entries.keys, Plan.names, Function.comp_def] using faithful.distinct

theorem find?_node (faithful : Faithful plan bindings bound hoisted) {node : Node}
    (member : node ∈ hoisted) :
    (environment graph plan bindings bound hoisted).find? (statementName plan.options node) =
      some (graph.unfolding bindings node.id) := by
  refine List.lookup_of_mem faithful.nodup_environment ?_
  exact List.mem_append_right _ (List.mem_map.2 ⟨node, member, rfl⟩)

theorem find?_variable (faithful : Faithful plan bindings bound hoisted) {name : String}
    (isBound : name ∈ Entries.keys bound) : ∃ value, bindings.get? name = some value ∧
      (environment graph plan bindings bound hoisted).find? name = some (.atom value) := by
  obtain ⟨entry, member, rfl⟩ := List.mem_map.1 isBound
  refine ⟨entry.2, faithful.constants entry member, ?_⟩
  refine List.lookup_of_mem faithful.nodup_environment ?_
  exact List.mem_append_left _ (List.mem_map.2 ⟨entry, member, rfl⟩)

theorem agree (faithful : Faithful plan bindings bound hoisted) (wf : graph.WellFormed)
    {node : Node} (inside : node ∈ graph.nodes)
    (isBound : ∀ name, node.kind.variableName? = some name → name ∈ Entries.keys bound) :
    Backend.tree.Agree (Backend.plain bindings)
      (fun expr plain =>
        expr.expand (environment graph plan bindings bound hoisted) = plain)
      (fun call plain =>
        call.expand (environment graph plan bindings bound hoisted) = plain) node.kind :=
  expand_agree (wf.spelled node inside).distinct fun name isVariable =>
    faithful.find?_variable (isBound name isVariable)

theorem settled (faithful : Faithful plan bindings bound hoisted) (wf : graph.WellFormed)
    {node : Node} (inside : node ∈ graph.nodes)
    (known : plan.hoists node = true → node ∈ hoisted) {body : Expr}
    (same : body.expand (environment graph plan bindings bound hoisted) =
      graph.body (Backend.plain bindings) (fun _ body => body) node) :
    (plan.settle Backend.tree node body).expand
        (environment graph plan bindings bound hoisted) =
      graph.body (Backend.plain bindings) (fun _ body => body) node := by
  refine settle_expand (fun hoists => ?_) same
  rw [faithful.find?_node (known hoists), wf.unfolding_eq bindings inside]

end Faithful

theorem expandStatements_bindings (bound : Entries Constant) :
    expandStatements (bindingStatements Backend.tree bound) =
      bound.map fun entry => (entry.1, Expr.atom entry.2) := by
  induction bound using List.reverseRecOn with
  | nil => rfl
  | append_singleton bound entry ih =>
    have last : bindingStatements Backend.tree (bound ++ [entry]) =
        bindingStatements Backend.tree bound ++ [⟨entry.1, .atom entry.2⟩] := by
      simp [bindingStatements, Backend.tree]
    rw [last, expandStatements_concat, ih, List.map_append]
    rfl

/-- The body of a statement is expanded to the graph written out from its node by the statements
before it. -/
theorem Plan.Admitted.expandStatements {hoisted : List Node}
    (admitted : plan.Admitted graph (Entries.keys bound) hoisted) (wf : graph.WellFormed)
    (distinct : (Entries.keys bound).Nodup)
    (constants : ∀ entry ∈ bound, bindings.get? entry.1 = some entry.2)
    (boundAll : ∀ node ∈ hoisted, ∀ other ∈ graph.postorder node.id, ∀ name,
      other.kind.variableName? = some name → name ∈ Entries.keys bound) :
    QueryGraph.expandStatements (bindingStatements Backend.tree bound ++
        hoisted.map (statementOf Backend.tree graph plan)) =
      environment graph plan bindings bound hoisted := by
  induction admitted with
  | nil => simp [environment, expandStatements_bindings]
  | @snoc hoisted node before inside isValue fresh below ih =>
    have earlier := ih fun node member => boundAll node (List.mem_append_left _ member)
    have faithful : Faithful plan bindings bound hoisted := ⟨before.nodup distinct, constants⟩
    have last : (statementOf Backend.tree graph plan node).body.expand
        (environment graph plan bindings bound hoisted) = graph.unfolding bindings node.id := by
      rw [wf.unfolding_eq bindings inside]
      refine wf.body_agree _ inside isValue
        (fun other met => faithful.agree wf ((wf.mem_postorder inside).1 met).1
          (boundAll node (by simp) other met)) ?_
      intro id isOperand other met _ same
      obtain ⟨operand, operandInside, rfl⟩ := wf.operand inside isOperand
      exact faithful.settled wf ((wf.mem_postorder operandInside).1 met).1
        (below operand.id isOperand other met) same
    rw [List.map_append, ← List.append_assoc, List.map_singleton, expandStatements_concat,
      earlier, last]
    simp [environment, statementOf]

end Extraction

namespace Graph

variable {graph : Graph} {rest : List NodeId} {last : NodeId} {bindings : Bindings}
  {options : Options}

/-- The final expression of a query means what the last root means. Every other root has a
statement under its name or its label, and what this means is what the root means. -/
theorem Built.serialize_meaning (built : graph.Built) {query : Query}
    (serialized : graph.serialize (rest ++ [last]) bindings options = .ok query) :
    query.expanded = graph.unfolding bindings last ∧
    ∀ root ∈ rest, ∃ node before statement after, graph.find? root = some node ∧
      query.statements = before ++ statement :: after ∧
      statement.name = statementName options node ∧
      statement.body.expand (expandStatements before) = graph.unfolding bindings root := by
  have wf := built.wellFormed
  obtain ⟨rendering, rendered, h⟩ := Outcome.bind_eq_ok.1 serialized
  cases h
  rw [wf.extract_eq] at rendered
  obtain ⟨outline, h, rfl⟩ := Outcome.map_eq_ok.1 rendered
  have outlines := wf.outline_ok h
  have boundAll (node : Node) (member : node ∈ graph.reach (rest ++ [last])) (other : Node)
      (met : other ∈ graph.postorder node.id) (name : String)
      (isVariable : other.kind.variableName? = some name) : name ∈ Entries.keys outline.bound :=
    outlines.bound_of_variable (wf.mem_reach_below member met) isVariable
  have distinct := (List.nodup_append.1 outlines.distinct).1
  constructor
  · have statements := outlines.admitted.expandStatements wf distinct outlines.constants
      fun node member => boundAll node (outlines.reached node member)
    have faithful : Faithful outline.plan bindings outline.bound outline.hoisted :=
      ⟨outlines.distinct, outlines.constants⟩
    obtain ⟨root, inside, rfl, isValue, _⟩ := outlines.renderable last (by simp)
    have met : root ∈ graph.postorder root.id := (wf.mem_postorder inside).2 ⟨inside, .refl _⟩
    have reached : root ∈ graph.reach (rest ++ [root.id]) :=
      wf.mem_reach_of_postorder (by simp) met
    rw [Query.expanded]
    show Expr.expand (expandStatements (outline.render Backend.tree graph root.id).statements) _ = _
    rw [Outline.render, statements]
    refine (wf.images_agree _ inside (fun other met => faithful.agree wf
      ((wf.mem_postorder inside).1 met).1 (boundAll root reached other met)) ?_).value isValue
    intro other met _ same
    exact faithful.settled wf ((wf.mem_postorder inside).1 met).1
      (outlines.settled other (wf.mem_reach_below reached met)) same
  · intro root isRoot
    obtain ⟨node, inside, rfl, isValue, _⟩ :=
      outlines.renderable root (List.mem_append_left _ isRoot)
    have found := wf.find?_eq_some.2 ⟨inside, rfl⟩
    have isHoisted : node ∈ outline.hoisted := by
      rw [outlines.order, List.mem_eraseDups, List.mem_append, List.mem_flatMap]
      refine Or.inl ⟨node.id, isRoot, List.mem_append_right _ ?_⟩
      simp [found]
    obtain ⟨before, after, parts⟩ := List.append_of_mem isHoisted
    have admitted := outlines.admitted
    rw [parts, List.append_cons] at admitted
    have upTo (hoisted others : List Node) (whole : outline.hoisted = hoisted ++ others)
        (admitted : outline.plan.Admitted graph (Entries.keys outline.bound) hoisted) :
        expandStatements (bindingStatements Backend.tree outline.bound ++
            hoisted.map (statementOf Backend.tree graph outline.plan)) =
          environment graph outline.plan bindings outline.bound hoisted :=
      admitted.expandStatements wf distinct outlines.constants
        fun node member => boundAll node (outlines.reached node
          (whole ▸ List.mem_append_left _ member))
    have through := upTo (before ++ [node]) after (by rw [parts, List.append_cons])
      admitted.of_append
    have earlier := upTo before (node :: after) parts admitted.of_append.of_append
    rw [List.map_append, ← List.append_assoc, List.map_singleton, expandStatements_concat,
      earlier, environment, environment, List.map_append, ← List.append_assoc] at through
    obtain ⟨_, same⟩ := List.append_inj' through rfl
    have expanded := congrArg Prod.snd (List.singleton_inj.1 same)
    refine ⟨node, bindingStatements Backend.tree outline.bound ++
      before.map (statementOf Backend.tree graph outline.plan),
      statementOf Backend.tree graph outline.plan node,
      after.map (statementOf Backend.tree graph outline.plan), found, ?_, ?_, ?_⟩
    · simp [Outline.render, parts]
    · rw [statementOf, outlines.plan]
      rfl
    · rw [earlier]
      exact expanded

theorem sample_serialize_meaning : ∃ query : Query,
    sample.serialize ([8, 1] ++ [9]) (.ofList [("rows", .bool true)]) .standard = .ok query ∧
    query.expanded = sample.unfolding (.ofList [("rows", .bool true)]) 9 ∧
    ∃ node before statement after, sample.find? 8 = some node ∧
      query.statements = before ++ statement :: after ∧
      statement.name = statementName .standard node ∧
      statement.body.expand (expandStatements before) =
        sample.unfolding (.ofList [("rows", .bool true)]) 8 :=
  have ⟨query, serialized⟩ : ∃ query, sample.serialize ([8, 1] ++ [9])
      (.ofList [("rows", .bool true)]) .standard = .ok query := ⟨_, rfl⟩
  have ⟨final, others⟩ := built_sample.serialize_meaning serialized
  ⟨query, serialized, final, others 8 (by decide)⟩

end Graph

end QueryGraph
