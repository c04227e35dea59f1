import QueryGraph.Proofs.Outcome
import QueryGraph.Render.Extraction

namespace QueryGraph

open Extraction

variable {ε κ ε' κ' : Type}

/-- A map between back ends that goes along with their operations; references may be renamed on
the way. -/
structure Backend.Hom (backend : Backend ε κ) (backend' : Backend ε' κ')
    (rename : String → String) where
  onValue : ε → ε'
  onCall : κ → κ'
  constant : ∀ value, onValue (backend.constant value) = backend'.constant value
  binary : ∀ op left right, onValue (backend.binary op left right) =
    backend'.binary op (onValue left) (onValue right)
  lookup : ∀ on key, onValue (backend.lookup on key) = backend'.lookup (onValue on) key
  list : ∀ values, onValue (backend.list values) = backend'.list (values.map onValue)
  dict : ∀ entries, onValue (backend.dict entries) =
    backend'.dict (entries.map fun entry => (entry.1, onValue entry.2))
  table : ∀ inner, onValue (backend.table inner) = backend'.table (onValue inner)
  reference : ∀ name, onValue (backend.reference name) = backend'.reference (rename name)
  placeholder : onValue backend.placeholder = backend'.placeholder
  call : ∀ space name arguments, onCall (backend.call space name arguments) =
    backend'.call space name (arguments.map fun entry => (entry.1, onValue entry.2))
  pipeline : ∀ base steps, onValue (backend.pipeline base steps) =
    backend'.pipeline (onValue base) (steps.map onCall)
  conditional : ∀ condition thenDo elseDo,
    onValue (backend.conditional condition thenDo elseDo) =
      backend'.conditional (onValue condition) (onValue thenDo) (onValue elseDo)

def Rendered.map (f : ε → ε') (g : κ → κ') : Rendered ε κ → Rendered ε' κ'
  | .value expr => .value (f expr)
  | .call step => .call (g step)

def Statement.map (f : ε → ε') (statement : Statement ε) : Statement ε' :=
  ⟨statement.name, f statement.body⟩

def Rendering.map (f : ε → ε') (rendering : Rendering ε) : Rendering ε' :=
  ⟨rendering.statements.map (Statement.map f), f rendering.final⟩

def Extraction.State.map (f : ε → ε') (state : State ε) : State ε' :=
  ⟨state.statements.map (Statement.map f), state.hoisted⟩

def Traversal.map (f : ε → ε') (g : κ → κ') (traversal : Traversal ε κ (State ε)) :
    Traversal ε' κ' (State ε') where
  done := traversal.done
  results := traversal.results.map fun result => (result.1, result.2.map f g)
  state := traversal.state.map f

namespace Backend.Hom

variable {backend : Backend ε κ} {backend' : Backend ε' κ'} (hom : Hom backend backend' id)

theorem entries_map (f : ε → ε') {value : NodeId → Except RenderError ε}
    {value' : NodeId → Except RenderError ε'} (values : ∀ id, value' id = (value id).map f)
    (pairs : List (String × NodeId)) : Backend.entries value' pairs =
      (Backend.entries value pairs).map (List.map fun entry => (entry.1, f entry.2)) := by
  induction pairs with
  | nil => rfl
  | cons first rest ih =>
    rw [Backend.entries, Backend.entries, values, ih]
    exact Outcome.bind_step fun _ => Outcome.bind_step fun _ => rfl

theorem node_map {value : NodeId → Except RenderError ε} {call : NodeId → Except RenderError κ}
    {value' : NodeId → Except RenderError ε'} {call' : NodeId → Except RenderError κ'}
    (values : ∀ id, value' id = (value id).map hom.onValue)
    (calls : ∀ id, call' id = (call id).map hom.onCall) (kind : NodeKind) :
    backend'.node value' call' kind =
      (backend.node value call kind).map (Rendered.map hom.onValue hom.onCall) := by
  cases kind with
  | constant constant => simp [Backend.node, Rendered.map, hom.constant]
  | «variable» name => simp [Backend.node, Rendered.map, hom.reference]
  | placeholder => simp [Backend.node, Rendered.map, hom.placeholder]
  | binary left op right =>
    simp only [Backend.node, values]
    exact Outcome.bind_step fun _ => Outcome.bind_step fun _ => by
      simp [Rendered.map, hom.binary]
  | lookup on key =>
    simp only [Backend.node, values]
    exact Outcome.bind_step fun _ => by simp [Rendered.map, hom.lookup]
  | list ids =>
    simp only [Backend.node, Outcome.mapM_step values]
    exact Outcome.bind_step fun _ => by simp [Rendered.map, hom.list]
  | dict pairs =>
    simp only [Backend.node, entries_map hom.onValue values]
    exact Outcome.bind_step fun _ => by simp [Rendered.map, hom.dict]
  | table inner =>
    simp only [Backend.node, values]
    exact Outcome.bind_step fun _ => by simp [Rendered.map, hom.table]
  | call space name arguments =>
    simp only [Backend.node, entries_map hom.onValue values]
    exact Outcome.bind_step fun _ => by simp [Rendered.map, hom.call]
  | pipeline base steps =>
    simp only [Backend.node, values, Outcome.mapM_step calls]
    exact Outcome.bind_step fun _ => Outcome.bind_step fun _ => by
      simp [Rendered.map, hom.pipeline]
  | conditional condition thenDo elseDo =>
    simp only [Backend.node, values]
    exact Outcome.bind_step fun _ => Outcome.bind_step fun _ => Outcome.bind_step fun _ => by
      simp [Rendered.map, hom.conditional]

theorem lookup_map (f : ε → ε') (g : κ → κ') (results : Results ε κ) (id : NodeId) :
    (results.map fun result => (result.1, result.2.map f g)).lookup id =
      (results.lookup id).map (Rendered.map f g) := by
  induction results with
  | nil => rfl
  | cons first rest ih =>
    rw [List.map_cons, List.lookup_cons, List.lookup_cons]
    split
    · rfl
    · exact ih

variable {graph : Graph} {plan : Plan}

theorem value_map (traversal : Traversal ε κ (State ε)) (id : NodeId) :
    (traversal.map hom.onValue hom.onCall).value graph id =
      (traversal.value graph id).map hom.onValue := by
  unfold Traversal.value Traversal.cached Traversal.map
  rw [lookup_map]
  cases traversal.results.lookup id with
  | none => rfl
  | some rendered => cases rendered <;> rfl

theorem call_map (traversal : Traversal ε κ (State ε)) (id : NodeId) :
    (traversal.map hom.onValue hom.onCall).call graph id =
      (traversal.call graph id).map hom.onCall := by
  unfold Traversal.call Traversal.cachedCall Traversal.map
  rw [lookup_map]
  cases traversal.results.lookup id with
  | none => rfl
  | some rendered => cases rendered <;> rfl

theorem push_map (f : ε → ε') (state : State ε) (statement : Statement ε) :
    (state.map f).push (statement.map f) = (state.push statement).map (State.map f) := by
  have known : ((state.map f).statements.any fun other => other.name == statement.name) =
      state.statements.any fun other => other.name == statement.name := by
    simp [State.map, Statement.map, List.any_map, Function.comp_def]
  unfold State.push
  rw [Statement.map, known]
  split
  · rfl
  · simp [State.map, Statement.map]

theorem hoist_map (state : State ε) (node : Node) (body : ε) :
    hoist backend' plan (state.map hom.onValue) node (hom.onValue body) =
      (hoist backend plan state node body).map (Prod.map hom.onValue (State.map hom.onValue)) := by
  have pushed := push_map hom.onValue state ⟨statementName plan.options node, body⟩
  simp only [Statement.map] at pushed
  simp only [hoist, pushed]
  exact Outcome.bind_step fun _ => by simp [State.map, hom.reference]

theorem finish_map (plan : Plan) (state : State ε) (node : Node) (body : ε) :
    finish backend' plan (state.map hom.onValue) node (hom.onValue body) =
      (finish backend plan state node body).map
        (Prod.map hom.onValue (State.map hom.onValue)) := by
  unfold finish
  split
  · rfl
  · split
    · cases node.name <;> rfl
    · exact hom.hoist_map state node body

theorem complete_map (traversal : Traversal ε κ (State ε)) (node : Node) :
    (traversal.map hom.onValue hom.onCall).complete backend' (finish backend' plan) graph node =
      (traversal.complete backend (finish backend plan) graph node).map
        (Traversal.map hom.onValue hom.onCall) := by
  unfold Traversal.complete
  rw [hom.node_map (hom.value_map traversal) (hom.call_map traversal)]
  refine Outcome.bind_step fun rendered => ?_
  cases rendered with
  | call call => simp [Rendered.map, Traversal.map]
  | value value =>
    have finished := hom.finish_map plan traversal.state node value
    simp only [Rendered.map, Traversal.map] at finished ⊢
    rw [finished]
    exact Outcome.bind_step fun _ => by simp [Traversal.map, Rendered.map]

theorem advance_map (traversal : Traversal ε κ (State ε)) (id : NodeId) :
    (traversal.map hom.onValue hom.onCall).advance backend' (finish backend' plan) graph id =
      (traversal.advance backend (finish backend plan) graph id).map
        (Traversal.map hom.onValue hom.onCall) :=
  Outcome.foldlM_step hom.complete_map traversal

theorem visit_map (traversal : Traversal ε κ (State ε)) (id : NodeId) :
    (traversal.map hom.onValue hom.onCall).visit backend' (finish backend' plan) graph id =
      (traversal.visit backend (finish backend plan) graph id).map
        (Prod.map hom.onValue (Traversal.map hom.onValue hom.onCall)) := by
  unfold Traversal.visit
  refine Outcome.then_step fun _ => ?_
  rw [hom.advance_map]
  refine Outcome.bind_step fun traversal => ?_
  rw [hom.value_map]
  exact Outcome.bind_step fun _ => rfl

theorem renderRoot_map (traversal : Traversal ε κ (State ε)) (root : NodeId) :
    renderRoot backend' graph plan (traversal.map hom.onValue hom.onCall) root =
      (renderRoot backend graph plan traversal root).map
        (Traversal.map hom.onValue hom.onCall) := by
  unfold renderRoot
  rw [hom.visit_map]
  refine Outcome.bind_step fun ⟨body, traversal⟩ => ?_
  cases graph.find? root with
  | none => rfl
  | some node =>
    simp only [Prod.map]
    have known : (traversal.map hom.onValue hom.onCall).state.hoisted = traversal.state.hoisted :=
      rfl
    rw [known]
    split
    · rfl
    · show (hoist backend' plan (traversal.state.map hom.onValue) node (hom.onValue body) >>= _) = _
      rw [hom.hoist_map]
      exact Outcome.bind_step fun _ => rfl

theorem boundVariables_map (bindings : Bindings) (free : List String) :
    boundVariables backend' bindings free =
      (boundVariables backend bindings free).map (List.map (Statement.map hom.onValue)) := by
  induction free with
  | nil => rfl
  | cons name rest ih =>
    unfold boundVariables
    cases bindings.get? name with
    | none => rfl
    | some value =>
      simp only [ih]
      exact Outcome.bind_step fun _ => by simp [Statement.map, hom.constant]

theorem unreferenced_map (bindings : Bindings) (free : List String) :
    unreferenced backend' bindings free =
      (unreferenced backend bindings free).map (Statement.map hom.onValue) := by
  simp [unreferenced, Statement.map, hom.constant, Function.comp_def]

end Backend.Hom

open Backend.Hom in
/-- Extraction goes along with a map between back ends. -/
theorem Graph.extract_map {backend : Backend ε κ} {backend' : Backend ε' κ'}
    (hom : backend.Hom backend' id) (graph : Graph) (roots : List NodeId) (bindings : Bindings)
    (options : Options) : graph.extract backend' roots bindings options =
      (graph.extract backend roots bindings options).map (Rendering.map hom.onValue) := by
  unfold Graph.extract
  cases roots.getLast? with
  | none => rfl
  | some last =>
    dsimp only
    refine Outcome.then_step fun _ => ?_
    rw [hom.boundVariables_map]
    refine Outcome.bind_step fun bound => ?_
    generalize freeVariables (graph.reach roots) = free
    have others : (if options.bindUnreferenced then unreferenced backend' bindings free else []) =
        (if options.bindUnreferenced then unreferenced backend bindings free else []).map
          (Statement.map hom.onValue) := by
      split
      · exact hom.unreferenced_map bindings free
      · rfl
    have start (first : List (Statement ε)) :
        Traversal.start ⟨first.map (Statement.map hom.onValue), []⟩ =
          (Traversal.start ⟨first, []⟩).map hom.onValue hom.onCall := rfl
    rw [others, ← List.map_append, start, Outcome.foldlM_step hom.renderRoot_map]
    refine Outcome.bind_step fun traversal => ?_
    rw [hom.visit_map]
    exact Outcome.bind_step fun _ => rfl

end QueryGraph
