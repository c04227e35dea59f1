import QueryGraph.Proofs.Homomorphisms
import QueryGraph.Render.Text
import QueryGraph.Render.Tree

namespace QueryGraph

mutual

/-- An expression in which operands stand where they are used, unless they have become statements:
then there is a reference. -/
inductive Inlined where
  | constant (value : Constant)
  | binary (op : Operator) (left right : Inlined)
  | lookup (on : Inlined) (key : String)
  | list (values : List Inlined)
  | dict (entries : List (String × Inlined))
  | table (inner : Inlined)
  | reference (name : String)
  | placeholder
  | pipeline (base : Inlined) (steps : List InlinedCall)
  | conditional (condition thenDo elseDo : Inlined)

inductive InlinedCall where
  | call (space name : String) (arguments : List (String × Inlined))

end

/-- The back end that only keeps what it is told. -/
def Backend.inlined : Backend Inlined InlinedCall where
  constant := Inlined.constant
  binary := Inlined.binary
  lookup := Inlined.lookup
  list := Inlined.list
  dict := Inlined.dict
  table := Inlined.table
  reference := Inlined.reference
  placeholder := Inlined.placeholder
  call := InlinedCall.call
  pipeline := Inlined.pipeline
  conditional := Inlined.conditional

variable {ε κ : Type}

mutual

/-- What a back end makes of an expression. -/
def Inlined.render (backend : Backend ε κ) : Inlined → ε
  | .constant value => backend.constant value
  | .binary op left right => backend.binary op (left.render backend) (right.render backend)
  | .lookup on key => backend.lookup (on.render backend) key
  | .list values => backend.list (renderList backend values)
  | .dict entries => backend.dict (renderEntries backend entries)
  | .table inner => backend.table (inner.render backend)
  | .reference name => backend.reference name
  | .placeholder => backend.placeholder
  | .pipeline base steps => backend.pipeline (base.render backend) (renderCalls backend steps)
  | .conditional condition thenDo elseDo =>
    backend.conditional (condition.render backend) (thenDo.render backend) (elseDo.render backend)

def renderList (backend : Backend ε κ) : List Inlined → List ε
  | [] => []
  | first :: rest => first.render backend :: renderList backend rest

def renderEntries (backend : Backend ε κ) : List (String × Inlined) → List (String × ε)
  | [] => []
  | (key, value) :: rest => (key, value.render backend) :: renderEntries backend rest

def InlinedCall.render (backend : Backend ε κ) : InlinedCall → κ
  | .call space name arguments => backend.call space name (renderEntries backend arguments)

def renderCalls (backend : Backend ε κ) : List InlinedCall → List κ
  | [] => []
  | first :: rest => first.render backend :: renderCalls backend rest

end

theorem renderList_eq_map (backend : Backend ε κ) (values : List Inlined) :
    renderList backend values = values.map (·.render backend) := by
  induction values with
  | nil => rfl
  | cons first rest ih => rw [renderList, ih, List.map_cons]

theorem renderEntries_eq_map (backend : Backend ε κ) (entries : List (String × Inlined)) :
    renderEntries backend entries =
      entries.map fun entry => (entry.1, entry.2.render backend) := by
  induction entries with
  | nil => rfl
  | cons first rest ih => rw [renderEntries, ih, List.map_cons]

theorem renderCalls_eq_map (backend : Backend ε κ) (steps : List InlinedCall) :
    renderCalls backend steps = steps.map (·.render backend) := by
  induction steps with
  | nil => rfl
  | cons first rest ih => rw [renderCalls, ih, List.map_cons]

/-- Rendering goes along with putting expressions together, in any back end. -/
def Backend.ofInlined (backend : Backend ε κ) : Backend.inlined.Hom backend id where
  onValue := Inlined.render backend
  onCall := InlinedCall.render backend
  constant _ := rfl
  binary _ _ _ := rfl
  lookup _ _ := rfl
  list values := congrArg backend.list (renderList_eq_map backend values)
  dict entries := congrArg backend.dict (renderEntries_eq_map backend entries)
  table _ := rfl
  reference _ := rfl
  placeholder := rfl
  call space name arguments :=
    congrArg (backend.call space name) (renderEntries_eq_map backend arguments)
  pipeline base steps :=
    congrArg (backend.pipeline (base.render backend)) (renderCalls_eq_map backend steps)
  conditional _ _ _ := rfl

/-- A graph is extracted once and for all: any back end only renders what comes of it. -/
theorem Graph.extract_eq_map (backend : Backend ε κ) (graph : Graph) (roots : List NodeId)
    (bindings : Bindings) (options : Options) : graph.extract backend roots bindings options =
      (graph.extract Backend.inlined roots bindings options).map
        (Rendering.map (Inlined.render backend)) :=
  Graph.extract_map backend.ofInlined graph roots bindings options

theorem Graph.print_eq (graph : Graph) (roots : List NodeId) (bindings : Bindings)
    (options : Options) : graph.print roots bindings options =
      (graph.extract Backend.inlined roots bindings options).map fun inlined =>
        String.ofList (inlined.map (Inlined.render Backend.text)).layout := by
  rw [Graph.print, graph.extract_eq_map Backend.text]
  cases graph.extract Backend.inlined roots bindings options <;> rfl

theorem Graph.serialize_eq (graph : Graph) (roots : List NodeId) (bindings : Bindings)
    (options : Options) : graph.serialize roots bindings options =
      (graph.extract Backend.inlined roots bindings options).map fun inlined =>
        ⟨(inlined.map (Inlined.render Backend.tree)).statements,
          inlined.final.render Backend.tree⟩ := by
  rw [Graph.serialize, graph.extract_eq_map Backend.tree]
  cases graph.extract Backend.inlined roots bindings options <;> rfl

theorem Graph.print_eq_error {graph : Graph} {roots : List NodeId} {bindings : Bindings}
    {options : Options} {error : RenderError} :
    graph.print roots bindings options = .error error ↔
      graph.serialize roots bindings options = .error error := by
  rw [graph.print_eq, graph.serialize_eq, Outcome.map_eq_error, Outcome.map_eq_error]

theorem Graph.exists_print_of_serialize {graph : Graph} {roots : List NodeId}
    {bindings : Bindings} {options : Options} {query : Query}
    (serialized : graph.serialize roots bindings options = .ok query) :
    ∃ text, graph.print roots bindings options = .ok text := by
  rw [graph.serialize_eq] at serialized
  obtain ⟨inlined, extracted, _⟩ := Outcome.map_eq_ok.1 serialized
  rw [graph.print_eq, extracted]
  exact ⟨_, rfl⟩

/-- Whether graph and roots are in order or not, printing and serializing fail with one and the
same error, or both succeed: with statements of the same names in the same order, each of them and
the final expression made of the same inlined expression. -/
theorem Graph.print_with_serialize (graph : Graph) (roots : List NodeId) (bindings : Bindings)
    (options : Options) :
    (∃ error, graph.print roots bindings options = .error error ∧
      graph.serialize roots bindings options = .error error) ∨
    ∃ (inlined : Rendering Inlined) (printed : Rendering Fragment) (query : Query),
      graph.extract Backend.inlined roots bindings options = .ok inlined ∧
      graph.extract Backend.text roots bindings options = .ok printed ∧
      graph.print roots bindings options = .ok (String.ofList printed.layout) ∧
      graph.serialize roots bindings options = .ok query ∧
      printed.statements.map (·.name) = query.statements.map (·.name) ∧
      printed.statements =
        inlined.statements.map (fun statement =>
          ⟨statement.name, statement.body.render Backend.text⟩) ∧
      query.statements =
        inlined.statements.map (fun statement =>
          ⟨statement.name, statement.body.render Backend.tree⟩) ∧
      printed.final = inlined.final.render Backend.text ∧
      query.final = inlined.final.render Backend.tree := by
  rw [graph.print_eq, graph.serialize_eq, graph.extract_eq_map Backend.text]
  cases graph.extract Backend.inlined roots bindings options with
  | error error => exact Or.inl ⟨error, rfl, rfl⟩
  | ok inlined =>
    refine Or.inr ⟨inlined, _, _, rfl, rfl, rfl, rfl, ?_, rfl, rfl, rfl, rfl⟩
    simp [Rendering.map, Statement.map, Function.comp_def]

end QueryGraph
