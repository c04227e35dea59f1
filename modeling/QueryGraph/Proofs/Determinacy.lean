import QueryGraph.Proofs.Legibility
import QueryGraph.Query.Binary

namespace QueryGraph

open QueryGraph.Number

/-- The words for numbers beyond the finite ones, but none for what is not a number. -/
def infiniteWords : Words := fun value =>
  if value.isNaN then none else value.word?

theorem infiniteWords_know {value : Double} (isNumber : value.isNaN = false) :
    infiniteWords.Know value := by
  intro other same
  have isNumber' : other.isNaN = false := (Double.isNaN_congr same).trans isNumber
  simp [infiniteWords, isNumber']

theorem infiniteWords_injective {value value' : Double} {word : String}
    (known : infiniteWords value = some word) (known' : infiniteWords value' = some word) :
    value = value' := by
  have parts {value : Double} (known : infiniteWords value = some word) :
      value.magnitude = Double.infinity ∧
        word.toList = if value.negative then '-' :: "inf".toList else "inf".toList := by
    simp only [infiniteWords, Double.word?] at known
    split at known
    · cases known
    · rename_i isNumber
      split at known
      · cases known
      · rename_i infinite
        rw [Bool.not_eq_true] at isNumber infinite
        cases known
        rw [String.toList_ofList]
        refine ⟨?_, Double.floatText_of_infinite infinite isNumber⟩
        rw [Double.isNaN, decide_eq_false_iff_not] at isNumber
        rw [Double.isFinite, decide_eq_false_iff_not] at infinite
        omega
  obtain ⟨magnitude, text⟩ := parts known
  obtain ⟨magnitude', text'⟩ := parts known'
  have sign : value.negative = value'.negative := by
    rw [text] at text'
    cases first : value.negative <;> cases second : value'.negative <;>
      simp [first, second] at text' ⊢
  rw [← value.ofMagnitude_magnitude, ← value'.ofMagnitude_magnitude, sign, magnitude, magnitude']

theorem Backend.tree_agrees_trimmed {kind : NodeKind} (steps : ∀ base, kind ≠ .pipeline base []) :
    Backend.tree.Agree Backend.trimmed Eq Eq kind := by
  constructor
  · intro isValue value value' call call' values calls
    rw [trimmed_valueOf steps]
    exact valueOf_congr values calls
  · intro isCall value value' values
    exact Backend.tree.callOf_congr values

namespace Graph

variable {graph graph' : Graph} {roots roots' : List NodeId} {bindings bindings' : Bindings}

/-- Whether all pipelines below the roots have a step. -/
def Stepped (graph : Graph) (roots : List NodeId) : Prop :=
  ∀ node ∈ graph.nodes, graph.ReachedFrom roots node.id → ∀ base, node.kind ≠ .pipeline base []

theorem WellFormed.trim_eq_self (wf : graph.WellFormed) (stepped : graph.Stepped roots)
    {options : Options} {query : Query}
    (serialized : graph.serialize roots bindings options = .ok query) : query.trim = query := by
  obtain ⟨rendering, rendered, h⟩ := Outcome.bind_eq_ok.1 serialized
  cases h
  have agreement : graph.Agreement roots bindings options Backend.tree Backend.trimmed Eq Eq := by
    refine ⟨fun node member => ?_, fun _ _ => rfl, fun _ _ _ => rfl⟩
    obtain ⟨inside, reached⟩ := wf.mem_reach.1 member
    exact Backend.tree_agrees_trimmed (stepped node inside reached)
  obtain ⟨trimmed, rendered', statements, final⟩ := wf.extract_related agreement rendered
  rw [extract_trimmed, rendered] at rendered'
  cases rendered'
  have same : rendering.statements = rendering.statements.map (Statement.map Expr.trim) := by
    rw [← List.forall₂_eq_eq_eq]
    refine statements.imp ?_
    rintro ⟨name, body⟩ ⟨name', body'⟩ ⟨rfl, rfl⟩
    rfl
  exact congrArg₂ Query.mk same.symm final.symm

theorem wellNamed_standard : graph.WellNamed roots bindings .standard :=
  ⟨rfl, nofun⟩

/-- Two graphs that are printed alike have the same query, but for pipelines that have no steps. -/
theorem Built.query_of_text (built : graph.Built) (built' : graph'.Built)
    (numbers : ∀ value, graph.Holds roots bindings (.double value) → value.isNaN = false)
    (numbers' : ∀ value, graph'.Holds roots' bindings' (.double value) → value.isNaN = false)
    {text : String} (printed : graph.print roots bindings .standard = .ok text)
    (printed' : graph'.print roots' bindings' .standard = .ok text) :
    ∃ query query', graph.serialize roots bindings .standard = .ok query ∧
      graph'.serialize roots' bindings' .standard = .ok query' ∧ query.trim = query'.trim ∧
      (graph.Stepped roots → graph'.Stepped roots' → query = query') := by
  have wf := built.wellFormed
  have wf' := built'.wellFormed
  obtain ⟨query, serialized, worded⟩ := wf.print_worded wellNamed_standard infiniteWords
    (fun _ => True) (fun value holds _ => infiniteWords_know (numbers value holds)) printed
  obtain ⟨query', serialized', worded'⟩ := wf'.print_worded wellNamed_standard infiniteWords
    (fun _ => True) (fun value holds _ => infiniteWords_know (numbers' value holds)) printed'
  obtain ⟨tokens, tokenizes, derives⟩ := worded fun _ _ _ _ => trivial
  obtain ⟨tokens', tokenizes', derives'⟩ := worded' fun _ _ _ _ => trivial
  obtain rfl : tokens = tokens' :=
    derives.placed.eq_of_worded derives'.placed (tokenizes.unique tokenizes')
      fun _ _ _ _ _ known known' => infiniteWords_injective known known'
  have same : query.trim = query'.trim := derives.unique derives'
  refine ⟨query, query', serialized, serialized', same, fun stepped stepped' => ?_⟩
  rwa [wf.trim_eq_self stepped serialized, wf'.trim_eq_self stepped' serialized'] at same

/-- A sum that has a name, and a product of it that is used twice. -/
def totals : Graph where
  nodes := [
    ⟨1, none, .constant (.int 1), 1⟩,
    ⟨2, none, .constant (.double ⟨0x7FF0000000000000⟩), 1⟩,
    ⟨3, some "total", .binary 1 .add 2, 1⟩,
    ⟨4, none, .binary 3 .multiply 3, 2⟩,
    ⟨5, none, .lookup 4 "size", 1⟩,
    ⟨6, none, .list [4, 5], 0⟩]

/-- The same from nodes that were made in another order, with one more that nothing uses. -/
def totalsReordered : Graph where
  nodes := [
    ⟨1, none, .constant (.double ⟨0x7FF0000000000000⟩), 1⟩,
    ⟨2, none, .constant (.int 1), 1⟩,
    ⟨3, some "total", .binary 2 .add 1, 1⟩,
    ⟨4, none, .binary 3 .multiply 3, 2⟩,
    ⟨5, none, .placeholder, 0⟩,
    ⟨6, none, .lookup 4 "size", 1⟩,
    ⟨7, none, .list [4, 6], 0⟩]

/-- The same, piped through nothing. -/
def totalsPiped : Graph where
  nodes := totals.nodes.dropLast ++ [
    ⟨6, none, .list [4, 5], 1⟩,
    ⟨7, none, .pipeline 6 [], 0⟩]

def totalsSteps : List Session.Step :=
  [.openBuilder none, .make 0 (.constant (.int 1)),
    .make 0 (.constant (.double ⟨0x7FF0000000000000⟩)), .make 0 (.binary 1 .add 2),
    .setName 0 3 "total", .make 0 (.binary 3 .multiply 3), .make 0 (.lookup 4 "size"),
    .make 0 (.list [4, 5])]

theorem built_totals : totals.Built :=
  ⟨totalsSteps, 0, rfl⟩

theorem built_totalsPiped : totalsPiped.Built :=
  ⟨totalsSteps ++ [.make 0 (.pipeline 6 [])], 0, rfl⟩

theorem built_totalsReordered : totalsReordered.Built :=
  ⟨[.openBuilder none, .make 0 (.constant (.double ⟨0x7FF0000000000000⟩)),
    .make 0 (.constant (.int 1)), .make 0 (.binary 2 .add 1), .setName 0 3 "total",
    .make 0 (.binary 3 .multiply 3), .make 0 .placeholder, .make 0 (.lookup 4 "size"),
    .make 0 (.list [4, 6])], 0, rfl⟩

theorem not_nan_of_nodes
    (numbers : ∀ node ∈ graph.nodes, ∀ value, node.kind = .constant (.double value) →
      value.isNaN = false) :
    ∀ value, graph.Holds roots .empty (.double value) → value.isNaN = false := by
  rintro value (⟨node, inside, _, same⟩ | ⟨name, found⟩)
  · exact numbers node inside value same
  · cases found

/-- The text that three graphs have. -/
def totalsText : String :=
  "total = 1 + inf;\n_00000004 = $total * $total;\n[$_00000004, $_00000004.size]"

theorem totals_query_of_text : ∃ query query' query'',
    totals.print [6] .empty .standard = .ok totalsText ∧
    totalsReordered.print [7] .empty .standard = .ok totalsText ∧
    totalsPiped.print [7] .empty .standard = .ok totalsText ∧
    totals.serialize [6] .empty .standard = .ok query ∧
    totalsReordered.serialize [7] .empty .standard = .ok query' ∧
    totalsPiped.serialize [7] .empty .standard = .ok query'' ∧
    query = query' ∧ query.trim = query''.trim ∧ query ≠ query'' := by
  have isNumber : (⟨0x7FF0000000000000⟩ : Double).isNaN = false := by decide
  have numbers : ∀ value, totals.Holds [6] .empty (.double value) → value.isNaN = false :=
    not_nan_of_nodes (by simp [totals, isNumber])
  have numbers' : ∀ value, totalsReordered.Holds [7] .empty (.double value) →
      value.isNaN = false :=
    not_nan_of_nodes (by simp [totalsReordered, isNumber])
  have numbers'' : ∀ value, totalsPiped.Holds [7] .empty (.double value) → value.isNaN = false :=
    not_nan_of_nodes (by simp [totalsPiped, totals, isNumber])
  have printed : totals.print [6] .empty .standard = .ok totalsText := by decide +kernel
  have printed' : totalsReordered.print [7] .empty .standard = .ok totalsText := by
    decide +kernel
  have printed'' : totalsPiped.print [7] .empty .standard = .ok totalsText := by decide +kernel
  have stepped : totals.Stepped [6] := by simp [Stepped, totals]
  have stepped' : totalsReordered.Stepped [7] := by simp [Stepped, totalsReordered]
  obtain ⟨query, query', serialized, serialized', _, same⟩ :=
    built_totals.query_of_text built_totalsReordered numbers numbers' printed printed'
  obtain ⟨_, query'', again, serialized'', trimmed, _⟩ :=
    built_totals.query_of_text built_totalsPiped numbers numbers'' printed printed''
  cases serialized.symm.trans again
  refine ⟨query, query', query'', printed, printed', printed'', serialized, serialized',
    serialized'', same stepped stepped', trimmed, ?_⟩
  rintro rfl
  have bytes : (totals.serialize [6] .empty .standard).map Query.toBytes ≠
      (totalsPiped.serialize [7] .empty .standard).map Query.toBytes := by
    decide +kernel
  rw [serialized, serialized''] at bytes
  exact bytes rfl

/-- A text does not tell a pipeline without steps from its base. -/
theorem same_text_of_stepless : ∃ query query',
    stepless.Built ∧
    (∀ value, stepless.Holds [1] .empty (.double value) → value.isNaN = false) ∧
    (∀ value, stepless.Holds [2] .empty (.double value) → value.isNaN = false) ∧
    stepless.print [1] .empty .standard = .ok "1" ∧
    stepless.print [2] .empty .standard = .ok "1" ∧
    stepless.serialize [1] .empty .standard = .ok query ∧
    stepless.serialize [2] .empty .standard = .ok query' ∧ query ≠ query' := by
  have numbers : ∀ node ∈ stepless.nodes, ∀ value, node.kind = .constant (.double value) →
      value.isNaN = false := by
    simp [stepless]
  exact ⟨_, _, built_stepless, not_nan_of_nodes numbers, not_nan_of_nodes numbers, rfl, rfl, rfl,
    rfl, nofun⟩

end Graph

end QueryGraph
