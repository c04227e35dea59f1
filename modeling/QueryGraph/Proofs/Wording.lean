import QueryGraph.Proofs.BareSteps
import QueryGraph.Proofs.Comparison
import QueryGraph.Proofs.ReadBack
import QueryGraph.Proofs.Unreferenced

namespace QueryGraph

open Extraction Grammar QueryGraph.Number

/-- The word in the place of a number that is not finite. -/
def Number.Double.word? (value : Double) : Option String :=
  if value.isFinite then none else some (String.ofList (floatText value))

namespace Number.Double

theorem isFinite_congr {value other : Double} (same : other.magnitude = value.magnitude) :
    other.isFinite = value.isFinite := by
  rw [isFinite, isFinite, same]

theorem isNaN_congr {value other : Double} (same : other.magnitude = value.magnitude) :
    other.isNaN = value.isNaN := by
  rw [isNaN, isNaN, same]

theorem isFinite_eq_false {value : Double} (isNaN : value.isNaN = true) :
    value.isFinite = false := by
  rw [Double.isNaN, decide_eq_true_eq] at isNaN
  rw [isFinite, decide_eq_false_iff_not]
  omega

theorem floatText_of_isNaN {value : Double} (isNaN : value.isNaN = true) :
    floatText value = "NaN".toList := by
  simp [floatText, isFinite_eq_false isNaN, isNaN]

theorem floatText_of_infinite {value : Double} (infinite : value.isFinite = false)
    (isNumber : value.isNaN = false) :
    floatText value = if value.negative then '-' :: "inf".toList else "inf".toList := by
  rw [floatText, if_neg (Bool.eq_false_iff.1 infinite), if_neg (Bool.eq_false_iff.1 isNumber)]
  cases value.negative <;> rfl

theorem word?_eq_none {value : Double} : value.word? = none ↔ value.isFinite = true := by
  simp [word?]

end Number.Double

/-- Whether the words of a number are known, whatever its sign. -/
def Words.Know (words : Words) (value : Double) : Prop :=
  ∀ other : Double, other.magnitude = value.magnitude → words other = other.word?

theorem Constant.magnitude_of_mem_tokens {constant : Constant} {value : Double}
    (member : .float value ∈ constant.tokens) :
    ∃ value', constant = .double value' ∧ value.magnitude = value'.magnitude := by
  cases constant with
  | double value' =>
    refine ⟨value', rfl, ?_⟩
    rw [tokens] at member
    split at member
    · rcases List.mem_cons.1 member with same | member
      · cases same
      · cases List.mem_singleton.1 member
        exact Double.magnitude_ofMagnitude value'.magnitude_lt false
    · cases List.mem_singleton.1 member
      rfl
  | int value' =>
    rw [tokens] at member
    split at member <;> simp at member
  | bool | string => simp [tokens] at member

theorem Token.map_worded_eq_self {words : Words} {tokens : List Token}
    (digits : ∀ value, .float value ∈ tokens → words value = none) :
    tokens.map (worded words) = tokens := by
  refine (List.map_congr_left fun token member => ?_).trans (List.map_id tokens)
  cases token with
  | float value => simp [worded, digits value member]
  | _ => rfl

namespace Fragment

variable {words : Words}

theorem spells_double {value : Double} (known : words.Know value) :
    Spells (floatText value) ((Constant.double value).tokens.map (Token.worded words)) := by
  by_cases finite : value.isFinite = true
  · rw [Token.map_worded_eq_self]
    · exact Constant.spells_double finite
    · intro other member
      obtain ⟨_, ⟨⟩, same⟩ := Constant.magnitude_of_mem_tokens member
      rw [known other same, Double.word?_eq_none, Double.isFinite_congr same]
      exact finite
  · rw [Bool.not_eq_true] at finite
    cases isNaN : value.isNaN with
    | true =>
      have text := Double.floatText_of_isNaN isNaN
      have word : words value = some "NaN" := by simp [known value rfl, Double.word?, finite, text]
      simpa [text, Constant.tokens, isNaN, Token.worded, word] using spells_name "NaN" rfl
    | false =>
      have text := Double.floatText_of_infinite finite isNaN
      have word {other : Double} (same : other.magnitude = value.magnitude)
          (unsigned : other.negative = false) : words other = some "inf" := by
        have infinite : other.isFinite = false := (Double.isFinite_congr same).trans finite
        have isNumber : other.isNaN = false := (Double.isNaN_congr same).trans isNaN
        have text := Double.floatText_of_infinite infinite isNumber
        simp [known other same, Double.word?, infinite, text, unsigned]
      have spells := spells_name "inf" rfl
      cases sign : value.negative with
      | true =>
        have unsigned : words (.ofMagnitude false value.magnitude) = some "inf" :=
          word (Double.magnitude_ofMagnitude value.magnitude_lt false)
            (Double.negative_ofMagnitude value.magnitude_lt false)
        simpa [text, Constant.tokens, isNaN, sign, Token.worded, unsigned] using
          spells_subtract spells
      | false =>
        simpa [text, Constant.tokens, sign, Token.worded, word rfl sign] using spells

theorem denotes_known {constant : Constant}
    (known : ∀ value, constant = .double value → words.Know value) :
    (atom constant.text).Denotes words (.atom constant) := by
  refine denotes_atom _ ?_ constant.derives_tokens
  cases constant with
  | double value => exact spells_double (known value rfl)
  | _ =>
    rw [Token.map_worded_eq_self]
    · exact Constant.spells_text rfl
    · intro value member
      obtain ⟨_, ⟨⟩, _⟩ := Constant.magnitude_of_mem_tokens member

end Fragment

open Fragment in
theorem Backend.text_agrees_where {words : Words} {condition : Constant → Prop} {kind : NodeKind}
    (spelled : kind.Spelled)
    (known : ∀ value, kind = .constant (.double value) → condition (.double value) →
      words.Know value) :
    Backend.text.Agree Backend.trimmed
      (fun fragment expr => expr.Constants condition → fragment.Denotes words expr)
      (fun text call => call.Constants condition → DenotesCall words text call) kind := by
  constructor
  · intro isValue value value' call call' values calls all
    obtain ⟨own, valuesAll, callsAll⟩ :=
      (NodeKind.constants_valueOf isValue spelled.distinct).1 all
    refine (text_agrees_trimmed spelled ?_).value isValue value value' call call'
      (fun id isOperand => values id isOperand (valuesAll id isOperand))
      fun id isOperand => calls id isOperand (callsAll id isOperand)
    rintro constant rfl
    exact denotes_known fun value same => known value (same ▸ rfl) (same ▸ own constant rfl)
  · intro isCall value value' values all
    have valuesAll := (NodeKind.constants_callOf isCall spelled.distinct).1 all
    refine (text_agrees_trimmed spelled ?_).call isCall value value'
      fun id isOperand => values id isOperand (valuesAll id isOperand)
    rintro constant rfl
    cases isCall

/-- Whether a condition holds of all constants in the statements and in the final expression. -/
def Query.Constants (condition : Constant → Prop) (query : Query) : Prop :=
  ∀ expr ∈ query.exprs, expr.Constants condition

theorem Query.constants_trim {condition : Constant → Prop} (query : Query) :
    query.trim.Constants condition ↔ query.Constants condition := by
  simp [Constants, trim, exprs, Statement.map, Expr.constants_trim, or_imp, forall_and]

namespace Graph

variable {graph : Graph} {roots rest : List NodeId} {last : NodeId} {bindings : Bindings}
  {options : Options} {outline : Outline}

/-- Whether a constant is part of a graph below its roots, or of the bindings. -/
def Holds (graph : Graph) (roots : List NodeId) (bindings : Bindings) (constant : Constant) :
    Prop :=
  (∃ node ∈ graph.nodes, graph.ReachedFrom roots node.id ∧ node.kind = .constant constant) ∨
    ∃ name, bindings.get? name = some constant

theorem WellNamed.agreement (wellNamed : graph.WellNamed roots bindings options)
    (wf : graph.WellFormed) {words : Words} {condition : Constant → Prop}
    (known : ∀ value, graph.Holds roots bindings (.double value) → condition (.double value) →
      words.Know value) :
    graph.Agreement roots bindings options Backend.text Backend.trimmed
      (fun fragment expr => expr.Constants condition → fragment.Denotes words expr)
      (fun text call => call.Constants condition → Fragment.DenotesCall words text call) where
  nodes node member := by
    obtain ⟨inside, reached⟩ := wf.mem_reach.1 member
    exact Backend.text_agrees_where (wf.spelled node inside) fun value same =>
      known value (Or.inl ⟨node, inside, reached, same⟩)
  references node inside _ := Fragment.denotes_reference
    (isIdentifier_of_isName (wellNamed.statementName_isName wf inside))
  constants name constant found all := by
    refine Fragment.denotes_known fun value same => known value (Or.inr ⟨name, same ▸ found⟩) ?_
    exact same ▸ all constant .self

/-- What a graph is printed as is made of tokens of its query, but for pipelines without steps and
for the words of those numbers that have some. -/
theorem WellFormed.print_worded (wf : graph.WellFormed)
    (wellNamed : graph.WellNamed roots bindings options) (words : Words)
    (condition : Constant → Prop)
    (known : ∀ value, graph.Holds roots bindings (.double value) → condition (.double value) →
      words.Know value)
    {text : String} (printed : graph.print roots bindings options = .ok text) :
    ∃ query, graph.serialize roots bindings options = .ok query ∧
      (query.Constants condition → ∃ tokens,
        Tokenizes text.toList (tokens.map (Token.worded words)) ∧ query.trim.Derives tokens) := by
  obtain ⟨rendering, rendered, h⟩ := Outcome.bind_eq_ok.1 printed
  cases h
  obtain ⟨trimmed, rendered', statements, final⟩ :=
    wf.extract_related (wellNamed.agreement wf known) rendered
  rw [extract_trimmed] at rendered'
  obtain ⟨plain, plain', rfl⟩ := Outcome.map_eq_ok.1 rendered'
  refine ⟨⟨plain.statements, plain.final⟩, by simp [serialize, plain'], fun all => ?_⟩
  rw [← Query.constants_trim] at all
  have statements' : List.Forall₂ (Statement.Related (Fragment.Denotes words))
      rendering.statements (plain.statements.map (Statement.map Expr.trim)) := by
    have bodies : ∀ statement ∈ plain.statements.map (Statement.map Expr.trim),
        statement.body.Constants condition := fun statement member =>
      all _ (List.mem_append_left _ (List.mem_map_of_mem member))
    refine ((List.forall₂_and_left _ _).2 ⟨bodies, statements.flip⟩).flip.imp ?_
    rintro statement statement' ⟨body, same, denotes⟩
    exact ⟨same, denotes body⟩
  rw [String.toList_ofList]
  exact Rendering.tokenizes_layout
    (denoteStatements_of_related (wf.statements_isName wellNamed rendered) statements')
    (final (all _ (List.mem_append_right _ (List.mem_singleton_self _))))

end Graph

end QueryGraph
