import QueryGraph.Proofs.Comparison
import QueryGraph.Proofs.Fragments
import QueryGraph.Proofs.Unreferenced

namespace QueryGraph

open Extraction QueryGraph.Lexer

theorem describe_spelled (id : NodeId) :
    8 ≤ id.describe.toList.length ∧ ∀ c ∈ id.describe.toList, isNameChar c = true := by
  rw [NodeId.describe, String.toList_ofList]
  constructor
  · simp only [Text.hexPadded, List.length_append, List.length_replicate]
    omega
  · exact fun c member => isNameChar_of_mem_hexPadded member

theorem isName_label {options : Options} (isPrefix : isIdentifier options.labelPrefix = true)
    (id : NodeId) : isName (options.label id) = true := by
  obtain ⟨c, cs, text, starts, names⟩ := exists_of_isIdentifier isPrefix
  obtain ⟨long, names'⟩ := describe_spelled id
  have whole : (options.label id).toList = c :: (cs ++ id.describe.toList) := by
    simp [Options.label, text]
  have short : ∀ word ∈ keywords, word.toList.length ≤ 5 := by decide
  rw [isName, Bool.and_eq_true]
  constructor
  · rw [isIdentifier, whole]
    simp only [starts, Bool.true_and, List.all_eq_true]
    intro d member
    exact (List.mem_append.1 member).elim (names d) (names' d)
  · have free : options.label id ∉ keywords := by
      intro keyword
      have length := short _ keyword
      rw [whole, List.length_cons, List.length_append] at length
      omega
    simpa using free

/-- Whether a statement is read as another one. -/
def DenotesStatement (words : Words) (statement : Statement Fragment)
    (statement' : Statement Expr) : Prop :=
  statement.name = statement'.name ∧ isName statement.name = true ∧
    statement.body.Denotes words statement'.body

theorem denoteStatements_of_related {words : Words} {statements : List (Statement Fragment)}
    {statements' : List (Statement Expr)}
    (names : ∀ statement ∈ statements, isName statement.name = true)
    (related : List.Forall₂ (Statement.Related (Fragment.Denotes words)) statements statements') :
    List.Forall₂ (DenotesStatement words) statements statements' := by
  refine ((List.forall₂_and_left _ _).2 ⟨names, related⟩).imp ?_
  rintro statement statement' ⟨isName', same, bodies⟩
  exact ⟨same, isName', bodies⟩

theorem closed_statements {words : Words} {statements : List (Statement Fragment)}
    {statements' : List (Statement Expr)}
    (denote : List.Forall₂ (DenotesStatement words) statements statements') : ∃ tokens,
      Closed (statements.flatMap fun statement =>
          statement.name.toList ++ ' ' :: '=' :: ' ' :: (statement.body.text ++ [';', '\n']))
        (tokens.map (Token.worded words)) ∧
      DerivesStatements statements' tokens := by
  induction denote with
  | nil => exact ⟨[], fun _ _ next => next, .nil⟩
  | @cons statement statement' statements statements' denotes _ ih =>
    obtain ⟨same, isName', denotes⟩ := denotes
    obtain ⟨first, spells, derives⟩ := denotes.expression
    obtain ⟨second, closed, derives'⟩ := ih
    refine ⟨_, ?_, .cons derives derives'⟩
    intro rest more next
    have line : Tokenizes ('\n' :: _) _ := .blank rfl (closed _ _ next)
    have semicolon := tokenizes_symbol (c := ';') rfl (Or.inr rfl) line
    have body : Tokenizes (' ' :: _) _ := .blank rfl (spells _ _ rfl semicolon)
    have assign := tokenizes_symbol (c := '=') rfl (Or.inl (by simp)) body
    have name := spells_name statement.name isName' _ _ rfl (.blank (c := ' ') rfl assign)
    simpa [same] using name

/-- A rendering is laid out in tokens that denote a query, with words for some of the numbers. -/
theorem Rendering.tokenizes_layout {words : Words} {rendering : Rendering Fragment} {query : Query}
    (statements : List.Forall₂ (DenotesStatement words) rendering.statements query.statements)
    (final : rendering.final.Denotes words query.final) : ∃ tokens,
      Tokenizes rendering.layout (tokens.map (Token.worded words)) ∧ query.Derives tokens := by
  obtain ⟨first, closed, derives⟩ := closed_statements statements
  obtain ⟨second, spells, derives'⟩ := final.expression
  have last := spells [] [] rfl .nil
  rw [List.append_nil, List.append_nil] at last
  refine ⟨first ++ second, ?_, .intro derives derives'⟩
  rw [List.map_append]
  exact closed _ _ last

theorem Rendering.parse_layout {rendering : Rendering Fragment} {query : Query}
    (statements : List.Forall₂ (DenotesStatement noWords) rendering.statements query.statements)
    (final : rendering.final.Denotes noWords query.final) :
    Query.parse (String.ofList rendering.layout) = .ok query := by
  obtain ⟨tokens, tokenizes, derives⟩ := tokenizes_layout statements final
  refine Query.parse_eq (Feed.holds_ofText ?_) derives
  rwa [String.toList_ofList, ← Token.map_worded_noWords tokens]

namespace Graph

variable {graph : Graph} {rest : List NodeId} {last : NodeId} {roots : List NodeId}
  {bindings : Bindings} {options : Options} {outline : Outline}

/-- Whether statements can only have names that the query language takes for names. -/
structure WellNamed (graph : Graph) (roots : List NodeId) (bindings : Bindings)
    (options : Options) : Prop where
  isPrefix : isIdentifier options.labelPrefix = true
  names : options.bindUnreferenced = true →
    ∀ entry ∈ graph.unreferenced roots bindings, isName entry.1 = true

theorem WellNamed.statementName_isName (wellNamed : graph.WellNamed roots bindings options)
    (wf : graph.WellFormed) {node : Node} (inside : node ∈ graph.nodes) :
    isName (statementName options node) = true := by
  unfold statementName
  cases named : node.name with
  | none => exact isName_label wellNamed.isPrefix node.id
  | some name => exact (wf.named node inside name named).1

theorem Outlines.bound_isName (outlines : graph.Outlines rest last bindings options outline)
    (wf : graph.WellFormed) (wellNamed : graph.WellNamed (rest ++ [last]) bindings options) :
    ∀ entry ∈ outline.bound, isName entry.1 = true := by
  intro entry member
  have isKey : entry.1 ∈ Entries.keys outline.bound := List.mem_map_of_mem member
  rw [outlines.keys_eq wf, boundNames, List.mem_append] at isKey
  rcases isKey with isFree | isOther
  · obtain ⟨node, inside, _, isVariable⟩ := wf.mem_variableNames.1 isFree
    exact (wf.spelled node inside).names entry.1 (isVariable ▸ rfl)
  · split at isOther
    · rename_i asked
      obtain ⟨other, listed, same⟩ := List.mem_map.1 isOther
      exact same ▸ wellNamed.names asked other listed
    · cases isOther

theorem Outlines.statements_isName (outlines : graph.Outlines rest last bindings options outline)
    (wf : graph.WellFormed) (wellNamed : graph.WellNamed (rest ++ [last]) bindings options)
    {ε κ : Type} (backend : Backend ε κ) :
    ∀ statement ∈ (outline.render backend graph last).statements,
      isName statement.name = true := by
  intro statement member
  rcases List.mem_append.1 member with member | member
  · obtain ⟨entry, listed, rfl⟩ := List.mem_map.1 member
    exact outlines.bound_isName wf wellNamed entry listed
  · obtain ⟨node, listed, rfl⟩ := List.mem_map.1 member
    rw [statementOf, outlines.plan]
    exact wellNamed.statementName_isName wf (wf.mem_reach.1 (outlines.reached node listed)).1

theorem WellFormed.statements_isName (wf : graph.WellFormed)
    (wellNamed : graph.WellNamed roots bindings options) {ε κ : Type} {backend : Backend ε κ}
    {rendering : Rendering ε}
    (rendered : graph.extract backend roots bindings options = .ok rendering) :
    ∀ statement ∈ rendering.statements, isName statement.name = true := by
  obtain ⟨rest, last, rfl⟩ := exists_last_of_extract rendered
  rw [wf.extract_eq] at rendered
  obtain ⟨outline, h, rfl⟩ := Outcome.map_eq_ok.1 rendered
  exact (wf.outline_ok h).statements_isName wf wellNamed backend

/-- What a graph and its bindings must be like for its text to be read back. -/
structure Readable (graph : Graph) (roots : List NodeId) (bindings : Bindings)
    (options : Options) : Prop where
  steps : ∀ node ∈ graph.nodes, graph.ReachedFrom roots node.id →
    ∀ base, node.kind ≠ .pipeline base []
  finite : ∀ node ∈ graph.nodes, graph.ReachedFrom roots node.id →
    ∀ value, node.kind = .constant (.double value) → value.isFinite = true
  bound : ∀ name value, bindings.get? name = some (.double value) → value.isFinite = true
  isPrefix : isIdentifier options.labelPrefix = true
  names : options.bindUnreferenced = true → ∀ name ∈ bindings.entries.keys, isName name = true

theorem Readable.isPrintable (readable : graph.Readable roots bindings options)
    (wf : graph.WellFormed) {node : Node} (member : node ∈ graph.reach roots) :
    node.kind.isPrintable = true := by
  obtain ⟨inside, reached⟩ := wf.mem_reach.1 member
  have steps := readable.steps node inside reached
  have finite := readable.finite node inside reached
  cases kind : node.kind with
  | constant value =>
    cases value with
    | double value => exact finite value kind
    | _ => rfl
  | pipeline base calls =>
    cases calls with
    | nil => exact absurd kind (steps base)
    | cons => rfl
  | _ => rfl

theorem Readable.wellNamed (readable : graph.Readable roots bindings options) :
    graph.WellNamed roots bindings options where
  isPrefix := readable.isPrefix
  names asked entry member :=
    readable.names asked entry.1 (List.mem_map_of_mem (List.mem_filter.1 member).1)

theorem Readable.agreement (readable : graph.Readable roots bindings options)
    (wf : graph.WellFormed) : graph.Agreement roots bindings options Backend.text Backend.tree
      (Fragment.Denotes noWords) (Fragment.DenotesCall noWords) where
  nodes node member := Backend.text_agrees_tree
    (wf.spelled node (wf.mem_reach.1 member).1) (readable.isPrintable wf member)
  references node inside := Fragment.denotes_reference
    (isIdentifier_of_isName (readable.wellNamed.statementName_isName wf inside))
  constants name value found := by
    refine Fragment.denotes_constant ?_
    cases value with
    | double value => exact readable.bound name value found
    | _ => rfl

theorem Readable.settled (readable : graph.Readable roots bindings options)
    (wf : graph.WellFormed) {plan : Plan} (same : plan.options = options) {node : Node}
    (inside : node ∈ graph.nodes) {body : Fragment} {body' : Expr}
    (bodies : body.Denotes noWords body') :
    (plan.settle Backend.text node body).Denotes noWords (plan.settle Backend.tree node body') :=
  (readable.agreement wf).settled same inside bodies

theorem Readable.agree (readable : graph.Readable roots bindings options) (wf : graph.WellFormed)
    {node : Node} (member : node ∈ graph.reach roots) : ∀ other ∈ graph.postorder node.id,
      Backend.text.Agree Backend.tree (Fragment.Denotes noWords) (Fragment.DenotesCall noWords)
        other.kind :=
  fun other met => (readable.agreement wf).nodes other (wf.mem_reach_below member met)

theorem Outlines.denoteStatements (outlines : graph.Outlines rest last bindings options outline)
    (wf : graph.WellFormed) (readable : graph.Readable (rest ++ [last]) bindings options) :
    List.Forall₂ (DenotesStatement noWords) (outline.render Backend.text graph last).statements
      (outline.render Backend.tree graph last).statements :=
  denoteStatements_of_related (outlines.statements_isName wf readable.wellNamed Backend.text)
    (outlines.render_related wf (readable.agreement wf)).statements

theorem Built.print_reads_back (built : graph.Built)
    (readable : graph.Readable roots bindings options) {text : String}
    (printed : graph.print roots bindings options = .ok text) :
    ∃ query, graph.serialize roots bindings options = .ok query ∧ Query.parse text = .ok query := by
  have wf := built.wellFormed
  obtain ⟨rendering, rendered, h⟩ := Outcome.bind_eq_ok.1 printed
  cases h
  obtain ⟨rest, last, rfl⟩ := exists_last_of_extract rendered
  rw [wf.extract_eq] at rendered
  obtain ⟨outline, h, rfl⟩ := Outcome.map_eq_ok.1 rendered
  have outlines := wf.outline_ok h
  refine ⟨⟨(outline.render Backend.tree graph last).statements,
    (outline.render Backend.tree graph last).final⟩, ?_, ?_⟩
  · rw [serialize, wf.extract_eq, h]
    rfl
  · refine Rendering.parse_layout (outlines.denoteStatements wf readable) ?_
    obtain ⟨root, inside, rfl, isValue, _⟩ := outlines.renderable last (by simp)
    have met : root ∈ graph.postorder root.id := (wf.mem_postorder inside).2 ⟨inside, .refl _⟩
    have reached : root ∈ graph.reach (rest ++ [root.id]) :=
      wf.mem_reach_of_postorder (by simp) met
    refine (wf.images_agree _ inside (readable.agree wf reached) ?_).value isValue
    intro other met _ bodies
    exact readable.settled wf (congrArg Plan.options outlines.plan)
      ((wf.mem_postorder inside).1 met).1 bodies

def sampleBindings : Bindings :=
  .ofList [("rows", .bool true), ("rate", .double ⟨0xBFF8000000000000⟩)]

theorem readable_sample : sample.Readable [8, 9] sampleBindings ⟨"_", true⟩ := by
  have printable : ∀ node ∈ sample.nodes, node.kind.isPrintable = true := by decide
  constructor
  · intro node inside _ base same
    have one := printable node inside
    rw [same] at one
    cases one
  · intro node inside _ value same
    have one := printable node inside
    rwa [same] at one
  · intro name value found
    obtain ⟨before, after, entries, _⟩ := List.lookup_eq_some_iff.1 found
    have member : (name, .double value) ∈ sampleBindings.entries := by simp [entries]
    have finite : ∀ entry ∈ sampleBindings.entries, entry.2.isFinite = true := by decide
    exact finite _ member
  · decide
  · intro _
    decide

theorem sample_print_reads_back : ∃ query,
    sample.print [8, 9] sampleBindings ⟨"_", true⟩ = .ok ("rows = true;\n" ++ "rate = -1.5;\n" ++
      "_00000004 = 5;\n" ++ "_00000007 = $rows | std.filter(where=@.price > $_00000004);\n" ++
      "_00000008 = $_00000007.count;\n" ++ "[$_00000007, $_00000008, $_00000004]") ∧
    sample.serialize [8, 9] sampleBindings ⟨"_", true⟩ = .ok query ∧
    Query.parse ("rows = true;\n" ++ "rate = -1.5;\n" ++ "_00000004 = 5;\n" ++
      "_00000007 = $rows | std.filter(where=@.price > $_00000004);\n" ++
      "_00000008 = $_00000007.count;\n" ++ "[$_00000007, $_00000008, $_00000004]") = .ok query :=
  have printed := by decide +kernel
  have ⟨query, serialized, parsed⟩ := built_sample.print_reads_back readable_sample printed
  ⟨query, printed, serialized, parsed⟩

end Graph

end QueryGraph
