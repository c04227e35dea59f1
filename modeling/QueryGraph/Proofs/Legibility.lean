import QueryGraph.Proofs.Wording

namespace QueryGraph

open Grammar QueryGraph.Number

/-- Whether all numbers in an expression are finite. -/
def Expr.IsFinite : Expr → Prop :=
  Expr.Constants fun constant => constant.isFinite = true

def Call.IsFinite : Call → Prop :=
  Call.Constants fun constant => constant.isFinite = true

def Query.IsFinite : Query → Prop :=
  Query.Constants fun constant => constant.isFinite = true

theorem Expr.isFinite_of_parts {expr : Expr} (composed : ∀ constant, expr ≠ .atom constant)
    (below : ∀ part ∈ expr.parts, part.IsFinite) : expr.IsFinite :=
  constants_iff.2 ⟨fun constant same => absurd same (composed constant), below⟩

theorem Expr.isFinite_atom {constant : Constant} (finite : constant.isFinite = true) :
    (Expr.atom constant).IsFinite := by
  refine constants_iff.2 ⟨?_, nofun⟩
  rintro _ ⟨⟩
  exact finite

theorem Expr.isFinite_ofOperator {left right : Expr} {op : Operator} (left' : left.IsFinite)
    (right' : right.IsFinite) : (Expr.ofOperator left op right).IsFinite :=
  isFinite_of_parts nofun (List.forall_mem_cons.2 ⟨left', List.forall_mem_singleton.2 right'⟩)

/-- What holds of the numbers of a phrase if those among its tokens are finite. -/
def Phrase.IsFinite : Phrase → Prop
  | .expression expr | .operand _ expr => expr.IsFinite
  | .links _ left expr | .accesses left expr => left.IsFinite → expr.IsFinite
  | .steps stages => ∀ stage ∈ stages, stage.IsFinite
  | .call stage => stage.IsFinite
  | .values items => ∀ item ∈ items, item.IsFinite
  | .entries _ sofar result => (∀ value ∈ Entries.values sofar, value.IsFinite) →
    ∀ value ∈ Entries.values result, value.IsFinite

theorem Derives.isFinite {phrase : Phrase} {tokens : List Token} (derives : Derives phrase tokens)
    (finite : ∀ value, .float value ∈ tokens → value.isFinite = true) : phrase.IsFinite := by
  induction derives with
  | conditional _ _ _ condition thenDo elseDo =>
    have condition' := condition fun value member => finite value (by simp [member])
    have thenDo' := thenDo fun value member => finite value (by simp [member])
    have elseDo' := elseDo fun value member => finite value (by simp [member])
    exact Expr.isFinite_of_parts nofun (List.forall_mem_cons.2
      ⟨condition', List.forall_mem_cons.2 ⟨thenDo', List.forall_mem_singleton.2 elseDo'⟩⟩)
  | plain _ inner | single _ inner => exact inner finite
  | pipeline _ _ base steps =>
    have base' := base fun value member => finite value (by simp [member])
    have steps' := steps fun value member => finite value (by simp [member])
    exact Expr.constants_pipeline.2 ⟨base', steps'⟩
  | stepsNil | valuesNil => exact nofun
  | stepsCons _ _ step rest =>
    have step' := step fun value member => finite value (by simp [member])
    have rest' := rest fun value member => finite value (by simp [member])
    exact List.forall_mem_cons.2 ⟨step', rest'⟩
  | call _ _ _ arguments =>
    exact arguments (fun value member => finite value (by simp [member])) nofun
  | entriesNil => exact fun sofar => sofar
  | entriesLast _ _ value =>
    have value' := value fun value member => finite value (by simp [member])
    exact fun sofar => Entries.forall_values_insert sofar value'
  | entriesCons _ _ _ value rest =>
    have value' := value fun value member => finite value (by simp [member])
    have rest' := rest fun value member => finite value (by simp [member])
    exact fun sofar => rest' (Entries.forall_values_insert sofar value')
  | valuesLast _ value =>
    exact List.forall_mem_singleton.2
      (value fun value member => finite value (by simp [member]))
  | valuesCons _ _ value rest =>
    have value' := value fun value member => finite value (by simp [member])
    have rest' := rest fun value member => finite value (by simp [member])
    exact List.forall_mem_cons.2 ⟨value', rest'⟩
  | chain _ _ _ left rest | access _ _ left rest =>
    have left' := left fun value member => finite value (by simp [member])
    exact rest (fun value member => finite value (by simp [member])) left'
  | linksNil | accessesNil => exact id
  | linksCons _ _ _ right rest =>
    have right' := right fun value member => finite value (by simp [member])
    have rest' := rest fun value member => finite value (by simp [member])
    exact fun left => rest' (Expr.isFinite_ofOperator left right')
  | comparison _ _ _ left right =>
    have left' := left fun value member => finite value (by simp [member])
    have right' := right fun value member => finite value (by simp [member])
    exact Expr.isFinite_ofOperator left' right'
  | accessesLookup _ _ rest =>
    have rest' := rest fun value member => finite value (by simp [member])
    exact fun on => rest' (Expr.isFinite_of_parts nofun (List.forall_mem_singleton.2 on))
  | accessesIndex _ _ index rest =>
    have index' := index fun value member => finite value (by simp [member])
    have rest' := rest fun value member => finite value (by simp [member])
    exact fun on => rest' (Expr.isFinite_ofOperator on index')
  | float value => exact Expr.isFinite_atom (finite value (by simp))
  | negativeFloat value =>
    refine Expr.isFinite_atom ?_
    have same : value.neg.magnitude = value.magnitude :=
      Double.magnitude_ofMagnitude value.magnitude_lt _
    exact (Double.isFinite_congr same).trans (finite value (by simp))
  | integer | negativeInteger | string | boolean => exact Expr.isFinite_atom rfl
  | reference | placeholder => exact Expr.isFinite_of_parts nofun nofun
  | parens _ inner => exact inner fun value member => finite value (by simp [member])
  | list _ values =>
    exact Expr.isFinite_of_parts nofun (values fun value member => finite value (by simp [member]))
  | dict _ entries =>
    exact Expr.isFinite_of_parts nofun
      (entries (fun value member => finite value (by simp [member])) nofun)
  | table _ inner =>
    exact Expr.isFinite_of_parts nofun (List.forall_mem_singleton.2
      (inner fun value member => finite value (by simp [member])))

theorem DerivesStatements.isFinite {statements : List (Statement Expr)} {tokens : List Token}
    (derives : DerivesStatements statements tokens)
    (finite : ∀ value, .float value ∈ tokens → value.isFinite = true) :
    ∀ statement ∈ statements, statement.body.IsFinite := by
  induction derives with
  | nil => exact nofun
  | cons body _ ih =>
    have body' := body.isFinite fun value member => finite value (by simp [member])
    have rest' := ih fun value member => finite value (by simp [member])
    exact List.forall_mem_cons.2 ⟨body', rest'⟩

theorem Query.Derives.isFinite {query : Query} {tokens : List Token}
    (derives : query.Derives tokens)
    (finite : ∀ value, .float value ∈ tokens → value.isFinite = true) : query.IsFinite := by
  obtain ⟨statements, final⟩ := derives
  have statements' := statements.isFinite fun value member => finite value (by simp [member])
  have final' := final.isFinite fun value member => finite value (by simp [member])
  exact List.forall_mem_append.2
    ⟨List.forall_mem_map.2 statements', List.forall_mem_singleton.2 final'⟩

theorem Token.word_eq_none_of_mem {words : Words} {tokens : List Token} {value : Double}
    (member : .float value ∈ tokens.map (worded words)) : words value = none := by
  obtain ⟨token, _, same⟩ := List.mem_map.1 member
  cases token with
  | float value' =>
    rcases worded_float words value' with ⟨none, plain⟩ | ⟨_, _, isWord⟩
    · rw [plain] at same
      cases same
      exact none
    · rw [isWord] at same
      cases same
  | _ => cases same

/-- A text with words in it can only be read if they do not stand for numbers. -/
theorem Query.Derives.map_worded_eq_self {words : Words} {query parsed : Query}
    {tokens : List Token} (derives : query.Derives tokens)
    (derives' : parsed.Derives (tokens.map (Token.worded words))) :
    tokens.map (Token.worded words) = tokens := by
  have settled : (tokens.map (Token.worded words)).map (Token.worded words) =
      tokens.map (Token.worded words) :=
    Token.map_worded_eq_self fun _ => Token.word_eq_none_of_mem
  refine (derives.placed.eq_of_worded derives'.placed settled.symm ?_).symm
  intro value value' word _ member _ known
  rw [Token.word_eq_none_of_mem member] at known
  cases known

namespace Graph

variable {graph : Graph} {roots : List NodeId} {bindings : Bindings} {options : Options}

/-- The text of a graph can be read if and only if all numbers in its query are finite, and then it
is read as the query, but for pipelines that have no steps. -/
theorem Built.print_legible_iff (built : graph.Built)
    (wellNamed : graph.WellNamed roots bindings options) {text : String}
    (printed : graph.print roots bindings options = .ok text) :
    ∃ query, graph.serialize roots bindings options = .ok query ∧
      (query.IsFinite → Query.parse text = .ok query.trim) ∧
      ((∃ parsed, Query.parse text = .ok parsed) ↔ query.IsFinite) := by
  have wf := built.wellFormed
  have unworded (value : Double) (_ : graph.Holds roots bindings (.double value))
      (finite : value.isFinite = true) : noWords.Know value := by
    intro other same
    rw [noWords, eq_comm, Double.word?_eq_none, Double.isFinite_congr same]
    exact finite
  obtain ⟨query, serialized, plain⟩ := wf.print_worded wellNamed noWords
    (fun constant => constant.isFinite = true) unworded printed
  have reads (finite : query.IsFinite) : Query.parse text = .ok query.trim := by
    obtain ⟨tokens, tokenizes, derives⟩ := plain finite
    rw [Token.map_worded_noWords] at tokenizes
    exact Query.parse_eq (Feed.holds_ofText tokenizes) derives
  refine ⟨query, serialized, reads, ?_, fun finite => ⟨query.trim, reads finite⟩⟩
  rintro ⟨parsed, parses⟩
  obtain ⟨query', serialized', worded⟩ := wf.print_worded wellNamed Double.word?
    (fun _ => True) (fun _ _ _ _ _ => rfl) printed
  rw [serialized] at serialized'
  cases serialized'
  obtain ⟨tokens, tokenizes, derives⟩ := worded fun _ _ _ _ => trivial
  obtain ⟨tree, holds, rfl⟩ := Parser.accepts_text parses
  have same := holds.unique (Feed.holds_ofText tokenizes)
  have unchanged := derives.map_worded_eq_self (same ▸ tree.derives)
  refine query.constants_trim.1 (derives.isFinite fun value member => ?_)
  rw [← unchanged] at member
  exact Double.word?_eq_none.1 (Token.word_eq_none_of_mem member)

/-- A constant and a pipeline that it goes through without a step. -/
def stepless : Graph where
  nodes := [⟨1, none, .constant (.int 1), 1⟩, ⟨2, none, .pipeline 1 [], 0⟩]

theorem built_stepless : stepless.Built :=
  ⟨[.openBuilder none, .make 0 (.constant (.int 1)), .make 0 (.pipeline 1 [])], 0, rfl⟩

theorem stepless_print_legible : ∃ query, stepless.print [2] .empty .standard = .ok "1" ∧
    stepless.serialize [2] .empty .standard = .ok query ∧ query.IsFinite ∧
    Query.parse "1" = .ok query.trim := by
  have wellNamed : stepless.WellNamed [2] .empty .standard := ⟨rfl, nofun⟩
  have printed : stepless.print [2] .empty .standard = .ok "1" := rfl
  obtain ⟨query, serialized, reads, _⟩ := built_stepless.print_legible_iff wellNamed printed
  have finite : query.IsFinite := by
    cases serialized
    refine List.forall_mem_singleton.2 (Expr.constants_pipeline.2 ⟨?_, nofun⟩)
    exact Expr.isFinite_atom rfl
  exact ⟨query, printed, serialized, finite, reads finite⟩

/-- A number beyond all finite ones. -/
def boundless : Graph where
  nodes := [⟨1, none, .constant (.double ⟨0x7FF0000000000000⟩), 0⟩]

theorem built_boundless : boundless.Built :=
  ⟨[.openBuilder none, .make 0 (.constant (.double ⟨0x7FF0000000000000⟩))], 0, rfl⟩

/-- There are texts of graphs that cannot be read: words for numbers are not known to the language,
and a statement may have been given any name at all. -/
theorem illegible_prints :
    (boundless.Built ∧ boundless.print [1] .empty .standard = .ok "inf" ∧
      ¬ ∃ parsed, Query.parse "inf" = .ok parsed) ∧
    (stepless.Built ∧
      stepless.print [1] (.ofList [("true", .int 2)]) ⟨"_", true⟩ = .ok "true = 2;\n1" ∧
      ¬ ∃ parsed, Query.parse "true = 2;\n1" = .ok parsed) := by
  refine ⟨⟨built_boundless, by decide +kernel, ?_⟩, built_stepless, by decide +kernel, ?_⟩
  · rintro ⟨parsed, parses⟩
    cases parses
  · rintro ⟨parsed, parses⟩
    cases parses

end Graph

end QueryGraph
