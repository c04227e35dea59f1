import QueryGraph.Proofs.Derivations

namespace QueryGraph.Grammar

open QueryGraph.Parser

/-- The first of some tokens, if there is one. -/
def ahead (tokens : List Token) : Token :=
  tokens.headD .endOfInput

@[simp] theorem ahead_cons (token : Token) (tokens : List Token) :
    ahead (token :: tokens) = token := rfl

theorem ahead_of_eq {tokens rest : List Token} {token : Token} (same : tokens = token :: rest) :
    ahead tokens = token := by
  rw [same, ahead_cons]

/-- Whether a phrase of some kind does not go on with a token. -/
def Category.EndsBefore : Category → Token → Prop
  | expression, token => token.Ends
  | operand level, token => token.Stops level.precedence
  | links level, token => token.Stops level.precedence
  | accesses, token => token.Stops Operator.postfixPrecedence
  | steps, token => token ≠ .pipe
  | call, _ | values, _ => True
  | entries close, _ => close = .rightParen ∨ close = .rightBrace

namespace Derivation

variable {category : Category} {level : ChainLevel} {token : Token}
  {tokens' rest rest' : List Token}

/-- Whether no other derivation has the same tokens, with others behind them. -/
def Determined (tree : Derivation category) : Prop :=
  ∀ (other : Derivation category) (rest rest' : List Token),
    tree.tokens ++ rest = other.tokens ++ rest' →
    category.EndsBefore (ahead rest) → category.EndsBefore (ahead rest') →
    tree = other ∧ rest = rest'

theorem operand_begins {level : Level} (tree : Derivation (.operand level))
    (same : tree.tokens ++ rest = token :: rest') : token.begins = true := by
  have derives : QueryGraph.Derives (.operand level.precedence tree.meaning) tree.tokens :=
    tree.derives
  obtain ⟨first, more, spelled, begins⟩ := derives.operand_begins
  rw [spelled, List.cons_append, List.cons.injEq] at same
  rwa [← same.1]

theorem expression_begins (tree : Derivation .expression)
    (same : tree.tokens ++ rest = token :: rest') :
    token.begins = true ∨ token = .keyword .ifWord := by
  have derives : QueryGraph.Derives (.expression tree.meaning) tree.tokens := tree.derives
  obtain ⟨first, more, spelled, begins⟩ := derives.expression_begins
  rw [spelled, List.cons_append, List.cons.injEq] at same
  rwa [← same.1]

/-- An expression with a token behind it that it does not go on with is told apart from any other,
and so is the token. -/
theorem Determined.delimited {value other : Derivation .expression} (value' : value.Determined)
    {token' : Token} (ends : token.Ends) (ends' : token'.Ends)
    (same : value.tokens ++ token :: rest = other.tokens ++ token' :: rest') :
    value = other ∧ token = token' ∧ rest = rest' := by
  obtain ⟨rfl, behind⟩ := value' other _ _ same ends ends'
  exact ⟨rfl, List.cons.inj behind⟩

theorem stops_steps (steps : Derivation .steps) (ends : (ahead rest).Ends) :
    (ahead (steps.tokens ++ rest)).Stops Operator.or.precedence := by
  cases steps with
  | stepsNil => exact ends.1
  | stepsCons => simp [tokens, Token.Stops]

theorem stops_links (links : Derivation (.links level))
    (stops : (ahead rest).Stops level.precedence) :
    (ahead (links.tokens ++ rest)).Stops level.operand.precedence := by
  rw [level.precedence_operand]
  cases links with
  | linksNil => exact stops_succ stops
  | linksCons op binds => exact stops_operator (by omega)

theorem determined_conditional {condition thenDo elseDo : Derivation .expression}
    (condition' : condition.Determined) (thenDo' : thenDo.Determined)
    (elseDo' : elseDo.Determined) : (conditional condition thenDo elseDo).Determined := by
  intro other rest rest' same ends ends'
  cases other with
  | conditional =>
    simp only [tokens, List.cons_append, List.append_assoc, List.cons.injEq, true_and] at same
    obtain ⟨rfl, _, same₁⟩ := condition'.delimited (ends_of (by simp)) (ends_of (by simp)) same
    obtain ⟨rfl, _, same₂⟩ := thenDo'.delimited (ends_of (by simp)) (ends_of (by simp)) same₁
    obtain ⟨rfl, behind⟩ := elseDo' _ _ _ same₂ ends ends'
    exact ⟨rfl, behind⟩
  | piped base steps =>
    simp only [tokens, List.cons_append, List.append_assoc] at same
    cases base.operand_begins same.symm

theorem determined_piped {base : Derivation (.operand (.chain .disjunction))}
    {steps : Derivation .steps} (base' : base.Determined) (steps' : steps.Determined) :
    (piped base steps).Determined := by
  intro other rest rest' same ends ends'
  cases other with
  | conditional =>
    simp only [tokens, List.cons_append, List.append_assoc] at same
    cases base.operand_begins same
  | piped base steps =>
    simp only [tokens, List.append_assoc] at same
    obtain ⟨rfl, same₁⟩ := base' _ _ _ same (stops_steps _ ends) (stops_steps _ ends')
    obtain ⟨rfl, behind⟩ := steps' _ _ _ same₁ ends.2 ends'.2
    exact ⟨rfl, behind⟩

theorem determined_stepsNil : stepsNil.Determined := by
  intro other rest rest' same ends ends'
  cases other with
  | stepsNil => exact ⟨rfl, same⟩
  | stepsCons =>
    simp only [tokens, List.nil_append, List.cons_append] at same
    exact absurd (ahead_of_eq same) ends

theorem determined_stepsCons {step : Derivation .call} {more : Derivation .steps}
    (step' : step.Determined) (more' : more.Determined) : (stepsCons step more).Determined := by
  intro other rest rest' same ends ends'
  cases other with
  | stepsNil =>
    simp only [tokens, List.cons_append, List.nil_append] at same
    exact absurd (ahead_of_eq same.symm) ends'
  | stepsCons =>
    simp only [tokens, List.cons_append, List.append_assoc, List.cons.injEq, true_and] at same
    obtain ⟨rfl, same₁⟩ := step' _ _ _ same trivial trivial
    obtain ⟨rfl, behind⟩ := more' _ _ _ same₁ ends ends'
    exact ⟨rfl, behind⟩

theorem determined_call {space name : Key} {arguments : Derivation (.entries .rightParen)}
    (arguments' : arguments.Determined) : (call space name arguments).Determined := by
  intro other rest rest' same _ _
  cases other with
  | call =>
    simp only [tokens, List.cons_append, List.cons.injEq, true_and] at same
    obtain ⟨rfl, same₁⟩ := arguments' _ _ _ same.2.2 (Or.inl rfl) (Or.inl rfl)
    cases Key.eq_of_token same.1
    cases Key.eq_of_token same.2.1
    exact ⟨rfl, same₁⟩

variable {close : Token}

theorem ends_of_close (isClose : close = .rightParen ∨ close = .rightBrace) : close.Ends :=
  ends_of (by rcases isClose with rfl | rfl <;> simp)

theorem comma_ne_close (isClose : close = .rightParen ∨ close = .rightBrace) :
    Token.comma ≠ close := by
  rcases isClose with rfl | rfl <;> nofun

theorem determined_entriesNil : (entriesNil : Derivation (.entries close)).Determined := by
  intro other rest rest' same isClose _
  cases other with
  | entriesNil => exact ⟨rfl, (List.cons.inj same).2⟩
  | entriesLast key | entriesCons key =>
    exact absurd (List.cons.inj same).1.symm (key_ne_close isClose key.isKey)

theorem determined_entriesLast {key : Key} {value : Derivation .expression}
    (value' : value.Determined) :
    (entriesLast key value : Derivation (.entries close)).Determined := by
  intro other rest rest' same isClose _
  have ends := ends_of_close isClose
  cases other with
  | entriesNil => exact absurd (List.cons.inj same).1 (key_ne_close isClose key.isKey)
  | entriesLast =>
    simp only [tokens, List.cons_append, List.append_assoc, List.cons.injEq, true_and,
      List.nil_append] at same
    obtain ⟨rfl, _, behind⟩ := value'.delimited ends ends same.2
    cases Key.eq_of_token same.1
    exact ⟨rfl, behind⟩
  | entriesCons =>
    simp only [tokens, List.cons_append, List.append_assoc, List.cons.injEq, true_and,
      List.nil_append] at same
    obtain ⟨_, isComma, _⟩ := value'.delimited ends (ends_of (by simp)) same.2
    exact absurd isComma.symm (comma_ne_close isClose)

theorem determined_entriesCons {key : Key} {value : Derivation .expression}
    {more : Derivation (.entries close)} (value' : value.Determined) (more' : more.Determined) :
    (entriesCons key value more).Determined := by
  intro other rest rest' same isClose isClose'
  have ends := ends_of_close isClose
  cases other with
  | entriesNil => exact absurd (List.cons.inj same).1 (key_ne_close isClose key.isKey)
  | entriesLast =>
    simp only [tokens, List.cons_append, List.append_assoc, List.cons.injEq, true_and,
      List.nil_append] at same
    obtain ⟨_, isComma, _⟩ := value'.delimited (ends_of (by simp)) ends same.2
    exact absurd isComma (comma_ne_close isClose)
  | entriesCons =>
    simp only [tokens, List.cons_append, List.append_assoc, List.cons.injEq, true_and] at same
    obtain ⟨rfl, _, same₁⟩ := value'.delimited (ends_of (by simp)) (ends_of (by simp)) same.2
    obtain ⟨rfl, behind⟩ := more' _ _ _ same₁ isClose isClose'
    cases Key.eq_of_token same.1
    exact ⟨rfl, behind⟩

theorem expression_ne_rightBracket (tree : Derivation .expression) :
    tree.tokens ++ rest ≠ .rightBracket :: rest' := by
  intro same
  rcases tree.expression_begins same with begins | isIf
  · cases begins
  · cases isIf

theorem determined_valuesNil : valuesNil.Determined := by
  intro other rest rest' same _ _
  cases other with
  | valuesNil => exact ⟨rfl, (List.cons.inj same).2⟩
  | valuesLast value | valuesCons value =>
    simp only [tokens, List.append_assoc, List.cons_append, List.nil_append] at same
    exact absurd same.symm value.expression_ne_rightBracket

theorem determined_valuesLast {value : Derivation .expression} (value' : value.Determined) :
    (valuesLast value).Determined := by
  intro other rest rest' same _ _
  cases other with
  | valuesNil =>
    simp only [tokens, List.append_assoc, List.cons_append, List.nil_append] at same
    exact absurd same value.expression_ne_rightBracket
  | valuesLast =>
    simp only [tokens, List.append_assoc, List.cons_append, List.nil_append] at same
    obtain ⟨rfl, _, behind⟩ := value'.delimited (ends_of (by simp)) (ends_of (by simp)) same
    exact ⟨rfl, behind⟩
  | valuesCons =>
    simp only [tokens, List.append_assoc, List.cons_append, List.nil_append] at same
    obtain ⟨_, isComma, _⟩ := value'.delimited (ends_of (by simp)) (ends_of (by simp)) same
    cases isComma

theorem determined_valuesCons {value : Derivation .expression} {more : Derivation .values}
    (value' : value.Determined) (more' : more.Determined) : (valuesCons value more).Determined := by
  intro other rest rest' same _ _
  cases other with
  | valuesNil =>
    simp only [tokens, List.append_assoc, List.cons_append, List.nil_append] at same
    exact absurd same value.expression_ne_rightBracket
  | valuesLast =>
    simp only [tokens, List.append_assoc, List.cons_append, List.nil_append] at same
    obtain ⟨_, isComma, _⟩ := value'.delimited (ends_of (by simp)) (ends_of (by simp)) same
    cases isComma
  | valuesCons =>
    simp only [tokens, List.append_assoc, List.cons_append] at same
    obtain ⟨rfl, _, same₁⟩ := value'.delimited (ends_of (by simp)) (ends_of (by simp)) same
    obtain ⟨rfl, behind⟩ := more' _ _ _ same₁ trivial trivial
    exact ⟨rfl, behind⟩

theorem determined_chain {left : Derivation (.operand level.operand)}
    {more : Derivation (.links level)} (left' : left.Determined) (more' : more.Determined) :
    (chain left more).Determined := by
  intro other rest rest' same stops stops'
  cases other with
  | chain =>
    simp only [tokens, List.append_assoc] at same
    obtain ⟨rfl, same₁⟩ := left' _ _ _ same (stops_links _ stops) (stops_links _ stops')
    obtain ⟨rfl, behind⟩ := more' _ _ _ same₁ stops stops'
    exact ⟨rfl, behind⟩

theorem determined_linksNil : (linksNil : Derivation (.links level)).Determined := by
  intro other rest rest' same stops _
  cases other with
  | linksNil => exact ⟨rfl, same⟩
  | linksCons op binds =>
    simp only [tokens, List.nil_append, List.cons_append] at same
    rw [same, ahead_cons] at stops
    exact absurd (stops.1 op rfl) (by simp [binds])

theorem determined_linksCons {op : Operator} {binds : op.precedence = level.precedence}
    {right : Derivation (.operand level.operand)} {more : Derivation (.links level)}
    (right' : right.Determined) (more' : more.Determined) :
    (linksCons op binds right more).Determined := by
  intro other rest rest' same stops stops'
  cases other with
  | linksNil =>
    simp only [tokens, List.nil_append, List.cons_append] at same
    rw [← same, ahead_cons] at stops'
    exact absurd (stops'.1 op rfl) (by simp [binds])
  | linksCons =>
    simp only [tokens, List.cons_append, List.append_assoc, List.cons.injEq,
      Token.operator.injEq] at same
    obtain ⟨rfl, same⟩ := same
    obtain ⟨rfl, same₁⟩ := right' _ _ _ same (stops_links _ stops) (stops_links _ stops')
    obtain ⟨rfl, behind⟩ := more' _ _ _ same₁ stops stops'
    exact ⟨rfl, behind⟩

theorem stops_comparison {op : Operator} (compares : op.isComparison = true) (rest : List Token) :
    (ahead (.operator op :: rest)).Stops Operator.add.precedence := by
  have binds : op.precedence = Operator.equal.precedence := by
    simpa [Operator.isComparison] using compares
  apply stops_operator
  rw [binds]
  decide

theorem not_stops_comparison {op : Operator} (compares : op.isComparison = true)
    (stops : (Token.operator op).Stops Operator.equal.precedence) : False := by
  have less := stops.1 op rfl
  have binds : op.precedence = Operator.equal.precedence := by
    simpa [Operator.isComparison] using compares
  omega

theorem determined_single {operand : Derivation (.operand (.chain .sum))}
    (operand' : operand.Determined) : (single operand).Determined := by
  intro other rest rest' same stops stops'
  cases other with
  | single =>
    obtain ⟨rfl, behind⟩ := operand' _ _ _ same (stops_succ stops) (stops_succ stops')
    exact ⟨rfl, behind⟩
  | comparison op compares left right =>
    simp only [tokens, List.append_assoc, List.cons_append] at same
    obtain ⟨_, same₁⟩ := operand' _ _ _ same (stops_succ stops) (stops_comparison compares _)
    rw [same₁, ahead_cons] at stops
    cases not_stops_comparison compares stops

theorem determined_comparison {op : Operator} {compares : op.isComparison = true}
    {left right : Derivation (.operand (.chain .sum))} (left' : left.Determined)
    (right' : right.Determined) : (comparison op compares left right).Determined := by
  intro other rest rest' same stops stops'
  cases other with
  | single =>
    simp only [tokens, List.append_assoc, List.cons_append] at same
    obtain ⟨_, same₁⟩ := left' _ _ _ same (stops_comparison compares _) (stops_succ stops')
    rw [← same₁, ahead_cons] at stops'
    cases not_stops_comparison compares stops'
  | comparison op' compares' =>
    simp only [tokens, List.append_assoc, List.cons_append] at same
    obtain ⟨rfl, same₁⟩ := left' _ _ _ same (stops_comparison compares _)
      (stops_comparison compares' _)
    obtain ⟨isOperator, same₂⟩ := List.cons.inj same₁
    cases isOperator
    obtain ⟨rfl, behind⟩ := right' _ _ _ same₂ (stops_succ stops) (stops_succ stops')
    exact ⟨rfl, behind⟩

theorem determined_access {on : Derivation (.operand .primary)} {more : Derivation .accesses}
    (on' : on.Determined) (more' : more.Determined) : (access on more).Determined := by
  intro other rest rest' same stops stops'
  cases other with
  | access =>
    simp only [tokens, List.append_assoc] at same
    obtain ⟨rfl, same₁⟩ := on' _ _ _ same (stops_atom _) (stops_atom _)
    obtain ⟨rfl, behind⟩ := more' _ _ _ same₁ stops stops'
    exact ⟨rfl, behind⟩

theorem determined_accessesNil : accessesNil.Determined := by
  intro other rest rest' same stops _
  obtain ⟨noDot, noBracket⟩ := stops.2 (Nat.le_refl _)
  cases other with
  | accessesNil => exact ⟨rfl, same⟩
  | accessesLookup =>
    simp only [tokens, List.nil_append, List.cons_append] at same
    exact absurd (ahead_of_eq same) noDot
  | accessesIndex =>
    simp only [tokens, List.nil_append, List.cons_append] at same
    exact absurd (ahead_of_eq same) noBracket

theorem determined_accessesLookup {key : Key} {more : Derivation .accesses}
    (more' : more.Determined) : (accessesLookup key more).Determined := by
  intro other rest rest' same stops stops'
  cases other with
  | accessesNil =>
    simp only [tokens, List.nil_append, List.cons_append] at same
    exact absurd (ahead_of_eq same.symm) (stops'.2 (Nat.le_refl _)).1
  | accessesLookup =>
    simp only [tokens, List.cons_append, List.cons.injEq, true_and] at same
    obtain ⟨rfl, behind⟩ := more' _ _ _ same.2 stops stops'
    cases Key.eq_of_token same.1
    exact ⟨rfl, behind⟩
  | accessesIndex => cases (List.cons.inj same).1

theorem determined_accessesIndex {index : Derivation .expression} {more : Derivation .accesses}
    (index' : index.Determined) (more' : more.Determined) :
    (accessesIndex index more).Determined := by
  intro other rest rest' same stops stops'
  cases other with
  | accessesNil =>
    simp only [tokens, List.nil_append, List.cons_append] at same
    exact absurd (ahead_of_eq same.symm) (stops'.2 (Nat.le_refl _)).2
  | accessesLookup => cases (List.cons.inj same).1
  | accessesIndex =>
    simp only [tokens, List.cons_append, List.append_assoc, List.cons.injEq, true_and] at same
    obtain ⟨rfl, _, same₁⟩ := index'.delimited (ends_of (by simp)) (ends_of (by simp)) same
    obtain ⟨rfl, behind⟩ := more' _ _ _ same₁ stops stops'
    exact ⟨rfl, behind⟩

theorem determined_atom (value : Atom) : (atom value).Determined := by
  intro other rest rest' same _ _
  cases other with
  | atom value' =>
    cases value <;> cases value' <;> simp_all [tokens, Atom.tokens]
  | parens | list | dict | table => cases value <;> cases (List.cons.inj same).1

theorem determined_parens {inner : Derivation .expression} (inner' : inner.Determined) :
    (parens inner).Determined := by
  intro other rest rest' same _ _
  cases other with
  | atom value => cases value <;> cases (List.cons.inj same).1
  | parens =>
    simp only [tokens, List.cons_append, List.append_assoc, List.cons.injEq, true_and,
      List.nil_append] at same
    obtain ⟨rfl, _, behind⟩ := inner'.delimited (ends_of (by simp)) (ends_of (by simp)) same
    exact ⟨rfl, behind⟩
  | list | dict | table => cases (List.cons.inj same).1

theorem determined_list {items : Derivation .values} (items' : items.Determined) :
    (list items).Determined := by
  intro other rest rest' same _ _
  cases other with
  | atom value => cases value <;> cases (List.cons.inj same).1
  | list =>
    obtain ⟨rfl, behind⟩ := items' _ _ _ (List.cons.inj same).2 trivial trivial
    exact ⟨rfl, behind⟩
  | parens | dict | table => cases (List.cons.inj same).1

theorem determined_dict {items : Derivation (.entries .rightBrace)} (items' : items.Determined) :
    (dict items).Determined := by
  intro other rest rest' same _ _
  cases other with
  | atom value => cases value <;> cases (List.cons.inj same).1
  | dict =>
    obtain ⟨rfl, behind⟩ := items' _ _ _ (List.cons.inj same).2 (Or.inr rfl) (Or.inr rfl)
    exact ⟨rfl, behind⟩
  | parens | list | table => cases (List.cons.inj same).1

theorem determined_table {inner : Derivation .expression} (inner' : inner.Determined) :
    (table inner).Determined := by
  intro other rest rest' same _ _
  cases other with
  | atom value => cases value <;> cases (List.cons.inj same).1
  | table =>
    simp only [tokens, List.cons_append, List.append_assoc, List.cons.injEq, true_and,
      List.nil_append] at same
    obtain ⟨rfl, _, behind⟩ := inner'.delimited (ends_of (by simp)) (ends_of (by simp)) same
    exact ⟨rfl, behind⟩
  | parens | list | dict => cases (List.cons.inj same).1

theorem determined (tree : Derivation category) : tree.Determined := by
  induction tree with
  | conditional _ _ _ condition thenDo elseDo =>
    exact determined_conditional condition thenDo elseDo
  | piped _ _ base steps => exact determined_piped base steps
  | stepsNil => exact determined_stepsNil
  | stepsCons _ _ step rest => exact determined_stepsCons step rest
  | call _ _ _ arguments => exact determined_call arguments
  | entriesNil => exact determined_entriesNil
  | entriesLast _ _ value => exact determined_entriesLast value
  | entriesCons _ _ _ value rest => exact determined_entriesCons value rest
  | valuesNil => exact determined_valuesNil
  | valuesLast _ value => exact determined_valuesLast value
  | valuesCons _ _ value rest => exact determined_valuesCons value rest
  | chain _ _ left rest => exact determined_chain left rest
  | linksNil => exact determined_linksNil
  | linksCons _ _ _ _ right rest => exact determined_linksCons right rest
  | single _ operand => exact determined_single operand
  | comparison _ _ _ _ left right => exact determined_comparison left right
  | access _ _ on rest => exact determined_access on rest
  | accessesNil => exact determined_accessesNil
  | accessesLookup _ _ rest => exact determined_accessesLookup rest
  | accessesIndex _ _ index rest => exact determined_accessesIndex index rest
  | atom value => exact determined_atom value
  | parens _ inner => exact determined_parens inner
  | list _ items => exact determined_list items
  | dict _ items => exact determined_dict items
  | table _ inner => exact determined_table inner

end Derivation

namespace QueryDerivation

theorem expression_ne_identifier (tree : Derivation .expression) {name : String}
    {rest rest' : List Token} : tree.tokens ++ rest ≠ .identifier name :: rest' := by
  intro same
  rcases tree.expression_begins same with begins | isIf
  · cases begins
  · cases isIf

/-- No two derivations have the same tokens. -/
theorem tokens_injective : Function.Injective tokens := by
  rintro ⟨statements, final⟩ ⟨statements', final'⟩ same
  simp only [tokens] at same
  induction statements generalizing statements' with
  | nil =>
    cases statements' with
    | nil =>
      rw [List.flatMap_nil, List.nil_append, List.nil_append, ← List.append_nil final.tokens,
        ← List.append_nil final'.tokens] at same
      obtain ⟨rfl, _⟩ := final.determined _ _ _ same (ends_of (by simp [ahead]))
        (ends_of (by simp [ahead]))
      rfl
    | cons statement rest =>
      rw [List.flatMap_nil, List.nil_append, ← List.append_nil final.tokens] at same
      exact absurd same (expression_ne_identifier final)
  | cons statement rest ih =>
    cases statements' with
    | nil =>
      rw [List.flatMap_nil, List.nil_append, ← List.append_nil final'.tokens] at same
      exact absurd same.symm (expression_ne_identifier final')
    | cons statement' rest' =>
      obtain ⟨name, body⟩ := statement
      obtain ⟨name', body'⟩ := statement'
      simp only [List.flatMap_cons, StatementDerivation.tokens, List.cons_append,
        List.append_assoc, List.cons.injEq, Token.identifier.injEq, true_and,
        List.nil_append] at same
      obtain ⟨rfl, same⟩ := same
      obtain ⟨rfl, _, same₁⟩ :=
        body.determined.delimited (ends_of (by simp)) (ends_of (by simp)) same
      cases ih rest' same₁
      rfl

end QueryDerivation

end QueryGraph.Grammar
