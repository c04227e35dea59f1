import Mathlib.Computability.Language
import QueryGraph.Proofs.Unambiguity

namespace QueryGraph

open QueryGraph.Grammar QueryGraph.Parser

/-- A token with nothing behind it. -/
def Token.alone (token : Token) : Language Token :=
  {[token]}

theorem Token.mem_alone_mul {token : Token} {after : Language Token} {tokens : List Token} :
    tokens ∈ token.alone * after ↔ ∃ rest ∈ after, tokens = token :: rest := by
  rw [Language.mem_mul]
  constructor
  · rintro ⟨_, rfl, rest, member, rfl⟩
    exact ⟨rest, member, rfl⟩
  · rintro ⟨rest, member, rfl⟩
    exact ⟨[token], rfl, rest, member, rfl⟩

namespace Grammar

def Category.language (category : Category) : Language Token :=
  Set.range fun tree : Derivation category => tree.tokens

theorem Derivation.mem_language {category : Category} (tree : Derivation category) :
    tree.tokens ∈ category.language :=
  ⟨tree, rfl⟩

def keys : Language Token :=
  Set.range fun key : Key => [key.token]

def operators (level : ChainLevel) : Language Token :=
  {tokens | ∃ op : Operator, op.precedence = level.precedence ∧ tokens = [.operator op]}

def comparisons : Language Token :=
  {tokens | ∃ op : Operator, op.isComparison = true ∧ tokens = [.operator op]}

/-- What a minus sign may stand before. -/
def numbers : Language Token :=
  {tokens | (∃ digits ≤ 2 ^ 63, tokens = [.integer digits]) ∨ ∃ value, tokens = [.float value]}

theorem expression_eq : Category.expression.language =
    Token.alone (.keyword .ifWord) * (Category.expression.language *
      (Token.alone (.keyword .thenWord) * (Category.expression.language *
        (Token.alone (.keyword .elseWord) * Category.expression.language)))) +
    (Category.operand (.chain .disjunction)).language * Category.steps.language := by
  ext tokens
  simp only [Language.mem_add, Language.mem_mul]
  constructor
  · rintro ⟨tree, rfl⟩
    cases tree with
    | conditional condition thenDo elseDo =>
      exact Or.inl ⟨_, rfl, _, ⟨_, condition.mem_language, _, ⟨_, rfl, _, ⟨_, thenDo.mem_language,
        _, ⟨_, rfl, _, elseDo.mem_language, rfl⟩, rfl⟩, rfl⟩, rfl⟩, rfl⟩
    | piped base steps => exact Or.inr ⟨_, base.mem_language, _, steps.mem_language, rfl⟩
  · rintro (⟨_, rfl, _, ⟨_, ⟨condition, rfl⟩, _, ⟨_, rfl, _, ⟨_, ⟨thenDo, rfl⟩, _, ⟨_, rfl, _,
      ⟨elseDo, rfl⟩, rfl⟩, rfl⟩, rfl⟩, rfl⟩, rfl⟩ | ⟨_, ⟨base, rfl⟩, _, ⟨steps, rfl⟩, rfl⟩)
    · exact (Derivation.conditional condition thenDo elseDo).mem_language
    · exact (Derivation.piped base steps).mem_language

theorem steps_eq : Category.steps.language =
    1 + Token.alone .pipe * (Category.call.language * Category.steps.language) := by
  ext tokens
  simp only [Language.mem_add, Language.mem_one, Language.mem_mul]
  constructor
  · rintro ⟨tree, rfl⟩
    cases tree with
    | stepsNil => exact Or.inl rfl
    | stepsCons step rest =>
      exact Or.inr ⟨_, rfl, _, ⟨_, step.mem_language, _, rest.mem_language, rfl⟩, rfl⟩
  · rintro (rfl | ⟨_, rfl, _, ⟨_, ⟨step, rfl⟩, _, ⟨rest, rfl⟩, rfl⟩, rfl⟩)
    · exact Derivation.stepsNil.mem_language
    · exact (Derivation.stepsCons step rest).mem_language

theorem call_eq : Category.call.language =
    keys * (Token.alone .dot * (keys * (Token.alone .leftParen *
      (Category.entries .rightParen).language))) := by
  ext tokens
  simp only [Language.mem_mul]
  constructor
  · rintro ⟨tree, rfl⟩
    cases tree with
    | call space name arguments =>
      exact ⟨_, ⟨space, rfl⟩, _, ⟨_, rfl, _, ⟨_, ⟨name, rfl⟩, _, ⟨_, rfl, _,
        arguments.mem_language, rfl⟩, rfl⟩, rfl⟩, rfl⟩
  · rintro ⟨_, ⟨space, rfl⟩, _, ⟨_, rfl, _, ⟨_, ⟨name, rfl⟩, _, ⟨_, rfl, _, ⟨arguments, rfl⟩, rfl⟩,
      rfl⟩, rfl⟩, rfl⟩
    exact (Derivation.call space name arguments).mem_language

theorem entries_eq (close : Token) : (Category.entries close).language =
    close.alone + keys * (Token.alone .assign * (Category.expression.language *
      (close.alone + Token.alone .comma * (Category.entries close).language))) := by
  ext tokens
  simp only [Language.mem_add, Language.mem_mul]
  constructor
  · rintro ⟨tree, rfl⟩
    cases tree with
    | entriesNil => exact Or.inl rfl
    | entriesLast key value =>
      exact Or.inr ⟨_, ⟨key, rfl⟩, _, ⟨_, rfl, _, ⟨_, value.mem_language, _, Or.inl rfl, rfl⟩,
        rfl⟩, rfl⟩
    | entriesCons key value rest =>
      exact Or.inr ⟨_, ⟨key, rfl⟩, _, ⟨_, rfl, _, ⟨_, value.mem_language, _,
        Or.inr ⟨_, rfl, _, rest.mem_language, rfl⟩, rfl⟩, rfl⟩, rfl⟩
  · rintro (rfl | ⟨_, ⟨key, rfl⟩, _, ⟨_, rfl, _, ⟨_, ⟨value, rfl⟩, _,
      (rfl | ⟨_, rfl, _, ⟨rest, rfl⟩, rfl⟩), rfl⟩, rfl⟩, rfl⟩)
    · exact Derivation.entriesNil.mem_language
    · exact (Derivation.entriesLast key value).mem_language
    · exact (Derivation.entriesCons key value rest).mem_language

theorem values_eq : Category.values.language =
    Token.alone .rightBracket + Category.expression.language *
      (Token.alone .rightBracket + Token.alone .comma * Category.values.language) := by
  ext tokens
  simp only [Language.mem_add, Language.mem_mul]
  constructor
  · rintro ⟨tree, rfl⟩
    cases tree with
    | valuesNil => exact Or.inl rfl
    | valuesLast value => exact Or.inr ⟨_, value.mem_language, _, Or.inl rfl, rfl⟩
    | valuesCons value rest =>
      exact Or.inr ⟨_, value.mem_language, _, Or.inr ⟨_, rfl, _, rest.mem_language, rfl⟩, rfl⟩
  · rintro (rfl | ⟨_, ⟨value, rfl⟩, _, (rfl | ⟨_, rfl, _, ⟨rest, rfl⟩, rfl⟩), rfl⟩)
    · exact Derivation.valuesNil.mem_language
    · exact (Derivation.valuesLast value).mem_language
    · exact (Derivation.valuesCons value rest).mem_language

theorem chain_eq (level : ChainLevel) : (Category.operand (.chain level)).language =
    (Category.operand level.operand).language * (Category.links level).language := by
  ext tokens
  simp only [Language.mem_mul]
  constructor
  · rintro ⟨tree, rfl⟩
    cases tree with
    | chain left rest => exact ⟨_, left.mem_language, _, rest.mem_language, rfl⟩
  · rintro ⟨_, ⟨left, rfl⟩, _, ⟨rest, rfl⟩, rfl⟩
    exact (Derivation.chain left rest).mem_language

theorem links_eq (level : ChainLevel) : (Category.links level).language =
    1 + operators level * ((Category.operand level.operand).language *
      (Category.links level).language) := by
  ext tokens
  simp only [Language.mem_add, Language.mem_one, Language.mem_mul]
  constructor
  · rintro ⟨tree, rfl⟩
    cases tree with
    | linksNil => exact Or.inl rfl
    | linksCons op binds right rest =>
      exact Or.inr ⟨_, ⟨op, binds, rfl⟩, _, ⟨_, right.mem_language, _, rest.mem_language, rfl⟩, rfl⟩
  · rintro (rfl | ⟨_, ⟨op, binds, rfl⟩, _, ⟨_, ⟨right, rfl⟩, _, ⟨rest, rfl⟩, rfl⟩, rfl⟩)
    · exact Derivation.linksNil.mem_language
    · exact (Derivation.linksCons op binds right rest).mem_language

theorem comparison_eq : (Category.operand .comparison).language =
    (Category.operand (.chain .sum)).language *
      (1 + comparisons * (Category.operand (.chain .sum)).language) := by
  ext tokens
  simp only [Language.mem_add, Language.mem_one, Language.mem_mul]
  constructor
  · rintro ⟨tree, rfl⟩
    cases tree with
    | single operand => exact ⟨_, operand.mem_language, _, Or.inl rfl, List.append_nil _⟩
    | comparison op compares left right =>
      exact ⟨_, left.mem_language, _, Or.inr ⟨_, ⟨op, compares, rfl⟩, _, right.mem_language, rfl⟩,
        rfl⟩
  · rintro ⟨_, ⟨left, rfl⟩, _, (rfl | ⟨_, ⟨op, compares, rfl⟩, _, ⟨right, rfl⟩, rfl⟩), rfl⟩
    · rw [List.append_nil]
      exact (Derivation.single left).mem_language
    · exact (Derivation.comparison op compares left right).mem_language

theorem access_eq : (Category.operand .access).language =
    (Category.operand .primary).language * Category.accesses.language := by
  ext tokens
  simp only [Language.mem_mul]
  constructor
  · rintro ⟨tree, rfl⟩
    cases tree with
    | access on rest => exact ⟨_, on.mem_language, _, rest.mem_language, rfl⟩
  · rintro ⟨_, ⟨on, rfl⟩, _, ⟨rest, rfl⟩, rfl⟩
    exact (Derivation.access on rest).mem_language

theorem accesses_eq : Category.accesses.language =
    1 + (Token.alone .dot * (keys * Category.accesses.language) +
      Token.alone .leftBracket * (Category.expression.language *
        (Token.alone .rightBracket * Category.accesses.language))) := by
  ext tokens
  simp only [Language.mem_add, Language.mem_one, Language.mem_mul]
  constructor
  · rintro ⟨tree, rfl⟩
    cases tree with
    | accessesNil => exact Or.inl rfl
    | accessesLookup key rest =>
      exact Or.inr (Or.inl ⟨_, rfl, _, ⟨_, ⟨key, rfl⟩, _, rest.mem_language, rfl⟩, rfl⟩)
    | accessesIndex index rest =>
      exact Or.inr (Or.inr ⟨_, rfl, _, ⟨_, index.mem_language, _, ⟨_, rfl, _, rest.mem_language,
        rfl⟩, rfl⟩, rfl⟩)
  · rintro (rfl | ⟨_, rfl, _, ⟨_, ⟨key, rfl⟩, _, ⟨rest, rfl⟩, rfl⟩, rfl⟩ |
      ⟨_, rfl, _, ⟨_, ⟨index, rfl⟩, _, ⟨_, rfl, _, ⟨rest, rfl⟩, rfl⟩, rfl⟩, rfl⟩)
    · exact Derivation.accessesNil.mem_language
    · exact (Derivation.accessesLookup key rest).mem_language
    · exact (Derivation.accessesIndex index rest).mem_language

/-- What may follow the first token of an operand without operators, if that has something behind
it. -/
def afterFirst (after : Language Token) : Token → Language Token
  | .integer digits => if digits < 2 ^ 63 then after else 0
  | .float _ | .string _ | .boolean _ | .reference _ | .placeholder => after
  | .operator .subtract => numbers * after
  | .leftParen => Category.expression.language * (Token.alone .rightParen * after)
  | .leftBracket => Category.values.language * after
  | .leftBrace => (Category.entries .rightBrace).language * after
  | .keyword .tableWord => Token.alone .leftParen *
      (Category.expression.language * (Token.alone .rightParen * after))
  | _ => 0

theorem mem_primary_mul {after : Language Token} {tokens : List Token} :
    tokens ∈ (Category.operand .primary).language * after ↔
      ∃ token rest, tokens = token :: rest ∧ rest ∈ afterFirst after token := by
  rw [Language.mem_mul]
  constructor
  · rintro ⟨_, ⟨tree, rfl⟩, rest, member, rfl⟩
    cases tree with
    | atom value =>
      cases value with
      | integer digits fits =>
        refine ⟨_, rest, rfl, ?_⟩
        rwa [afterFirst, if_pos fits]
      | negativeInteger digits fits =>
        exact ⟨_, _, rfl, _, Or.inl ⟨digits, fits, rfl⟩, _, member, rfl⟩
      | negativeFloat value => exact ⟨_, _, rfl, _, Or.inr ⟨value, rfl⟩, _, member, rfl⟩
      | float | string | boolean | reference | placeholder => exact ⟨_, rest, rfl, member⟩
    | parens inner =>
      exact ⟨_, _, rfl, _, inner.mem_language, _, ⟨_, rfl, _, member, rfl⟩, by simp⟩
    | list values => exact ⟨_, _, rfl, _, values.mem_language, _, member, rfl⟩
    | dict entries => exact ⟨_, _, rfl, _, entries.mem_language, _, member, rfl⟩
    | table inner =>
      exact ⟨_, _, rfl, _, rfl, _, ⟨_, inner.mem_language, _, ⟨_, rfl, _, member, rfl⟩, rfl⟩,
        by simp⟩
  · rintro ⟨token, rest, rfl, member⟩
    unfold afterFirst at member
    split at member
    · rename_i digits
      split at member
      · rename_i fits
        exact ⟨_, (Derivation.atom (.integer digits fits)).mem_language, rest, member, rfl⟩
      · exact absurd member (Language.notMem_zero _)
    · rename_i value
      exact ⟨_, (Derivation.atom (.float value)).mem_language, rest, member, rfl⟩
    · rename_i value
      exact ⟨_, (Derivation.atom (.string value)).mem_language, rest, member, rfl⟩
    · rename_i value
      exact ⟨_, (Derivation.atom (.boolean value)).mem_language, rest, member, rfl⟩
    · rename_i name
      exact ⟨_, (Derivation.atom (.reference name)).mem_language, rest, member, rfl⟩
    · exact ⟨_, (Derivation.atom .placeholder).mem_language, rest, member, rfl⟩
    · obtain ⟨_, ⟨digits, fits, rfl⟩ | ⟨value, rfl⟩, rest, member, rfl⟩ := member
      · exact ⟨_, (Derivation.atom (.negativeInteger digits fits)).mem_language, rest, member, rfl⟩
      · exact ⟨_, (Derivation.atom (.negativeFloat value)).mem_language, rest, member, rfl⟩
    · obtain ⟨_, ⟨inner, rfl⟩, _, ⟨_, rfl, rest, member, rfl⟩, rfl⟩ := member
      exact ⟨_, (Derivation.parens inner).mem_language, rest, member, by simp⟩
    · obtain ⟨_, ⟨values, rfl⟩, rest, member, rfl⟩ := member
      exact ⟨_, (Derivation.list values).mem_language, rest, member, rfl⟩
    · obtain ⟨_, ⟨entries, rfl⟩, rest, member, rfl⟩ := member
      exact ⟨_, (Derivation.dict entries).mem_language, rest, member, rfl⟩
    · obtain ⟨_, rfl, _, ⟨_, ⟨inner, rfl⟩, _, ⟨_, rfl, rest, member, rfl⟩, rfl⟩, rfl⟩ := member
      exact ⟨_, (Derivation.table inner).mem_language, rest, member, by simp⟩
    · exact absurd member (Language.notMem_zero _)

def names : Language Token :=
  Set.range fun name : String => [Token.identifier name]

def queries : Language Token :=
  Set.range QueryDerivation.tokens

theorem queries_eq : queries = names * (Token.alone .assign * (Category.expression.language *
    (Token.alone .semicolon * queries))) + Category.expression.language := by
  ext tokens
  simp only [Language.mem_add, Language.mem_mul]
  constructor
  · rintro ⟨⟨statements, final⟩, rfl⟩
    cases statements with
    | nil => exact Or.inr final.mem_language
    | cons statement rest =>
      refine Or.inl ⟨_, ⟨statement.name, rfl⟩, _, ⟨_, rfl, _, ⟨_, statement.body.mem_language, _,
        ⟨_, rfl, _, ⟨⟨rest, final⟩, rfl⟩, rfl⟩, rfl⟩, rfl⟩, ?_⟩
      simp [QueryDerivation.tokens, StatementDerivation.tokens]
  · rintro (⟨_, ⟨name, rfl⟩, _, ⟨_, rfl, _, ⟨_, ⟨body, rfl⟩, _, ⟨_, rfl, _, ⟨⟨rest, final⟩, rfl⟩,
      rfl⟩, rfl⟩, rfl⟩, rfl⟩ | ⟨final, rfl⟩)
    · refine ⟨⟨⟨name, body⟩ :: rest, final⟩, ?_⟩
      simp [QueryDerivation.tokens, StatementDerivation.tokens]
    · exact ⟨⟨[], final⟩, rfl⟩

section

variable {after : Language Token} {token : Token} {tokens : List Token}

theorem ahead_alone (member : tokens ∈ token.alone * after) : ahead tokens = token := by
  obtain ⟨rest, _, rfl⟩ := Token.mem_alone_mul.1 member
  rfl

theorem ahead_keys (member : tokens ∈ keys * after) : ∃ name, (ahead tokens).key? = some name := by
  obtain ⟨_, ⟨key, rfl⟩, rest, _, rfl⟩ := member
  exact ⟨key.name, key.isKey⟩

theorem ahead_expression (member : tokens ∈ Category.expression.language * after) :
    (ahead tokens).begins = true ∨ ahead tokens = .keyword .ifWord := by
  obtain ⟨_, ⟨tree, rfl⟩, rest, _, rfl⟩ := member
  have derives : QueryGraph.Derives (.expression tree.meaning) tree.tokens := tree.derives
  obtain ⟨first, more, same, begins⟩ := derives.expression_begins
  show (ahead (tree.tokens ++ rest)).begins = true ∨ ahead (tree.tokens ++ rest) = _
  rwa [same]

theorem ahead_operand {level : Level}
    (member : tokens ∈ (Category.operand level).language * after) :
    (ahead tokens).begins = true := by
  obtain ⟨_, ⟨tree, rfl⟩, rest, _, rfl⟩ := member
  have derives : QueryGraph.Derives (.operand level.precedence tree.meaning) tree.tokens :=
    tree.derives
  obtain ⟨first, more, same, begins⟩ := derives.operand_begins
  show (ahead (tree.tokens ++ rest)).begins = true
  rwa [same]

end

/-- A few tokens, enough of them to complete any phrase. -/
def isFiller : Token → Bool
  | .placeholder | .assign | .semicolon | .dot | .comma | .leftParen | .rightParen | .rightBracket
  | .rightBrace | .keyword _ => true
  | .identifier name => name == "x"
  | .integer digits => digits == 1
  | _ => false

/-- Whether some tokens of a language are nothing but fillers. -/
def Completable (language : Language Token) : Prop :=
  ∃ tokens ∈ language, ∀ token ∈ tokens, isFiller token = true

theorem completable_of_mem {language : Language Token} {tokens : List Token}
    (member : tokens ∈ language) (fillers : tokens.all isFiller = true) : Completable language :=
  ⟨tokens, member, List.all_eq_true.1 fillers⟩

namespace Completable

variable {language after : Language Token}

theorem mul (first : Completable language) (second : Completable after) :
    Completable (language * after) := by
  obtain ⟨tokens, member, fillers⟩ := first
  obtain ⟨tokens', member', fillers'⟩ := second
  exact ⟨tokens ++ tokens', Language.append_mem_mul member member',
    List.forall_mem_append.2 ⟨fillers, fillers'⟩⟩

theorem alone {token : Token} (isFiller' : isFiller token = true) : Completable token.alone :=
  ⟨[token], rfl, List.forall_mem_singleton.2 isFiller'⟩

theorem one : Completable 1 :=
  ⟨[], Language.nil_mem_one, nofun⟩

theorem left (completable : Completable language) : Completable (language + after) := by
  obtain ⟨tokens, member, fillers⟩ := completable
  exact ⟨tokens, Or.inl member, fillers⟩

theorem keys : Completable keys :=
  completable_of_mem ⟨⟨.identifier "x", "x", rfl⟩, rfl⟩ rfl

theorem numbers : Completable numbers :=
  completable_of_mem (Or.inl ⟨1, by decide, rfl⟩) rfl

theorem primary : Completable (Category.operand .primary).language :=
  completable_of_mem (Derivation.atom .placeholder).mem_language rfl

theorem accesses : Completable Category.accesses.language :=
  completable_of_mem Derivation.accessesNil.mem_language rfl

theorem links (level : ChainLevel) : Completable (Category.links level).language :=
  completable_of_mem Derivation.linksNil.mem_language rfl

theorem steps : Completable Category.steps.language :=
  completable_of_mem Derivation.stepsNil.mem_language rfl

theorem chain (level : ChainLevel)
    (operand : Completable (Category.operand level.operand).language) :
    Completable (Category.operand (.chain level)).language := by
  rw [chain_eq]
  exact operand.mul (links level)

theorem expression : Completable Category.expression.language := by
  have access : Completable (Category.operand .access).language := by
    rw [access_eq]
    exact primary.mul accesses
  have sum := chain .sum (chain .product access)
  have comparison : Completable (Category.operand .comparison).language := by
    rw [comparison_eq]
    exact sum.mul one.left
  obtain ⟨tokens, ⟨base, rfl⟩, fillers⟩ := chain .disjunction (chain .conjunction comparison)
  exact ⟨_, (Derivation.piped base .stepsNil).mem_language, by simpa using fillers⟩

theorem queries : Completable queries := by
  obtain ⟨_, ⟨final, rfl⟩, fillers⟩ := expression
  exact ⟨_, ⟨⟨[], final⟩, rfl⟩, fillers⟩

theorem values : Completable Category.values.language :=
  completable_of_mem Derivation.valuesNil.mem_language rfl

theorem entries {close : Token} (isFiller' : isFiller close = true) :
    Completable (Category.entries close).language :=
  ⟨[close], Derivation.entriesNil.mem_language, List.forall_mem_singleton.2 isFiller'⟩

end Completable

/-- Whether a phrase ends where something begins, and that can be completed. -/
structure Category.EndsBehind (category : Category) (after : Language Token) : Prop where
  ends : ∀ tokens ∈ after, category.EndsBefore (ahead tokens)
  completable : Completable after

namespace Category.EndsBehind

variable {category : Category} {after other : Language Token} {token : Token}

theorem add (left : category.EndsBehind after) (right : category.EndsBehind other) :
    category.EndsBehind (after + other) where
  ends := by
    rintro tokens (member | member)
    · exact left.ends tokens member
    · exact right.ends tokens member
  completable := left.completable.left

theorem alone (endsBefore : category.EndsBefore token) (isFiller' : isFiller token = true)
    (completable : Completable after) : category.EndsBehind (token.alone * after) where
  ends := by
    rintro _ ⟨_, rfl, rest, _, rfl⟩
    exact endsBefore
  completable := (Completable.alone isFiller').mul completable

theorem beforeSteps (behind : expression.EndsBehind after) :
    (operand (.chain .disjunction)).EndsBehind (steps.language * after) where
  ends := by
    rintro _ ⟨_, ⟨tree, rfl⟩, rest, member, rfl⟩
    exact tree.stops_steps (behind.ends rest member)
  completable := Completable.steps.mul behind.completable

theorem stepsEnd (behind : expression.EndsBehind after) : steps.EndsBehind after where
  ends tokens member := (behind.ends tokens member).2
  completable := behind.completable

theorem beforeLinks {level : ChainLevel} (behind : (operand (.chain level)).EndsBehind after) :
    (operand level.operand).EndsBehind ((links level).language * after) where
  ends := by
    rintro _ ⟨_, ⟨tree, rfl⟩, rest, member, rfl⟩
    exact tree.stops_links (behind.ends rest member)
  completable := (Completable.links level).mul behind.completable

theorem linksEnd {level : ChainLevel} (behind : (operand (.chain level)).EndsBehind after) :
    (links level).EndsBehind after where
  ends := behind.ends
  completable := behind.completable

theorem beforeComparison (behind : (operand .comparison).EndsBehind after) :
    (operand (.chain .sum)).EndsBehind
      (after + comparisons * ((operand (.chain .sum)).language * after)) where
  ends := by
    rintro _ (member | ⟨_, ⟨op, compares, rfl⟩, rest, _, rfl⟩)
    · exact stops_succ (behind.ends _ member)
    · exact Derivation.stops_comparison compares rest
  completable := behind.completable.left

theorem comparedEnd (behind : (operand .comparison).EndsBehind after) :
    (operand (.chain .sum)).EndsBehind after where
  ends tokens member := stops_succ (behind.ends tokens member)
  completable := behind.completable

theorem beforeAccesses (behind : (operand .access).EndsBehind after) :
    (operand .primary).EndsBehind (accesses.language * after) where
  ends _ _ := stops_atom _
  completable := Completable.accesses.mul behind.completable

theorem accessesEnd (behind : (operand .access).EndsBehind after) :
    accesses.EndsBehind after where
  ends := behind.ends
  completable := behind.completable

end Category.EndsBehind

end Grammar

end QueryGraph
