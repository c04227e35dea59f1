import QueryGraph.Proofs.Parsing

namespace QueryGraph.Grammar

open QueryGraph.Number QueryGraph.Parser

/-- The levels of operators that chain, from the weakest to the strongest. -/
inductive ChainLevel where
  | disjunction
  | conjunction
  | sum
  | product

/-- The levels of operands, named for what may stand there without brackets. -/
inductive Level where
  | chain (level : ChainLevel)
  | comparison
  | access
  | primary

def ChainLevel.precedence : ChainLevel → Nat
  | disjunction => Operator.or.precedence
  | conjunction => Operator.and.precedence
  | sum => Operator.add.precedence
  | product => Operator.multiply.precedence

/-- The level of what the operators of a level connect. -/
def ChainLevel.operand : ChainLevel → Level
  | disjunction => .chain .conjunction
  | conjunction => .comparison
  | sum => .chain .product
  | product => .access

def Level.precedence : Level → Nat
  | chain level => level.precedence
  | comparison => Operator.equal.precedence
  | access => Operator.postfixPrecedence
  | primary => Operator.atomPrecedence

theorem ChainLevel.mem_chainLevels (level : ChainLevel) : level.precedence ∈ chainLevels := by
  cases level <;> simp [precedence, chainLevels]

theorem ChainLevel.precedence_operand (level : ChainLevel) :
    level.operand.precedence = level.precedence + 1 := by
  cases level <;> rfl

/-- The kinds of phrases of the grammar. -/
inductive Category where
  | expression
  | operand (level : Level)
  /-- Operators of one level behind an operand, each with the operand on its right. -/
  | links (level : ChainLevel)
  /-- Lookups and indexings behind an operand. -/
  | accesses
  | steps
  | call
  /-- The values of a list up to and including the closing bracket. -/
  | values
  /-- Entries up to and including a closing token. -/
  | entries (close : Token)

/-- A token that stands for a key. -/
structure Key where
  token : Token
  name : String
  isKey : token.key? = some name

theorem Key.eq_of_token {key key' : Key} (same : key.token = key'.token) : key = key' := by
  obtain ⟨token, name, isKey⟩ := key
  obtain ⟨token', name', isKey'⟩ := key'
  cases same
  cases isKey.symm.trans isKey'
  rfl

/-- What is an operand all by itself. -/
inductive Atom where
  | integer (digits : Nat) (fits : digits < 2 ^ 63)
  | negativeInteger (digits : Nat) (fits : digits ≤ 2 ^ 63)
  | float (value : Double)
  | negativeFloat (value : Double)
  | string (value : String)
  | boolean (value : Bool)
  | reference (name : String)
  | placeholder

/-- The derivations of each kind of phrase, with one constructor for each rule. -/
inductive Derivation : Category → Type where
  | conditional (condition thenDo elseDo : Derivation .expression) : Derivation .expression
  | piped (base : Derivation (.operand (.chain .disjunction))) (steps : Derivation .steps) :
      Derivation .expression
  | stepsNil : Derivation .steps
  | stepsCons (step : Derivation .call) (rest : Derivation .steps) : Derivation .steps
  | call (space name : Key) (arguments : Derivation (.entries .rightParen)) : Derivation .call
  | entriesNil {close : Token} : Derivation (.entries close)
  | entriesLast {close : Token} (key : Key) (value : Derivation .expression) :
      Derivation (.entries close)
  | entriesCons {close : Token} (key : Key) (value : Derivation .expression)
      (rest : Derivation (.entries close)) : Derivation (.entries close)
  | valuesNil : Derivation .values
  | valuesLast (value : Derivation .expression) : Derivation .values
  | valuesCons (value : Derivation .expression) (rest : Derivation .values) : Derivation .values
  | chain {level : ChainLevel} (left : Derivation (.operand level.operand))
      (rest : Derivation (.links level)) : Derivation (.operand (.chain level))
  | linksNil {level : ChainLevel} : Derivation (.links level)
  | linksCons {level : ChainLevel} (op : Operator) (binds : op.precedence = level.precedence)
      (right : Derivation (.operand level.operand)) (rest : Derivation (.links level)) :
      Derivation (.links level)
  | single (operand : Derivation (.operand (.chain .sum))) : Derivation (.operand .comparison)
  | comparison (op : Operator) (compares : op.isComparison = true)
      (left right : Derivation (.operand (.chain .sum))) : Derivation (.operand .comparison)
  | access (on : Derivation (.operand .primary)) (rest : Derivation .accesses) :
      Derivation (.operand .access)
  | accessesNil : Derivation .accesses
  | accessesLookup (key : Key) (rest : Derivation .accesses) : Derivation .accesses
  | accessesIndex (index : Derivation .expression) (rest : Derivation .accesses) :
      Derivation .accesses
  | atom (atom : Atom) : Derivation (.operand .primary)
  | parens (inner : Derivation .expression) : Derivation (.operand .primary)
  | list (values : Derivation .values) : Derivation (.operand .primary)
  | dict (entries : Derivation (.entries .rightBrace)) : Derivation (.operand .primary)
  | table (inner : Derivation .expression) : Derivation (.operand .primary)

def Atom.tokens : Atom → List Token
  | integer digits _ => [.integer digits]
  | negativeInteger digits _ => [.operator .subtract, .integer digits]
  | float value => [.float value]
  | negativeFloat value => [.operator .subtract, .float value]
  | string value => [.string value]
  | boolean value => [.boolean value]
  | reference name => [.reference name]
  | placeholder => [.placeholder]

def Atom.expr : Atom → Expr
  | integer digits _ => .atom (.int (Int64.ofInt digits))
  | negativeInteger digits _ => .atom (.int (Int64.ofInt (-digits)))
  | float value => .atom (.double value)
  | negativeFloat value => .atom (.double value.neg)
  | string value => .atom (.string value)
  | boolean value => .atom (.bool value)
  | reference name => .reference name
  | placeholder => .placeholder

/-- What phrases of a kind denote. What goes on with an expression, or with entries, denotes what
becomes of them. -/
def Category.Meaning : Category → Type
  | expression | operand _ => Expr
  | links _ | accesses => Expr → Expr
  | steps => List Call
  | call => Call
  | values => List Expr
  | entries _ => Entries Expr → Entries Expr

namespace Derivation

/-- The tokens that are derived. -/
@[simp] def tokens {category : Category} : Derivation category → List Token
  | conditional condition thenDo elseDo =>
    .keyword .ifWord :: (condition.tokens ++ .keyword .thenWord ::
      (thenDo.tokens ++ .keyword .elseWord :: elseDo.tokens))
  | piped base steps => base.tokens ++ steps.tokens
  | stepsNil => []
  | stepsCons step rest => .pipe :: (step.tokens ++ rest.tokens)
  | call space name arguments =>
    space.token :: .dot :: name.token :: .leftParen :: arguments.tokens
  | @entriesNil close => [close]
  | @entriesLast close key value => key.token :: .assign :: (value.tokens ++ [close])
  | entriesCons key value rest => key.token :: .assign :: (value.tokens ++ .comma :: rest.tokens)
  | valuesNil => [.rightBracket]
  | valuesLast value => value.tokens ++ [.rightBracket]
  | valuesCons value rest => value.tokens ++ .comma :: rest.tokens
  | chain left rest => left.tokens ++ rest.tokens
  | linksNil => []
  | linksCons op _ right rest => .operator op :: (right.tokens ++ rest.tokens)
  | single operand => operand.tokens
  | comparison op _ left right => left.tokens ++ .operator op :: right.tokens
  | access on rest => on.tokens ++ rest.tokens
  | accessesNil => []
  | accessesLookup key rest => .dot :: key.token :: rest.tokens
  | accessesIndex index rest =>
    .leftBracket :: (index.tokens ++ .rightBracket :: rest.tokens)
  | atom value => value.tokens
  | parens inner => .leftParen :: (inner.tokens ++ [.rightParen])
  | list values => .leftBracket :: values.tokens
  | dict entries => .leftBrace :: entries.tokens
  | table inner => .keyword .tableWord :: .leftParen :: (inner.tokens ++ [.rightParen])

/-- What the tokens denote. -/
def meaning {category : Category} : Derivation category → category.Meaning
  | conditional condition thenDo elseDo =>
    Expr.conditional condition.meaning thenDo.meaning elseDo.meaning
  | piped base steps =>
    match steps.meaning with
    | [] => base.meaning
    | calls => Expr.pipeline base.meaning calls
  | stepsNil => []
  | stepsCons step rest => List.cons step.meaning rest.meaning
  | call space name arguments =>
    { operand := none, space := space.name, name := name.name, arguments := arguments.meaning [] }
  | entriesNil => id
  | entriesLast key value => fun sofar => sofar.insert key.name value.meaning
  | entriesCons key value rest => fun sofar => rest.meaning (sofar.insert key.name value.meaning)
  | valuesNil => []
  | valuesLast value => [value.meaning]
  | valuesCons value rest => List.cons value.meaning rest.meaning
  | chain left rest => rest.meaning left.meaning
  | linksNil => id
  | linksCons op _ right rest => fun left => rest.meaning (.ofOperator left op right.meaning)
  | single operand => operand.meaning
  | comparison op _ left right => Expr.ofOperator left.meaning op right.meaning
  | access on rest => rest.meaning on.meaning
  | accessesNil => id
  | accessesLookup key rest => fun on => rest.meaning (.lookup on key.name)
  | accessesIndex index rest => fun on => rest.meaning (.ofOperator on .index index.meaning)
  | atom value => value.expr
  | parens inner => inner.meaning
  | list values => Expr.list values.meaning
  | dict entries => Expr.dict (entries.meaning [])
  | table inner => Expr.table inner.meaning

end Derivation

/-- Whether tokens can be derived as a phrase of some kind with some meaning. -/
def Category.Derives : (category : Category) → category.Meaning → List Token → Prop
  | expression, expr, tokens => QueryGraph.Derives (.expression expr) tokens
  | operand level, expr, tokens => QueryGraph.Derives (.operand level.precedence expr) tokens
  | links level, result, tokens =>
    ∀ left, QueryGraph.Derives (.links level.precedence left (result left)) tokens
  | accesses, result, tokens => ∀ on, QueryGraph.Derives (.accesses on (result on)) tokens
  | steps, calls, tokens => QueryGraph.Derives (.steps calls) tokens
  | call, step, tokens => QueryGraph.Derives (.call step) tokens
  | values, items, tokens => QueryGraph.Derives (.values items) tokens
  | entries close, result, tokens =>
    ∀ sofar, QueryGraph.Derives (.entries close sofar (result sofar)) tokens

theorem Atom.derives (atom : Atom) :
    QueryGraph.Derives (.operand Operator.atomPrecedence atom.expr) atom.tokens := by
  cases atom with
  | integer digits fits => exact .integer fits
  | negativeInteger digits fits => exact .negativeInteger fits
  | float value => exact .float value
  | negativeFloat value => exact .negativeFloat value
  | string value => exact .string value
  | boolean value => exact .boolean value
  | reference name => exact .reference name
  | placeholder => exact .placeholder

namespace Derivation

theorem derives {category : Category} (tree : Derivation category) :
    category.Derives tree.meaning tree.tokens := by
  induction tree with
  | conditional _ _ _ condition thenDo elseDo => exact .conditional condition thenDo elseDo
  | piped base steps base' steps' =>
    cases steps with
    | stepsNil =>
      show QueryGraph.Derives (.expression base.meaning) (base.tokens ++ [])
      rw [List.append_nil]
      exact .plain base'
    | stepsCons step rest => exact .pipeline base' steps'
  | stepsNil => exact .stepsNil
  | stepsCons _ _ step rest => exact .stepsCons step rest
  | call space name _ arguments => exact .call space.isKey name.isKey (arguments [])
  | entriesNil => exact fun _ => .entriesNil
  | entriesLast key _ value => exact fun _ => .entriesLast key.isKey value
  | entriesCons key _ _ value rest => exact fun _ => .entriesCons key.isKey value (rest _)
  | valuesNil => exact .valuesNil
  | valuesLast _ value => exact .valuesLast value
  | valuesCons _ _ value rest => exact .valuesCons value rest
  | @chain level _ _ left rest =>
    exact .chain level.mem_chainLevels (level.precedence_operand ▸ left) (rest _)
  | linksNil => exact fun _ => .linksNil
  | @linksCons level op binds _ _ right rest =>
    exact fun _ => .linksCons binds (level.precedence_operand ▸ right) (rest _)
  | single _ operand => exact .single operand
  | comparison op compares _ _ left right => exact .comparison compares left right
  | access _ _ on rest => exact .access on (rest _)
  | accessesNil => exact fun _ => .accessesNil
  | accessesLookup key _ rest => exact fun _ => .accessesLookup key.isKey (rest _)
  | accessesIndex _ _ index rest => exact fun _ => .accessesIndex index (rest _)
  | atom value => exact value.derives
  | parens _ inner => exact .parens inner
  | list _ values => exact .list values
  | dict _ entries => exact .dict (entries [])
  | table _ inner => exact .table inner

end Derivation

/-- Whether phrases of a kind do not include the end of the text. -/
def Category.Inner : Category → Prop
  | entries close => Token.endOfInput ≠ close
  | _ => True

theorem Key.endOfInput_ne (key : Key) : Token.endOfInput ≠ key.token := by
  intro same
  have isKey := key.isKey
  rw [← same] at isKey
  cases isKey

theorem Derivation.endOfInput_not_mem {category : Category} (tree : Derivation category)
    (inner : category.Inner) : .endOfInput ∉ tree.tokens := by
  induction tree with
  | atom value => cases value <;> simp [Atom.tokens]
  | _ => simp_all [Category.Inner, Key.endOfInput_ne]

structure StatementDerivation where
  name : String
  body : Derivation .expression

def StatementDerivation.tokens (tree : StatementDerivation) : List Token :=
  .identifier tree.name :: .assign :: (tree.body.tokens ++ [.semicolon])

def StatementDerivation.statement (tree : StatementDerivation) : Statement Expr :=
  ⟨tree.name, tree.body.meaning⟩

/-- The derivations of queries. -/
structure QueryDerivation where
  statements : List StatementDerivation
  final : Derivation .expression

namespace QueryDerivation

def tokens (tree : QueryDerivation) : List Token :=
  tree.statements.flatMap StatementDerivation.tokens ++ tree.final.tokens

def query (tree : QueryDerivation) : Query where
  statements := tree.statements.map StatementDerivation.statement
  final := tree.final.meaning

theorem derives (tree : QueryDerivation) : tree.query.Derives tree.tokens := by
  refine .intro ?_ tree.final.derives
  simp only [query]
  induction tree.statements with
  | nil => exact .nil
  | cons statement rest ih =>
    have first : QueryGraph.Derives (.expression statement.body.meaning) statement.body.tokens :=
      statement.body.derives
    have more : DerivesStatements (statement.statement :: _) _ := .cons first ih
    simpa [StatementDerivation.tokens, StatementDerivation.statement] using more

theorem endOfInput_not_mem (tree : QueryDerivation) : .endOfInput ∉ tree.tokens := by
  rw [tokens, List.mem_append, List.mem_flatMap, not_or]
  constructor
  · rintro ⟨statement, _, inside⟩
    simp [StatementDerivation.tokens, statement.body.endOfInput_not_mem trivial] at inside
  · exact tree.final.endOfInput_not_mem trivial

end QueryDerivation

end QueryGraph.Grammar
