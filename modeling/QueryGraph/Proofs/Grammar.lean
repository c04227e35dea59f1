import Mathlib.Algebra.Group.Nat.Defs
import QueryGraph.Parser

namespace QueryGraph

open QueryGraph.Parser

/-- What pieces of a query denote. -/
inductive Phrase where
  | expression (expr : Expr)
  /-- An expression in which no operator outside brackets binds weaker than the level says. -/
  | operand (level : Nat) (expr : Expr)
  /-- Operators of one level behind an expression, and the expression that comes of it. -/
  | links (level : Nat) (left expr : Expr)
  /-- Lookups and indexings behind an expression, and the expression that comes of it. -/
  | accesses (on expr : Expr)
  | steps (calls : List Call)
  | call (call : Call)
  /-- The values of a list up to and including the closing bracket. -/
  | values (values : List Expr)
  /-- Entries up to and including a closing token, added to those that are there. -/
  | entries (close : Token) (sofar result : Entries Expr)

/-- The levels of operators that chain. -/
def chainLevels : List Nat :=
  [Operator.or.precedence, Operator.and.precedence, Operator.add.precedence,
    Operator.multiply.precedence]

inductive Derives : Phrase → List Token → Prop where
  | conditional {condition thenDo elseDo : Expr} {first second third : List Token}
      (condition' : Derives (.expression condition) first)
      (thenDo' : Derives (.expression thenDo) second)
      (elseDo' : Derives (.expression elseDo) third) :
      Derives (.expression (.conditional condition thenDo elseDo))
        (.keyword .ifWord :: (first ++ .keyword .thenWord ::
          (second ++ .keyword .elseWord :: third)))
  | plain {expr : Expr} {tokens : List Token}
      (base : Derives (.operand Operator.or.precedence expr) tokens) :
      Derives (.expression expr) tokens
  | pipeline {base : Expr} {call : Call} {calls : List Call} {first second : List Token}
      (base' : Derives (.operand Operator.or.precedence base) first)
      (steps : Derives (.steps (call :: calls)) second) :
      Derives (.expression (.pipeline base (call :: calls))) (first ++ second)
  | stepsNil : Derives (.steps []) []
  | stepsCons {call : Call} {calls : List Call} {first second : List Token}
      (step : Derives (.call call) first) (rest : Derives (.steps calls) second) :
      Derives (.steps (call :: calls)) (.pipe :: (first ++ second))
  | call {space name : String} {spaceToken nameToken : Token} {arguments : Entries Expr}
      {tokens : List Token} (spaceKey : spaceToken.key? = some space)
      (nameKey : nameToken.key? = some name)
      (entries : Derives (.entries .rightParen [] arguments) tokens) :
      Derives (.call { operand := none, space, name, arguments })
        (spaceToken :: .dot :: nameToken :: .leftParen :: tokens)
  | entriesNil {close : Token} {sofar : Entries Expr} :
      Derives (.entries close sofar sofar) [close]
  | entriesLast {close token : Token} {sofar : Entries Expr} {key : String} {value : Expr}
      {tokens : List Token} (isKey : token.key? = some key)
      (value' : Derives (.expression value) tokens) :
      Derives (.entries close sofar (sofar.insert key value))
        (token :: .assign :: (tokens ++ [close]))
  | entriesCons {close token : Token} {sofar result : Entries Expr} {key : String} {value : Expr}
      {first second : List Token} (isKey : token.key? = some key)
      (value' : Derives (.expression value) first)
      (rest : Derives (.entries close (sofar.insert key value) result) second) :
      Derives (.entries close sofar result) (token :: .assign :: (first ++ .comma :: second))
  | valuesNil : Derives (.values []) [.rightBracket]
  | valuesLast {value : Expr} {tokens : List Token} (value' : Derives (.expression value) tokens) :
      Derives (.values [value]) (tokens ++ [.rightBracket])
  | valuesCons {value : Expr} {values : List Expr} {first second : List Token}
      (value' : Derives (.expression value) first) (rest : Derives (.values values) second) :
      Derives (.values (value :: values)) (first ++ .comma :: second)
  | chain {level : Nat} {left expr : Expr} {first second : List Token}
      (chains : level ∈ chainLevels) (left' : Derives (.operand (level + 1) left) first)
      (rest : Derives (.links level left expr) second) :
      Derives (.operand level expr) (first ++ second)
  | linksNil {level : Nat} {left : Expr} : Derives (.links level left left) []
  | linksCons {level : Nat} {left right expr : Expr} {op : Operator} {first second : List Token}
      (binds : op.precedence = level) (right' : Derives (.operand (level + 1) right) first)
      (rest : Derives (.links level (.ofOperator left op right) expr) second) :
      Derives (.links level left expr) (.operator op :: (first ++ second))
  | single {expr : Expr} {tokens : List Token}
      (operand : Derives (.operand Operator.add.precedence expr) tokens) :
      Derives (.operand Operator.equal.precedence expr) tokens
  | comparison {left right : Expr} {op : Operator} {first second : List Token}
      (compares : op.isComparison = true)
      (left' : Derives (.operand Operator.add.precedence left) first)
      (right' : Derives (.operand Operator.add.precedence right) second) :
      Derives (.operand Operator.equal.precedence (.ofOperator left op right))
        (first ++ .operator op :: second)
  | access {on expr : Expr} {first second : List Token}
      (on' : Derives (.operand Operator.atomPrecedence on) first)
      (rest : Derives (.accesses on expr) second) :
      Derives (.operand Operator.postfixPrecedence expr) (first ++ second)
  | accessesNil {on : Expr} : Derives (.accesses on on) []
  | accessesLookup {on expr : Expr} {token : Token} {key : String} {tokens : List Token}
      (isKey : token.key? = some key) (rest : Derives (.accesses (.lookup on key) expr) tokens) :
      Derives (.accesses on expr) (.dot :: token :: tokens)
  | accessesIndex {on index expr : Expr} {first second : List Token}
      (index' : Derives (.expression index) first)
      (rest : Derives (.accesses (.ofOperator on .index index) expr) second) :
      Derives (.accesses on expr) (.leftBracket :: (first ++ .rightBracket :: second))
  | integer {digits : Nat} (fits : digits < 2 ^ 63) :
      Derives (.operand Operator.atomPrecedence (.atom (.int (Int64.ofInt digits))))
        [.integer digits]
  | negativeInteger {digits : Nat} (fits : digits ≤ 2 ^ 63) :
      Derives (.operand Operator.atomPrecedence (.atom (.int (Int64.ofInt (-digits)))))
        [.operator .subtract, .integer digits]
  | float (value : Number.Double) :
      Derives (.operand Operator.atomPrecedence (.atom (.double value))) [.float value]
  | negativeFloat (value : Number.Double) :
      Derives (.operand Operator.atomPrecedence (.atom (.double value.neg)))
        [.operator .subtract, .float value]
  | string (value : String) :
      Derives (.operand Operator.atomPrecedence (.atom (.string value))) [.string value]
  | boolean (value : Bool) :
      Derives (.operand Operator.atomPrecedence (.atom (.bool value))) [.boolean value]
  | reference (name : String) :
      Derives (.operand Operator.atomPrecedence (.reference name)) [.reference name]
  | placeholder : Derives (.operand Operator.atomPrecedence .placeholder) [.placeholder]
  | parens {expr : Expr} {tokens : List Token} (inner : Derives (.expression expr) tokens) :
      Derives (.operand Operator.atomPrecedence expr) (.leftParen :: (tokens ++ [.rightParen]))
  | list {values : List Expr} {tokens : List Token} (values' : Derives (.values values) tokens) :
      Derives (.operand Operator.atomPrecedence (.list values)) (.leftBracket :: tokens)
  | dict {entries : Entries Expr} {tokens : List Token}
      (entries' : Derives (.entries .rightBrace [] entries) tokens) :
      Derives (.operand Operator.atomPrecedence (.dict entries)) (.leftBrace :: tokens)
  | table {inner : Expr} {tokens : List Token} (inner' : Derives (.expression inner) tokens) :
      Derives (.operand Operator.atomPrecedence (.table inner))
        (.keyword .tableWord :: .leftParen :: (tokens ++ [.rightParen]))

/-- Whether an operand may begin with a token. -/
def Token.begins : Token → Bool
  | integer _ | float _ | string _ | boolean _ | reference _ | placeholder => true
  | operator op => op == .subtract
  | leftParen | leftBracket | leftBrace => true
  | keyword word => word == .tableWord
  | _ => false

namespace Derives

theorem begins {phrase : Phrase} {tokens : List Token} (derives : Derives phrase tokens) :
    match phrase with
    | .expression _ => ∃ token rest, tokens = token :: rest ∧
      (token.begins = true ∨ token = .keyword .ifWord)
    | .operand _ _ => ∃ token rest, tokens = token :: rest ∧ token.begins = true
    | _ => True := by
  induction derives with
  | conditional => exact ⟨_, _, rfl, Or.inr rfl⟩
  | plain _ ih =>
    obtain ⟨token, rest, rfl, begins⟩ := ih
    exact ⟨token, rest, rfl, Or.inl begins⟩
  | pipeline _ _ ih =>
    obtain ⟨token, rest, rfl, begins⟩ := ih
    exact ⟨token, _, rfl, Or.inl begins⟩
  | chain _ _ _ ih | comparison _ _ _ ih | access _ _ ih =>
    obtain ⟨token, rest, rfl, begins⟩ := ih
    exact ⟨token, _, rfl, begins⟩
  | single _ ih => exact ih
  | integer | negativeInteger | float | negativeFloat | string | boolean | reference
  | placeholder | parens | list | dict | table => exact ⟨_, _, rfl, rfl⟩
  | _ => trivial

theorem expression_begins {expr : Expr} {tokens : List Token}
    (derives : Derives (.expression expr) tokens) : ∃ token rest, tokens = token :: rest ∧
      (token.begins = true ∨ token = .keyword .ifWord) :=
  derives.begins

theorem operand_begins {level : Nat} {expr : Expr} {tokens : List Token}
    (derives : Derives (.operand level expr) tokens) :
    ∃ token rest, tokens = token :: rest ∧ token.begins = true :=
  derives.begins

variable {level : Nat} {expr : Expr} {tokens : List Token}

theorem lift (least : Operator.or.precedence ≤ level) (most : level < Operator.atomPrecedence)
    (derives : Derives (.operand (level + 1) expr) tokens) :
    Derives (.operand level expr) tokens := by
  have levels : level ∈ chainLevels ∨ level = Operator.equal.precedence ∨
      level = Operator.postfixPrecedence := by
    simp only [Operator.precedence, Operator.atomPrecedence] at least most
    simp only [chainLevels, Operator.precedence, Operator.postfixPrecedence, List.mem_cons]
    omega
  rcases levels with chains | rfl | rfl
  · simpa using chain chains derives linksNil
  · exact single derives
  · simpa using access derives accessesNil

theorem weaken {low : Nat} (least : Operator.or.precedence ≤ low) (le : low ≤ level)
    (most : level ≤ Operator.atomPrecedence) (derives : Derives (.operand level expr) tokens) :
    Derives (.operand low expr) tokens := by
  induction le with
  | refl => exact derives
  | @step level le ih => exact ih (Nat.le_of_lt most) (derives.lift (Nat.le_trans least le) most)

theorem links_append {left middle : Expr} {second : List Token}
    (links : Derives (.links level left middle) tokens)
    (more : Derives (.links level middle expr) second) :
    Derives (.links level left expr) (tokens ++ second) := by
  generalize same : Phrase.links level left middle = phrase at links
  induction links generalizing left with
  | linksNil =>
    cases same
    exact more
  | linksCons binds operand _ _ ih =>
    cases same
    simpa using linksCons binds operand (ih rfl)
  | _ => cases same

theorem chain_concat {left right : Expr} {op : Operator} {second : List Token}
    (chains : op.precedence ∈ chainLevels)
    (left' : Derives (.operand op.precedence left) tokens)
    (right' : Derives (.operand (op.precedence + 1) right) second) :
    Derives (.operand op.precedence (.ofOperator left op right))
      (tokens ++ .operator op :: second) := by
  generalize same : op.precedence = level at *
  cases left' with
  | chain _ first rest =>
    rw [List.append_assoc]
    exact chain chains first (rest.links_append (by simpa using linksCons same right' linksNil))
  | _ => simp [chainLevels, Operator.precedence, Operator.postfixPrecedence,
      Operator.atomPrecedence] at chains

theorem accesses_append {on middle : Expr} {second : List Token}
    (accesses : Derives (.accesses on middle) tokens)
    (more : Derives (.accesses middle expr) second) :
    Derives (.accesses on expr) (tokens ++ second) := by
  generalize same : Phrase.accesses on middle = phrase at accesses
  induction accesses generalizing on with
  | accessesNil =>
    cases same
    exact more
  | accessesLookup isKey _ ih =>
    cases same
    exact accessesLookup isKey (ih rfl)
  | accessesIndex index _ _ ih =>
    cases same
    simpa using accessesIndex index (ih rfl)
  | _ => cases same

theorem postfix_append {on : Expr} {second : List Token}
    (on' : Derives (.operand Operator.postfixPrecedence on) tokens)
    (more : Derives (.accesses on expr) second) :
    Derives (.operand Operator.postfixPrecedence expr) (tokens ++ second) := by
  generalize same : Operator.postfixPrecedence = level at on'
  cases on' with
  | access base rest =>
    rw [List.append_assoc]
    exact access base (rest.accesses_append more)
  | chain chains =>
    subst same
    simp [chainLevels, Operator.precedence, Operator.postfixPrecedence] at chains
  | _ => cases same

end Derives

/-- The statements that some tokens denote. -/
inductive DerivesStatements : List (Statement Expr) → List Token → Prop where
  | nil : DerivesStatements [] []
  | cons {statement : Statement Expr} {statements : List (Statement Expr)}
      {first second : List Token} (body : Derives (.expression statement.body) first)
      (rest : DerivesStatements statements second) :
      DerivesStatements (statement :: statements)
        (.identifier statement.name :: .assign :: (first ++ .semicolon :: second))

/-- Whether some tokens denote a query. -/
inductive Query.Derives (query : Query) : List Token → Prop where
  | intro {first second : List Token} (statements : DerivesStatements query.statements first)
      (final : QueryGraph.Derives (.expression query.final) second) :
      Query.Derives query (first ++ second)

end QueryGraph
