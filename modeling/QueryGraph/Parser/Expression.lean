import QueryGraph.Parser.Cursor
import QueryGraph.Query

/-!
Parsing expressions, from literals up to conditionals.

Each level is a function of the level below it. The expressions inside brackets, calls and
conditionals are read by the parser that is handed down as `inner`; in the end that is the
parser itself, for a smaller depth. Loops count their rounds down from the depth. Every level and
every round reads a token, so a depth beyond the number of tokens is never exhausted.
-/

namespace QueryGraph.Parser

open QueryGraph.Number

/-- An identifier or a word, where a key is expected. -/
def key : Parser String := fun c =>
  match c.token.key? with
  | some name => do
    let c ← c.advance
    return (name, c)
  | none => c.unexpected "a name"

/-- Entries of the form `key = value`, up to and including the closing token. One comma may
stand behind the last. -/
def entries (inner : Parser Expr) (close : Token) (expected : String) :
    Nat → Entries Expr → Parser (Entries Expr)
  | 0, _, c => c.unexpected expected
  | rounds + 1, sofar, c =>
    if c.token = close then do
      let c ← c.advance
      return (sofar, c)
    else do
      let (name, c) ← key c
      let c ← c.expect .assign "'='"
      let (value, c) ← inner c
      let sofar := sofar.insert name value
      if c.token = .comma then
        let c ← c.advance
        entries inner close expected rounds sofar c
      else if c.token = close then
        let c ← c.advance
        return (sofar, c)
      else c.unexpected expected

/-- The values of a list, those read so far in reverse, up to and including the closing
bracket. One comma may stand behind the last. -/
def values (inner : Parser Expr) : Nat → List Expr → Parser (List Expr)
  | 0, _, c => c.unexpected "',' or ']'"
  | rounds + 1, sofar, c =>
    if c.token = .rightBracket then do
      let c ← c.advance
      return (sofar.reverse, c)
    else do
      let (value, c) ← inner c
      if c.token = .comma then
        let c ← c.advance
        values inner rounds (value :: sofar) c
      else if c.token = .rightBracket then
        let c ← c.advance
        return ((value :: sofar).reverse, c)
      else c.unexpected "',' or ']'"

/-- An operator call: `space.name(key=value, …)`. -/
def call (inner : Parser Expr) (rounds : Nat) : Parser Call := fun c => do
  let (space, c) ← key c
  let c ← c.expect .dot "'.'"
  let (name, c) ← key c
  let c ← c.expect .leftParen "'('"
  let (arguments, c) ← entries inner .rightParen "')'" rounds [] c
  return ({ operand := none, space, name, arguments }, c)

/-- The integer of a literal, if it has 64 bits with sign. -/
def integer (negative : Bool) (digits : Nat) : Option Expr :=
  if negative then
    if digits ≤ Nat.pow 2 63 then some (.atom (.int (Int64.ofInt (-digits)))) else none
  else
    if digits < Nat.pow 2 63 then some (.atom (.int (Int64.ofInt digits))) else none

/-- A minus sign is read: a number must follow. There is no negation of anything else. -/
def negative (start : Text.Position) : Parser Expr := fun c =>
  match c.token with
  | .integer digits => do
    let c ← c.advance
    match integer true digits with
    | some expr => return (expr, c)
    | none => throw ⟨.overflow ("-" ++ toString digits) start, c⟩
  | .float value => do
    let c ← c.advance
    return (.atom (.double value.neg), c)
  | _ => c.unexpected "a number after '-'"

/-- Literals, references, and what stands in brackets of some kind. -/
def primary (inner : Parser Expr) (rounds : Nat) : Parser Expr := fun c =>
  let start := c.position
  match c.token with
  | .integer digits => do
    let c ← c.consume
    match integer false digits with
    | some expr => return (expr, c)
    | none => throw ⟨.overflow (toString digits) start, c⟩
  | .float value => do
    let c ← c.consume
    return (.atom (.double value), c)
  | .string value => do
    let c ← c.consume
    return (.atom (.string value), c)
  | .boolean value => do
    let c ← c.consume
    return (.atom (.bool value), c)
  | .operator .subtract => do
    let c ← c.consume
    negative start c
  | .reference name => do
    let c ← c.consume
    return (.reference name, c)
  | .placeholder => do
    let c ← c.consume
    return (.placeholder, c)
  | .leftParen => do
    let c ← c.consume
    let (expr, c) ← inner c
    let c ← c.expect .rightParen "')'"
    return (expr, c)
  | .leftBracket => do
    let c ← c.consume
    let (items, c) ← values inner rounds [] c
    return (.list items, c)
  | .leftBrace => do
    let c ← c.consume
    let (items, c) ← entries inner .rightBrace "',' or '\x7d'" rounds [] c
    return (.dict items, c)
  | .keyword .tableWord => do
    let c ← c.consume
    let c ← c.expect .leftParen "'('"
    let (expr, c) ← inner c
    let c ← c.expect .rightParen "')'"
    return (.table expr, c)
  | _ => c.unexpected "an expression"

/-- Lookups and indexings behind an expression. -/
def accesses (inner : Parser Expr) : Nat → Expr → Parser Expr
  | 0, _, c => c.unexpected "an expression"
  | rounds + 1, on, c =>
    match c.token with
    | .dot => do
      let c ← c.advance
      let (name, c) ← key c
      accesses inner rounds (.lookup on name) c
    | .leftBracket => do
      let c ← c.advance
      let (index, c) ← inner c
      let c ← c.expect .rightBracket "']'"
      accesses inner rounds (.ofOperator on .index index) c
    | _ => .ok (on, c)

def access (inner : Parser Expr) (rounds : Nat) : Parser Expr := fun c => do
  let (on, c) ← primary inner rounds c
  accesses inner rounds on c

/-- The operator of a token, if it binds as strongly as the level says. -/
def operatorAt (level : Nat) : Token → Option Operator
  | .operator op => if op.precedence = level then some op else none
  | _ => none

/-- What follows the first operand of a chain of operators of one level; the chain leans to the
left. -/
def links (level : Nat) (operand : Parser Expr) : Nat → Expr → Parser Expr
  | 0, _, c => c.unexpected "an expression"
  | rounds + 1, left, c =>
    match operatorAt level c.token with
    | some op => do
      let c ← c.advance
      let (right, c) ← operand c
      links level operand rounds (.ofOperator left op right) c
    | none => .ok (left, c)

def chain (level : Nat) (operand : Parser Expr) (rounds : Nat) : Parser Expr := fun c => do
  let (left, c) ← operand c
  links level operand rounds left c

/-- One operand, or a comparison of two. -/
def comparison (operand : Parser Expr) : Parser Expr := fun c => do
  let (left, c) ← operand c
  match operatorAt Operator.equal.precedence c.token with
  | some op =>
    let c ← c.advance
    let (right, c) ← operand c
    return (.ofOperator left op right, c)
  | none => return (left, c)

/-- An expression of operators, from the strongest level to the weakest. -/
def operation (inner : Parser Expr) (rounds : Nat) : Parser Expr :=
  let product := chain Operator.multiply.precedence (access inner rounds) rounds
  let sum := chain Operator.add.precedence product rounds
  let conjunction := chain Operator.and.precedence (comparison sum) rounds
  chain Operator.or.precedence conjunction rounds

/-- The steps of a pipeline, those read so far in reverse. -/
def steps (step : Parser Call) : Nat → List Call → Parser (List Call)
  | 0, _, c => c.unexpected "an expression"
  | rounds + 1, sofar, c =>
    if c.token = .pipe then do
      let c ← c.advance
      let (call, c) ← step c
      steps step rounds (call :: sofar) c
    else .ok (sofar.reverse, c)

/-- An expression, given the parser of the expressions inside it. -/
def expressionWith (inner : Parser Expr) (rounds : Nat) : Parser Expr := fun c =>
  if c.token = .keyword .ifWord then do
    let c ← c.advance
    let (condition, c) ← inner c
    let c ← c.expect (.keyword .thenWord) "'then'"
    let (thenDo, c) ← inner c
    let c ← c.expect (.keyword .elseWord) "'else'"
    let (elseDo, c) ← inner c
    return (.conditional condition thenDo elseDo, c)
  else do
    let (base, c) ← operation inner rounds c
    let (calls, c) ← steps (call inner rounds) rounds [] c
    return (if calls.isEmpty then base else .pipeline base calls, c)

/-- An expression nested at most `depth` deep. -/
def expressionAt : Nat → Parser Expr
  | 0, c => c.unexpected "an expression"
  | depth + 1, c => expressionWith (expressionAt depth) (depth + 1) c

/-- An expression. -/
def expression : Parser Expr := fun c =>
  expressionAt c.bound c

end QueryGraph.Parser
