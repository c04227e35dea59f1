import QueryGraph.Parser.Expression

namespace QueryGraph.Parser

/-- Statements, those read so far in reverse, as long as an identifier is ahead. -/
def statements (expression : Parser Expr) :
    Nat → List (Statement Expr) → Parser (List (Statement Expr))
  | 0, _, c => c.unexpected "an expression"
  | rounds + 1, sofar, c =>
    match c.token with
    | .identifier name => do
      let c ← c.advance
      let c ← c.expect .assign "'='"
      let (body, c) ← expression c
      let c ← c.expect .semicolon "';'"
      statements expression rounds (⟨name, body⟩ :: sofar) c
    | _ => .ok (sofar.reverse, c)

/-- What a parser reads, with nothing behind it. -/
def whole {α : Type} (parser : Parser α) : Parser α := fun c => do
  let (value, c) ← parser c
  let c ← c.expect .endOfInput "end of input"
  return (value, c)

/-- An expression with nothing behind it. -/
def wholeExpression : Parser Expr :=
  whole expression

/-- A query with nothing behind it. -/
def query : Parser Query := fun c => do
  let bound := c.bound
  let (statements, c) ← statements (expressionAt bound) bound [] c
  let (final, c) ← whole (expressionAt bound) c
  return (⟨statements, final⟩, c)

/-- Parses a text from its beginning. -/
def run {α : Type} (parser : Parser α) (text : String) : Except ParseError α := do
  let c ← Cursor.ofText text
  match parser c with
  | .ok (value, _) => return value
  | .error failure => throw failure.error

end QueryGraph.Parser

namespace QueryGraph

/-- The query that a text denotes. -/
def Query.parse (text : String) : Except ParseError Query :=
  Parser.query.run text

/-- The expression that a text denotes. -/
def Expr.parse (text : String) : Except ParseError Expr :=
  Parser.wholeExpression.run text

end QueryGraph
