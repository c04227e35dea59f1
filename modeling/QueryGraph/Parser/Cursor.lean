import QueryGraph.Lexer

/-!
A place between two tokens: the token ahead, and the feed behind it. Parsing functions go from
one place to another; when they fail they say where they stopped, so that parsing can go on
from there.
-/

namespace QueryGraph

open QueryGraph.Text

inductive ParseError where
  | lex (error : LexError)
  | unexpected (expected : String) (found : Token) (position : Position)
  /-- An integer beyond 64 bits with sign. -/
  | overflow (literal : String) (position : Position)
  deriving DecidableEq, Repr

def ParseError.message : ParseError → String
  | lex error => error.message
  | unexpected expected found position =>
    "expected " ++ expected ++ ", found " ++ found.describe ++ " at " ++ position.describe
  | overflow literal position =>
    "integer literal " ++ literal ++ " does not fit in 64 bits at " ++ position.describe

namespace Parser

structure Cursor where
  /-- The token ahead. -/
  token : Token
  /-- Where the token ahead begins. -/
  position : Position
  rest : Feed
  deriving Repr

/-- An error, and the place where parsing stopped. -/
structure Failure where
  error : ParseError
  cursor : Cursor
  deriving Repr

end Parser

abbrev Parser (α : Type) := Parser.Cursor → Except Parser.Failure (α × Parser.Cursor)

namespace Parser.Cursor

/-- Before the first token of a text. -/
def ofText (text : String) : Except ParseError Cursor :=
  match Feed.ofText text with
  | .token token start next => .ok ⟨token, start, next⟩
  | .finish position => .ok ⟨.endOfInput, position, .finish position⟩
  | .fault error _ => .error (.lex error)
  | .stuck error => .error (.lex error)

/-- Steps over the token ahead. If there is no token behind it the token ahead stays, while the
fault behind it is used up. -/
def advance (c : Cursor) : Except Failure Cursor :=
  match c.rest with
  | .token token start next => .ok ⟨token, start, next⟩
  | .finish position => .ok ⟨.endOfInput, position, .finish position⟩
  | .fault error next => .error ⟨.lex error, { c with rest := next }⟩
  | .stuck error => .error ⟨.lex error, c⟩

/-- Steps over the token ahead, which is lost also if there is no token behind it. -/
def consume (c : Cursor) : Except Failure Cursor :=
  advance { c with token := .endOfInput }

def unexpected {α : Type} (c : Cursor) (expected : String) : Except Failure α :=
  .error ⟨.unexpected expected c.token c.position, c⟩

def expect (c : Cursor) (token : Token) (description : String) : Except Failure Cursor :=
  if c.token = token then c.advance else c.unexpected description

/-- More than the number of tokens from here on. -/
def bound (c : Cursor) : Nat :=
  c.rest.length + 2

end Parser.Cursor

end QueryGraph
