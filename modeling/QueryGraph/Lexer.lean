import QueryGraph.Lexer.Scan
import QueryGraph.Text.Blank
import QueryGraph.Text.Position

/-!
Reading a text token by token, with the places where tokens begin and end.
-/

namespace QueryGraph

open QueryGraph.Text

/-- A fault and the place it is reported at. -/
structure LexError where
  fault : Lexer.Fault
  position : Position
  deriving DecidableEq, Repr

def LexError.message (e : LexError) : String :=
  e.fault.describe ++ e.position.describe

/-- What is left of a text, where that begins, and where the token before it began. -/
structure Lexer where
  rest : List Char
  position : Position
  tokenStart : Position
  deriving Repr

namespace Lexer

def ofText (text : String) : Lexer :=
  ⟨text.toList, .start, .start⟩

/-- Reads one token. After a fault the lexer stands behind what the fault takes up, which is
nothing if no token begins there: the same fault then comes again. At the end of the text the
end is read again and again. -/
def next (lexer : Lexer) : Except LexError Token × Lexer :=
  let blanks := lexer.rest.takeWhile isBlank
  let text := lexer.rest.dropWhile isBlank
  let start := lexer.position.after blanks
  let scan := Scan.ofText text
  let outcome := match scan.outcome with
    | .ok token => .ok token
    | .error (fault, offset) => .error ⟨fault, start.after (text.take offset)⟩
  (outcome, ⟨text.drop scan.length, start.after (text.take scan.length), start⟩)

end Lexer

/-- All that a lexer will hand over from some point on. -/
inductive Feed where
  | token (token : Token) (start : Position) (next : Feed)
  /-- A fault behind which reading goes on. -/
  | fault (error : LexError) (next : Feed)
  /-- A fault that comes again and again. -/
  | stuck (error : LexError)
  /-- The end of the text, again and again. -/
  | finish (position : Position)
  deriving Repr

namespace Feed

/-- What the lexer hands over in at most `bound` steps that read something. -/
def ofLexer : Nat → Lexer → Feed
  | 0, lexer => .finish lexer.position
  | bound + 1, lexer =>
    let (outcome, lexer') := lexer.next
    match outcome with
    | .ok .endOfInput => .finish lexer'.tokenStart
    | .ok item => .token item lexer'.tokenStart (ofLexer bound lexer')
    | .error ⟨.unexpected char, position⟩ => .stuck ⟨.unexpected char, position⟩
    | .error error => .fault error (ofLexer bound lexer')

/-- Every step that does not end the feed reads a character at least. -/
def ofText (text : String) : Feed :=
  let lexer := Lexer.ofText text
  ofLexer (lexer.rest.length + 1) lexer

/-- The number of steps before the feed repeats itself. -/
def length : Feed → Nat
  | token _ _ next => next.length + 1
  | fault _ next => next.length + 1
  | stuck _ | finish _ => 0

end Feed

end QueryGraph
