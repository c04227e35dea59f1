import QueryGraph.Literal
import QueryGraph.Operator

namespace QueryGraph

open QueryGraph.Number

/-- Words with a place of their own in the grammar, operators apart. -/
inductive Keyword where
  | ifWord
  | thenWord
  | elseWord
  | tableWord
  deriving DecidableEq, Repr

def Keyword.text : Keyword → String
  | ifWord => "if"
  | thenWord => "then"
  | elseWord => "else"
  | tableWord => "table"

inductive Token where
  /-- A number with a fraction or an exponent; a sign is a token of its own. -/
  | float (value : Double)
  /-- A number of digits only, below `2 ^ 64`. -/
  | integer (value : Nat)
  | string (value : String)
  | boolean (value : Bool)
  /-- A reference, written with a dollar sign. -/
  | reference (name : String)
  | identifier (name : String)
  | keyword (word : Keyword)
  | operator (op : Operator)
  /-- The current row inside an operator call, written `@`. -/
  | placeholder
  | pipe
  | assign
  | semicolon
  | dot
  | comma
  | leftParen
  | rightParen
  | leftBracket
  | rightBracket
  | leftBrace
  | rightBrace
  | endOfInput
  deriving DecidableEq, Repr, Inhabited

namespace Token

/-- The spelling of a token that is also a word. Such words may stand where a key is expected,
so `$row.table` looks up the key `table`. -/
def word? : Token → Option String
  | keyword word => some word.text
  | boolean value => some (String.ofList (boolText value))
  | operator .and => some Operator.and.symbol
  | operator .or => some Operator.or.symbol
  | _ => none

/-- The key that a token stands for where a key is expected. -/
def key? : Token → Option String
  | identifier name => some name
  | token => token.word?

private def apostrophes (text : String) : String :=
  "'" ++ text ++ "'"

/-- The token as messages name it. -/
def describe : Token → String
  | float value => "number " ++ String.ofList (floatText value)
  | integer value => "number " ++ toString value
  | string value => "string " ++ String.ofList (Text.quoted value.toList)
  | boolean value => "keyword " ++ apostrophes (String.ofList (boolText value))
  | reference name => apostrophes ("$" ++ name)
  | identifier name => "identifier " ++ apostrophes name
  | keyword word => "keyword " ++ apostrophes word.text
  | operator .and => "keyword " ++ apostrophes Operator.and.symbol
  | operator .or => "keyword " ++ apostrophes Operator.or.symbol
  | operator op => apostrophes op.symbol
  | placeholder => apostrophes "@"
  | pipe => apostrophes "|"
  | assign => apostrophes "="
  | semicolon => apostrophes ";"
  | dot => apostrophes "."
  | comma => apostrophes ","
  | leftParen => apostrophes "("
  | rightParen => apostrophes ")"
  | leftBracket => apostrophes "["
  | rightBracket => apostrophes "]"
  | leftBrace => apostrophes "\x7b"
  | rightBrace => apostrophes "\x7d"
  | endOfInput => "end of input"

end Token

end QueryGraph
