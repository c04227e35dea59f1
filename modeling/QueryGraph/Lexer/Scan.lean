import QueryGraph.Name
import QueryGraph.Token

/-!
One token off the front of a text.

Scanning knows nothing of positions: it says which token the text begins with, or what is wrong
there, and how many characters that takes up.
-/

namespace QueryGraph.Lexer

open QueryGraph.Number

/-- What can be wrong where a token is expected. -/
inductive Fault where
  /-- No token begins with this character. -/
  | unexpected (char : Char)
  /-- A string literal without its closing quote. -/
  | unterminated
  /-- A backslash in a string literal with something behind it that is no escape. -/
  | escape (sequence : String)
  /-- An integer of `2 ^ 64` or more. -/
  | number (text : String)
  deriving DecidableEq, Repr

namespace Fault

/-- The text of a message, but for the position at its end. -/
def describe : Fault → String
  | unexpected char => "unexpected character '" ++ String.singleton char ++ "' at "
  | unterminated => "unterminated string starting at "
  | escape sequence => "invalid escape sequence '\\" ++ sequence ++ "' at "
  | number text => "invalid number '" ++ text ++ "' at "

end Fault

/-- What a text begins with, and how many characters of it are thereby read. A fault also says
how many characters stand before the place it is reported at. -/
structure Scan where
  outcome : Except (Fault × Nat) Token
  length : Nat
  deriving Repr

namespace Scan

def token (token : Token) (length : Nat) : Scan :=
  ⟨.ok token, length⟩

def fault (fault : Fault) (offset length : Nat) : Scan :=
  ⟨.error (fault, offset), length⟩

/-- The meaning of a backslash and one character. -/
def simpleEscape? : Char → Option Char
  | 'n' => some '\n'
  | 't' => some '\t'
  | 'r' => some '\r'
  | '"' => some '"'
  | '\\' => some '\\'
  | _ => none

/-- The character that four hexadecimal digits stand for. Surrogates stand for none. -/
def unicodeEscape? (a b c d : Char) : Option Char :=
  (Text.hexCode? a b c d).bind Text.charOfCode?

/-- The fault of a bad `\u`: it takes up the digits behind it, four at most. -/
def badUnicodeEscape (length : Nat) (rest : List Char) : Scan :=
  let digits := (rest.take 4).takeWhile Text.isHexDigit
  fault (.escape (String.ofList ('u' :: digits))) length (length + 2 + digits.length)

/-- The rest of a string literal, of which `length` characters are read and stand for `value`,
kept in reverse. -/
def string (value : List Char) (length : Nat) : List Char → Scan
  | [] => fault .unterminated 0 length
  | '"' :: _ => token (.string (String.ofList value.reverse)) (length + 1)
  | '\\' :: [] => fault .unterminated 0 (length + 1)
  | '\\' :: 'u' :: rest =>
    match rest with
    | a :: b :: c :: d :: rest' =>
      match unicodeEscape? a b c d with
      | some char => string (char :: value) (length + 6) rest'
      | none => badUnicodeEscape length (a :: b :: c :: d :: rest')
    | rest => badUnicodeEscape length rest
  | '\\' :: c :: rest =>
    match simpleEscape? c with
    | some char => string (char :: value) (length + 2) rest
    | none => fault (.escape (String.singleton c)) length (length + 1)
  | c :: rest => string (c :: value) (length + 1) rest

/-- The digits of a fraction; a point without a digit behind it is none. -/
def fractionDigits : List Char → List Char
  | '.' :: rest => rest.takeWhile Char.isDigit
  | _ => []

/-- An exponent: its value and how many characters it takes up. -/
def exponent? : List Char → Option (Int × Nat)
  | mark :: rest =>
    if mark = 'e' ∨ mark = 'E' then
      let signed := rest.head? == some '+' || rest.head? == some '-'
      let digits := (if signed then rest.drop 1 else rest).takeWhile Char.isDigit
      let value : Int := Nat.ofDigitChars 10 digits 0
      if digits.isEmpty then none
      else some (if rest.head? == some '-' then -value else value,
        1 + (if signed then 1 else 0) + digits.length)
    else none
  | [] => none

/-- A number: digits, with a fraction or an exponent if it is a float. -/
def number (text : List Char) : Scan :=
  let whole := text.takeWhile Char.isDigit
  let rest := text.drop whole.length
  let fraction := fractionDigits rest
  let fractionLength := if fraction.isEmpty then 0 else fraction.length + 1
  let exponent := exponent? (rest.drop fractionLength)
  if fraction.isEmpty && exponent.isNone then
    let value := Nat.ofDigitChars 10 whole 0
    if value < Nat.pow 2 64 then token (.integer value) whole.length
    else fault (.number (String.ofList whole)) 0 whole.length
  else
    let (power, exponentLength) := exponent.getD (0, 0)
    let decimal : Decimal :=
      ⟨Nat.ofDigitChars 10 (whole ++ fraction) 0, power - fraction.length⟩
    token (.float (Double.ofMagnitude false decimal.toMagnitude))
      (whole.length + fractionLength + exponentLength)

/-- The token of a word. -/
def wordToken (word : String) : Token :=
  match word with
  | "and" => .operator .and
  | "or" => .operator .or
  | "true" => .boolean true
  | "false" => .boolean false
  | "if" => .keyword .ifWord
  | "then" => .keyword .thenWord
  | "else" => .keyword .elseWord
  | "table" => .keyword .tableWord
  | _ => .identifier word

/-- The tokens of one character. -/
def symbol? : Char → Option Token
  | '@' => some .placeholder
  | '|' => some .pipe
  | ';' => some .semicolon
  | '.' => some .dot
  | ',' => some .comma
  | '+' => some (.operator .add)
  | '-' => some (.operator .subtract)
  | '*' => some (.operator .multiply)
  | '/' => some (.operator .divide)
  | '%' => some (.operator .modulo)
  | '=' => some .assign
  | '>' => some (.operator .greaterThan)
  | '<' => some (.operator .lessThan)
  | '\x7b' => some .leftBrace
  | '\x7d' => some .rightBrace
  | '(' => some .leftParen
  | ')' => some .rightParen
  | '[' => some .leftBracket
  | ']' => some .rightBracket
  | _ => none

/-- The tokens that end in an equals sign, by the character before it. -/
def symbolWithEquals? : Char → Option Token
  | '=' => some (.operator .equal)
  | '!' => some (.operator .notEqual)
  | '>' => some (.operator .greaterEqual)
  | '<' => some (.operator .lessEqual)
  | _ => none

/-- A token of one or two characters, two if possible. -/
def symbol (c : Char) (rest : List Char) : Scan :=
  match (if rest.head? = some '=' then symbolWithEquals? c else none) with
  | some long => token long 2
  | none =>
    match symbol? c with
    | some short => token short 1
    | none => fault (.unexpected c) 0 0

/-- A reference: a dollar sign and a name. -/
def reference (rest : List Char) : Scan :=
  let name := rest.takeWhile isNameChar
  if (rest.head?.map isNameStart).getD false then
    token (.reference (String.ofList name)) (name.length + 1)
  else fault (.unexpected '$') 0 0

/-- The first token of a text that does not begin with a blank. -/
def ofText : List Char → Scan
  | [] => token .endOfInput 0
  | c :: rest =>
    if c = '"' then string [] 1 rest
    else if c = '$' then reference rest
    else if isNameStart c then
      let word := c :: rest.takeWhile isNameChar
      token (wordToken (String.ofList word)) word.length
    else if c.isDigit then number (c :: rest)
    else symbol c rest

end Scan

end QueryGraph.Lexer
