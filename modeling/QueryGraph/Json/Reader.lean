import QueryGraph.Json
import QueryGraph.Text.Hex

namespace QueryGraph.Json

def isSpace (c : Char) : Bool :=
  c == ' ' || c == '\t' || c == '\n' || c == '\r'

def skipSpaces (text : List Char) : List Char :=
  text.dropWhile isSpace

/-- The meaning of a backslash and one character. -/
def simpleEscape? : Char → Option Char
  | '"' => some '"'
  | '\\' => some '\\'
  | '/' => some '/'
  | 'b' => some '\x08'
  | 'f' => some '\x0c'
  | 'n' => some '\n'
  | 'r' => some '\r'
  | 't' => some '\t'
  | _ => none

/-- Whether a code point is the first half of a pair of surrogates. -/
def isHighHalf (code : Nat) : Bool :=
  decide (0xd800 ≤ code ∧ code < 0xdc00)

/-- The character of a pair of surrogates, the second of them an escape. -/
def pairChar? (high : Nat) (mark letter a b c d : Char) : Option Char := do
  let low ← Text.hexCode? a b c d
  if mark = '\\' ∧ letter = 'u' ∧ 0xdc00 ≤ low ∧ low < 0xe000 then
    Text.charOfCode? (0x10000 + (high - 0xd800) * 0x400 + (low - 0xdc00))
  else none

/-- The rest of a string, the characters read so far in reverse. -/
def readString (read : List Char) : List Char → Option (String × List Char)
  | [] => none
  | '"' :: rest => some (String.ofList read.reverse, rest)
  | '\\' :: [] => none
  | '\\' :: 'u' :: rest =>
    match rest with
    | a :: b :: c :: d :: rest =>
      match Text.hexCode? a b c d with
      | none => none
      | some code =>
        if isHighHalf code then
          match rest with
          | mark :: letter :: a :: b :: c :: d :: rest =>
            match pairChar? code mark letter a b c d with
            | some char => readString (char :: read) rest
            | none => none
          | _ => none
        else
          match Text.charOfCode? code with
          | some char => readString (char :: read) rest
          | none => none
    | _ => none
  | '\\' :: c :: rest =>
    match simpleEscape? c with
    | some char => readString (char :: read) rest
    | none => none
  | c :: rest => if c.toNat < 0x20 then none else readString (c :: read) rest

/-- Digits, at least one. -/
def readDigits (text : List Char) : Option (List Char × List Char) :=
  let digits := text.takeWhile Char.isDigit
  if digits.isEmpty then none else some (digits, text.drop digits.length)

/-- A point and digits, if there is a point. -/
def readFraction : List Char → Option (List Char × List Char)
  | '.' :: rest => (readDigits rest).map fun part => ('.' :: part.1, part.2)
  | rest => some ([], rest)

/-- A sign and digits. -/
def readPower : List Char → Option (List Char × List Char)
  | '+' :: rest => (readDigits rest).map fun part => ('+' :: part.1, part.2)
  | '-' :: rest => (readDigits rest).map fun part => ('-' :: part.1, part.2)
  | rest => readDigits rest

/-- An exponent with its mark, if there is a mark. -/
def readExponent : List Char → Option (List Char × List Char)
  | [] => some ([], [])
  | mark :: rest =>
    if mark = 'e' ∨ mark = 'E' then (readPower rest).map fun part => (mark :: part.1, part.2)
    else some ([], mark :: rest)

/-- A number without a sign as it is written: no superfluous leading zero. -/
def readUnsigned (text : List Char) : Option (List Char × List Char) := do
  let (whole, rest) ← readDigits text
  if whole.length ≠ 1 ∧ whole.head? = some '0' then none
  else
    let (fraction, rest) ← readFraction rest
    let (exponent, rest) ← readExponent rest
    return (whole ++ fraction ++ exponent, rest)

/-- A number as it is written, with no sign but a minus. -/
def readNumber : List Char → Option (List Char × List Char)
  | '-' :: rest => (readUnsigned rest).map fun part => ('-' :: part.1, part.2)
  | text => readUnsigned text

def readWord (word : List Char) (value : Json) (text : List Char) : Option (Json × List Char) :=
  if word.isPrefixOf text then some (value, text.drop word.length) else none

mutual

/-- A value nested at most as deep as the bound says, and the text behind it. -/
def readValue : Nat → List Char → Option (Json × List Char)
  | 0, _ => none
  | bound + 1, text =>
    match skipSpaces text with
    | [] => none
    | c :: rest =>
      if c = '"' then (readString [] rest).map fun part => (.string part.1, part.2)
      else if c = '[' then
        match skipSpaces rest with
        | ']' :: rest => some (.array [], rest)
        | rest => readItems bound [] rest
      else if c = '\x7b' then
        match skipSpaces rest with
        | '\x7d' :: rest => some (.object [], rest)
        | rest => readFields bound [] rest
      else if c = 'n' then readWord ['n', 'u', 'l', 'l'] .null (c :: rest)
      else if c = 't' then readWord ['t', 'r', 'u', 'e'] (.bool true) (c :: rest)
      else if c = 'f' then readWord ['f', 'a', 'l', 's', 'e'] (.bool false) (c :: rest)
      else (readNumber (c :: rest)).map fun part => (.number part.1, part.2)

/-- The rest of an array, the items read so far in reverse. -/
def readItems : Nat → List Json → List Char → Option (Json × List Char)
  | 0, _, _ => none
  | bound + 1, items, text =>
    match readValue bound text with
    | none => none
    | some (item, rest) =>
      match skipSpaces rest with
      | ',' :: rest => readItems bound (item :: items) rest
      | ']' :: rest => some (.array (item :: items).reverse, rest)
      | _ => none

/-- The rest of an object, the fields read so far in reverse. -/
def readFields : Nat → List (String × Json) → List Char → Option (Json × List Char)
  | 0, _, _ => none
  | bound + 1, fields, text =>
    match skipSpaces text with
    | '"' :: rest =>
      match readString [] rest with
      | none => none
      | some (name, rest) =>
        match skipSpaces rest with
        | ':' :: rest =>
          match readValue bound rest with
          | none => none
          | some (value, rest) =>
            match skipSpaces rest with
            | ',' :: rest => readFields bound ((name, value) :: fields) rest
            | '\x7d' :: rest => some (.object ((name, value) :: fields).reverse, rest)
            | _ => none
        | _ => none
    | _ => none

end

/-- The value that a text is, with nothing but spaces around it. -/
def ofText? (text : List Char) : Option Json :=
  match readValue (text.length + 1) text with
  | some (value, rest) => if (skipSpaces rest).isEmpty then some value else none
  | none => none

end QueryGraph.Json
