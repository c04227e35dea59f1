import QueryGraph.Json
import QueryGraph.Literal

namespace QueryGraph.Json

/-- One character inside a JSON string. Only what must be escaped is escaped. -/
def escapeChar (c : Char) : List Char :=
  if c = '"' then ['\\', '"']
  else if c = '\\' then ['\\', '\\']
  else if c = '\x08' then ['\\', 'b']
  else if c = '\x0c' then ['\\', 'f']
  else if c = '\n' then ['\\', 'n']
  else if c = '\r' then ['\\', 'r']
  else if c = '\t' then ['\\', 't']
  else if c.toNat < 0x20 then '\\' :: 'u' :: Text.hexPadded 4 c.toNat
  else [c]

def stringText (text : String) : List Char :=
  '"' :: (text.toList.flatMap escapeChar ++ ['"'])

def nullText : List Char :=
  ['n', 'u', 'l', 'l']

mutual

/-- Writes a value without any spaces in front of the text `rest`. The parts of a value are
written from the last to the first, so that no character is copied however deep the value is
nested. -/
def putCompact : Json → List Char → List Char
  | .null, rest => nullText ++ rest
  | .bool value, rest => boolText value ++ rest
  | .number literal, rest => literal ++ rest
  | .string text, rest => stringText text ++ rest
  | .array [], rest => '[' :: ']' :: rest
  | .array (item :: others), rest => '[' :: putCompact item (putCompactItems others rest)
  | .object [], rest => '\x7b' :: '\x7d' :: rest
  | .object ((name, value) :: others), rest =>
    '\x7b' :: (stringText name ++ ':' :: putCompact value (putCompactFields others rest))

/-- The items behind the first, and the closing bracket. -/
def putCompactItems : List Json → List Char → List Char
  | [], rest => ']' :: rest
  | item :: others, rest => ',' :: putCompact item (putCompactItems others rest)

/-- The fields behind the first, and the closing brace. -/
def putCompactFields : List (String × Json) → List Char → List Char
  | [], rest => '\x7d' :: rest
  | (name, value) :: others, rest =>
    ',' :: (stringText name ++ ':' :: putCompact value (putCompactFields others rest))

end

/-- The text of a value without any spaces. -/
def compact (value : Json) : List Char :=
  putCompact value []

/-- Writes a line break and the indentation of a level in front of the text `rest`. -/
def putLineBreak (level : Nat) (rest : List Char) : List Char :=
  '\n' :: (List.replicate (2 * level) ' ' ++ rest)

mutual

/-- Writes a value, with every item and field on a line of its own, in front of the text
`rest`. -/
def putPretty (level : Nat) : Json → List Char → List Char
  | .null, rest => nullText ++ rest
  | .bool value, rest => boolText value ++ rest
  | .number literal, rest => literal ++ rest
  | .string text, rest => stringText text ++ rest
  | .array [], rest => '[' :: ']' :: rest
  | .array (item :: others), rest =>
    '[' :: putLineBreak (level + 1)
      (putPretty (level + 1) item (putPrettyItems level others rest))
  | .object [], rest => '\x7b' :: '\x7d' :: rest
  | .object ((name, value) :: others), rest =>
    '\x7b' :: putLineBreak (level + 1) (stringText name ++
      ':' :: ' ' :: putPretty (level + 1) value (putPrettyFields level others rest))

/-- The items behind the first, and the closing bracket. -/
def putPrettyItems (level : Nat) : List Json → List Char → List Char
  | [], rest => putLineBreak level (']' :: rest)
  | item :: others, rest =>
    ',' :: putLineBreak (level + 1)
      (putPretty (level + 1) item (putPrettyItems level others rest))

/-- The fields behind the first, and the closing brace. -/
def putPrettyFields (level : Nat) : List (String × Json) → List Char → List Char
  | [], rest => putLineBreak level ('\x7d' :: rest)
  | (name, value) :: others, rest =>
    ',' :: putLineBreak (level + 1) (stringText name ++
      ':' :: ' ' :: putPretty (level + 1) value (putPrettyFields level others rest))

end

/-- The text of a value with every item and field on a line of its own. -/
def pretty (value : Json) : List Char :=
  putPretty 0 value []

end QueryGraph.Json
