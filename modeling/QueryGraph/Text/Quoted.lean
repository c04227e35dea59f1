import QueryGraph.Text.Blank
import QueryGraph.Text.Hex
import QueryGraph.Text.Shapeless

namespace QueryGraph.Text

/-- One character inside a string literal. -/
def escapeChar (c : Char) : List Char :=
  if c = '"' then ['\\', '"']
  else if c = '\\' then ['\\', '\\']
  else if c = '\n' then ['\\', 'n']
  else if c = '\r' then ['\\', 'r']
  else if c = '\t' then ['\\', 't']
  else if isControl c then '\\' :: 'u' :: hexPadded 4 c.toNat
  else [c]

/-- The inside of a string literal. -/
def escape (text : List Char) : List Char :=
  text.flatMap escapeChar

/-- A string literal of the query language. -/
def literal (text : List Char) : List Char :=
  '"' :: (escape text ++ ['"'])

/-- One character inside a string that is quoted in a message. -/
def showChar (c : Char) : List Char :=
  if c = '"' then ['\\', '"']
  else if c = '\\' then ['\\', '\\']
  else if c = '\n' then ['\\', 'n']
  else if c = '\r' then ['\\', 'r']
  else if c = '\t' then ['\\', 't']
  else if c = '\x00' then ['\\', '0']
  else if isShapeless c then '\\' :: 'u' :: '\x7b' :: (hexPadded 1 c.toNat ++ ['\x7d'])
  else [c]

/-- A string as messages quote it. -/
def quoted (text : List Char) : List Char :=
  '"' :: (text.flatMap showChar ++ ['"'])

end QueryGraph.Text
