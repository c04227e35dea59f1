import QueryGraph.Constant
import QueryGraph.Number.Layout
import QueryGraph.Text.Quoted

namespace QueryGraph

open QueryGraph.Number

/-- An integer in decimal digits. -/
def intText : Int → List Char
  | .ofNat n => Nat.toDigits 10 n
  | .negSucc n => '-' :: Nat.toDigits 10 (n + 1)

/-- Floating-point numbers are written positionally from `0.0001` on, and of two equally near
digit strings the upper one is taken. -/
def floatLayout : Layout :=
  ⟨.up, -4, false⟩

/-- A floating-point number. What is not finite has a word of its own. -/
def floatText (d : Double) : List Char :=
  if d.isFinite then floatLayout.number d
  else if d.isNaN then ['N', 'a', 'N']
  else (if d.negative then ['-'] else []) ++ ['i', 'n', 'f']

def boolText : Bool → List Char
  | true => ['t', 'r', 'u', 'e']
  | false => ['f', 'a', 'l', 's', 'e']

def Constant.text : Constant → List Char
  | .int value => intText value.toInt
  | .double value => floatText value
  | .bool value => boolText value
  | .string value => Text.literal value.toList

end QueryGraph
