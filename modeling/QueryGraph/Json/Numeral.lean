import QueryGraph.Number.Decimal

namespace QueryGraph.Json

open QueryGraph.Number

/-- The parts of a number as it is written. -/
structure Numeral where
  negative : Bool
  whole : List Char
  /-- The digits behind the point; none if there is no point. -/
  fraction : List Char
  /-- The exponent, if one is written. -/
  exponent : Option Int
  deriving Repr

namespace Numeral

def ofLiteral (literal : List Char) : Numeral :=
  let negative := literal.head? == some '-'
  let unsigned := if negative then literal.drop 1 else literal
  let whole := unsigned.takeWhile Char.isDigit
  let rest := unsigned.drop whole.length
  let fraction := if rest.head? == some '.' then (rest.drop 1).takeWhile Char.isDigit else []
  let rest := if fraction.isEmpty then rest else rest.drop (fraction.length + 1)
  let exponent : Option Int := match rest with
    | [] => none
    | _ :: '-' :: digits => some (-(Nat.ofDigitChars 10 digits 0 : Nat))
    | _ :: '+' :: digits => some (Nat.ofDigitChars 10 digits 0)
    | _ :: digits => some (Nat.ofDigitChars 10 digits 0)
  ⟨negative, whole, fraction, exponent⟩

/-- Appends digits to a number as long as it stays below `2 ^ 64`; the digits left over come
back. -/
def gather (n : Nat) : List Char → Nat × List Char
  | [] => (n, [])
  | c :: rest =>
    let n' := 10 * n + (c.toNat - '0'.toNat)
    if n' < Nat.pow 2 64 then gather n' rest else (n, c :: rest)

/-- The integer that is written, if it has 64 bits with sign. Minus zero is no integer. -/
def toInt? (numeral : Numeral) : Option Int64 :=
  if !numeral.fraction.isEmpty || numeral.exponent.isSome then none
  else
    let n := Nat.ofDigitChars 10 numeral.whole 0
    if numeral.negative then
      if 0 < n ∧ n ≤ Nat.pow 2 63 then some (Int64.ofInt (-n)) else none
    else if n < Nat.pow 2 63 then some (Int64.ofInt n) else none

/-- The magnitude of `10 ^ k`. -/
def powerOfTen (k : Nat) : Nat :=
  Decimal.toMagnitude ⟨1, k⟩

/-- The rounded product of two magnitudes. -/
def product (a b : Nat) : Nat :=
  Double.nearest (Double.units a * Double.units b) (Nat.pow 2 1074)

/-- The rounded quotient of two magnitudes. -/
def quotient (a b : Nat) : Nat :=
  Double.nearest (Double.units a * Nat.pow 2 1074) (Double.units b)

/-- Divides a magnitude by `10 ^ k`, in rounds of `10 ^ 308`. -/
def shrink : Nat → Nat → Nat → Nat
  | 0, m, _ => m
  | rounds + 1, m, k =>
    if k ≤ 308 then quotient m (powerOfTen k)
    else if m = 0 then 0
    else shrink rounds (quotient m (powerOfTen 308)) (k - 308)

/-- The magnitude of `significand * 10 ^ exponent`, if it is finite. -/
def scaled? (significand : Nat) (exponent : Int) : Option Nat :=
  let m := Double.nearest (significand * Nat.pow 2 1074) 1
  match exponent with
  | .ofNat k =>
    if m = 0 then some 0
    else if 308 < k then none
    else
      let scaled := product m (powerOfTen k)
      if scaled < Double.infinity then some scaled else none
  | .negSucc k => some (shrink 4 m (k + 1))

/-- The floating-point number that is written, if it is finite. -/
def toDouble? (numeral : Numeral) : Option Double :=
  let (n, beyond) := gather 0 numeral.whole
  let (n, ignored) := gather n numeral.fraction
  let places : Int := numeral.fraction.length - ignored.length
  let exponent := numeral.exponent.getD 0 + beyond.length - places
  (scaled? n exponent).map (Double.ofMagnitude numeral.negative)

end Numeral

end QueryGraph.Json
