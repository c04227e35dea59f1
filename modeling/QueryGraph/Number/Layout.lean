import QueryGraph.Number.Decimal

namespace QueryGraph.Number

/-- The decisions of a text format about floating-point numbers. -/
structure Layout where
  /-- Which of two equally near digit strings is written. -/
  tie : Tie
  /-- The least power of ten at which a leading digit is still written positionally; the
  greatest is `10 ^ 15`. -/
  leastPositional : Int
  /-- Whether a positive exponent carries a sign. -/
  plusSign : Bool
  deriving Repr

namespace Layout

/-- The digits of a decimal without trailing zeros. -/
def significant (d : Decimal) : List Char :=
  ((Nat.toDigits 10 d.coefficient).reverse.dropWhile (· == '0')).reverse

/-- The power of ten at which the leading digit of a decimal stands. -/
def leading (d : Decimal) : Int :=
  d.exponent + (Nat.toDigits 10 d.coefficient).length - 1

/-- Digits with a point behind the digit of `10 ^ 0`, and at least one digit on both sides. -/
def positional (digits : List Char) (power : Int) : List Char :=
  match power with
  | .ofNat p =>
    let fraction := digits.drop (p + 1)
    digits.take (p + 1) ++ List.replicate (p + 1 - digits.length) '0' ++
      '.' :: if fraction.isEmpty then ['0'] else fraction
  | .negSucc p => '0' :: '.' :: (List.replicate p '0' ++ digits)

/-- One digit, the others behind a point, and the power of ten. -/
def scientific (plusSign : Bool) (digits : List Char) (power : Int) : List Char :=
  let fraction := digits.drop 1
  let sign := if power < 0 then ['-'] else if plusSign then ['+'] else []
  digits.take 1 ++ (if fraction.isEmpty then [] else '.' :: fraction) ++
    'e' :: (sign ++ Nat.toDigits 10 power.natAbs)

/-- A finite magnitude. There is always a point or an exponent. -/
def magnitude (layout : Layout) (m : Nat) : List Char :=
  if m = 0 then ['0', '.', '0']
  else
    let decimal := Double.shortest layout.tie m
    let digits := significant decimal
    let power := leading decimal
    if layout.leastPositional ≤ power ∧ power < 16 then positional digits power
    else scientific layout.plusSign digits power

/-- A finite number, with a minus sign if its sign bit is set. -/
def number (layout : Layout) (d : Double) : List Char :=
  (if d.negative then ['-'] else []) ++ layout.magnitude d.magnitude

end Layout

end QueryGraph.Number
