import QueryGraph.Number.Double

namespace QueryGraph.Number

/-- The number `coefficient * 10 ^ exponent`. -/
structure Decimal where
  coefficient : Nat
  exponent : Int
  deriving DecidableEq, Repr, Inhabited

namespace Decimal

/-- The magnitude nearest to a decimal. Exponents far outside the range of the finite
magnitudes are settled before any power is computed. -/
def toMagnitude (d : Decimal) : Nat :=
  if d.coefficient = 0 then 0
  else if 310 ≤ d.exponent then Double.infinity
  else if Nat.log2 d.coefficient + 3 * d.exponent < -1081 then 0
  else match d.exponent with
    | .ofNat e => Double.nearest (d.coefficient * Nat.pow 10 e * Nat.pow 2 1074) 1
    | .negSucc e => Double.nearest (d.coefficient * Nat.pow 2 1074) (Nat.pow 10 (e + 1))

end Decimal

/-- Which of two equally near decimals is taken. -/
inductive Tie where
  | up
  | even
  deriving DecidableEq, Repr

namespace Double

/-- One unit of `2 ^ -1074` is this many units of `10 ^ -1074`. -/
def decimalUnits : Nat :=
  Nat.pow 5 1074

/-- The number of decimal digits of `n`, from its number of binary digits. -/
def decimalLength (n : Nat) : Nat :=
  let guess := Nat.log2 n * 30103 / 100000
  if Nat.pow 10 (guess + 1) ≤ n then guess + 2 else guess + 1

/-- The decimal of `length` digits that is nearest to a magnitude among the two around it,
if it reads back as that magnitude. All quantities are counted in units of `10 ^ -1074`. -/
def decimalOfLength? (tie : Tie) (magnitude length : Nat) : Option Decimal :=
  let value := units magnitude * decimalUnits
  let dropped := decimalLength value - length
  let step := Nat.pow 10 dropped
  let below := value / step
  let rest := value % step
  let readsBack (coefficient : Nat) : Bool :=
    nearest (coefficient * step) decimalUnits == magnitude
  let upper : Bool := match tie with
    | .up => decide (step ≤ 2 * rest)
    | .even => decide (step < 2 * rest ∨ (2 * rest = step ∧ below % 2 = 1))
  let near := if upper then below + 1 else below
  let far := if upper then below else below + 1
  let exponent : Int := dropped - 1074
  if readsBack near then some ⟨near, exponent⟩
  else if readsBack far then some ⟨far, exponent⟩
  else none

/-- The decimal of fewest digits that reads back as a magnitude, and of those the nearest.
Seventeen digits are enough for every finite magnitude; the exact value stands behind them. -/
def shortest (tie : Tie) (magnitude : Nat) : Decimal :=
  ((List.range 17).findSome? fun n => decimalOfLength? tie magnitude (n + 1)).getD
    ⟨units magnitude * decimalUnits, -1074⟩

end Double

end QueryGraph.Number
