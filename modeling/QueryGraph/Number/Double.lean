/-!
Binary floating-point numbers of 64 bits, held as bit patterns.

Every finite magnitude is a whole number of units of `2 ^ -1074`, so comparing and rounding
magnitudes is arithmetic on natural numbers, and no machine arithmetic is involved.
-/

namespace QueryGraph.Number

/-- A binary floating-point number: a sign bit, eleven bits of exponent and fifty-two of
fraction. Equality of values of this type is equality of bits. -/
structure Double where
  bits : UInt64
  deriving DecidableEq, Repr, Inhabited

namespace Double

/-- The pattern without its sign bit. Patterns are ordered as the magnitudes they stand for. -/
def magnitude (d : Double) : Nat :=
  d.bits.toNat % Nat.pow 2 63

def negative (d : Double) : Bool :=
  decide (Nat.pow 2 63 ≤ d.bits.toNat)

/-- The pattern of infinity. Smaller patterns are finite, larger ones are not numbers. -/
def infinity : Nat :=
  2047 * Nat.pow 2 52

def isFinite (d : Double) : Bool :=
  decide (d.magnitude < infinity)

def isNaN (d : Double) : Bool :=
  decide (infinity < d.magnitude)

def ofMagnitude (negative : Bool) (magnitude : Nat) : Double :=
  ⟨UInt64.ofNat ((if negative then Nat.pow 2 63 else 0) + magnitude)⟩

/-- The same number with the other sign. -/
def neg (d : Double) : Double :=
  ofMagnitude (!d.negative) d.magnitude

/-- Numerical equality: what is not a number equals nothing, and the two zeros are equal. -/
def equals (a b : Double) : Bool :=
  !a.isNaN && !b.isNaN && (a.bits == b.bits || (a.magnitude == 0 && b.magnitude == 0))

/-- How many units of `2 ^ -1074` a magnitude is worth. The rule goes on beyond the finite
patterns, where infinity takes the place of `2 ^ 1024`. -/
def units (magnitude : Nat) : Nat :=
  if magnitude < Nat.pow 2 53 then magnitude
  else (Nat.pow 2 52 + magnitude % Nat.pow 2 52) * Nat.pow 2 (magnitude / Nat.pow 2 52 - 1)

/-- The magnitude nearest to `num / den` units; halfway between two, the even one. What lies
beyond the largest finite magnitude by half a step or more is infinity. -/
def nearest (num den : Nat) : Nat :=
  let scale := Nat.log2 (num / den) - 52
  let step := den * Nat.pow 2 scale
  let mantissa := num / step
  let rest := num % step
  let up := if step < 2 * rest ∨ (2 * rest = step ∧ mantissa % 2 = 1) then 1 else 0
  min infinity (scale * Nat.pow 2 52 + mantissa + up)

end Double

end QueryGraph.Number
