import Mathlib.Data.Nat.Basic
import Mathlib.Tactic.Ring
import QueryGraph.Number.Decimal

namespace QueryGraph.Number

namespace Double

theorem nearest_scale (num den : Nat) {factor : Nat} (positive : 0 < factor) :
    nearest (num * factor) (den * factor) = nearest num den := by
  have quotient : num * factor / (den * factor) = num / den :=
    Nat.mul_div_mul_right num den positive
  simp only [nearest, quotient, Nat.pow_eq]
  generalize Nat.log2 (num / den) - 52 = scale
  have step : den * factor * 2 ^ scale = den * 2 ^ scale * factor := by ring
  simp only [step]
  generalize den * 2 ^ scale = step
  have above : step * factor < 2 * (num % step * factor) ↔ step < 2 * (num % step) := by
    rw [← Nat.mul_assoc, Nat.mul_lt_mul_right positive]
  have halfway : 2 * (num % step * factor) = step * factor ↔ 2 * (num % step) = step := by
    rw [← Nat.mul_assoc, Nat.mul_left_inj positive.ne']
  rw [Nat.mul_div_mul_right num step positive, Nat.mul_mod_mul_right]
  simp only [above, halfway]

theorem nearest_congr {num den num' den' : Nat} (positive : 0 < den) (positive' : 0 < den')
    (same : num * den' = num' * den) : nearest num den = nearest num' den' :=
  calc
    nearest num den = nearest (num * den') (den * den') := (nearest_scale num den positive').symm
    _ = nearest (num' * den) (den' * den) := by rw [same, Nat.mul_comm den]
    _ = nearest num' den' := nearest_scale num' den' positive

theorem nearest_zero {num den : Nat} (small : 2 * num < den) : nearest num den = 0 := by
  have less : num < den := by omega
  have down : 2 * num ≤ den := Nat.le_of_lt small
  simp [nearest, Nat.div_eq_of_lt less, Nat.mod_eq_of_lt less, down]

theorem nearest_infinity {num high low : Nat} (enough : 2098 ≤ high + low)
    (large : 2 ^ high ≤ num) : nearest (num * 2 ^ low) 1 = infinity := by
  have total : 2 ^ (high + low) ≤ num * 2 ^ low := by
    rw [Nat.pow_add]
    exact Nat.mul_le_mul_right _ large
  generalize num * 2 ^ low = num at total
  have nonzero : num ≠ 0 := (Nat.lt_of_lt_of_le (Nat.two_pow_pos (high + low)) total).ne'
  have bits : 2098 ≤ Nat.log2 num := Nat.le_trans enough ((Nat.le_log2 nonzero).2 total)
  have mantissa : 2 ^ 52 ≤ num / 2 ^ (Nat.log2 num - 52) := by
    rw [Nat.le_div_iff_mul_le (Nat.two_pow_pos _), ← Nat.pow_add,
      Nat.add_sub_of_le (Nat.le_trans (by decide) bits)]
    exact Nat.log2_self_le nonzero
  simp only [nearest, infinity, Nat.pow_eq, Nat.div_one, Nat.one_mul]
  apply Nat.min_eq_left
  omega

theorem nearest_units {m : Nat} (finite : m < infinity) : nearest (units m) 1 = m := by
  have bound : m ≤ infinity := Nat.le_of_lt finite
  by_cases subnormal : m < 2 ^ 53
  · have exact : units m = m := if_pos subnormal
    have scale : Nat.log2 m - 52 = 0 := by
      rcases Nat.eq_zero_or_pos m with rfl | positive
      · rfl
      · have bits := (Nat.log2_lt positive.ne').2 subnormal
        omega
    simpa [nearest, exact, scale, Nat.mod_one] using bound
  · have split := Nat.div_add_mod m (2 ^ 52)
    have exact : units m = (2 ^ 52 + m % 2 ^ 52) * 2 ^ (m / 2 ^ 52 - 1) := if_neg subnormal
    have positive : 0 < 2 ^ (m / 2 ^ 52 - 1) := Nat.two_pow_pos _
    have bits : Nat.log2 (units m) = 52 + (m / 2 ^ 52 - 1) := by
      have low : 2 ^ 52 ≤ 2 ^ 52 + m % 2 ^ 52 := Nat.le_add_right _ _
      have high : 2 ^ 52 + m % 2 ^ 52 < 2 ^ 53 := by omega
      have nonzero : units m ≠ 0 := by
        rw [exact]
        exact (Nat.mul_pos (by omega) positive).ne'
      rw [Nat.log2_eq_iff nonzero, exact]
      constructor
      · rw [Nat.pow_add]
        exact Nat.mul_le_mul_right _ low
      · rw [Nat.add_right_comm, Nat.pow_add]
        exact Nat.mul_lt_mul_of_pos_right high positive
    have scale : Nat.log2 (units m / 1) - 52 = m / 2 ^ 52 - 1 := by
      rw [Nat.div_one, bits, Nat.add_sub_cancel_left]
    have whole : (m / 2 ^ 52 - 1) * 2 ^ 52 + (2 ^ 52 + m % 2 ^ 52) = m := by omega
    simp only [nearest, Nat.pow_eq]
    rw [scale, exact]
    simp only [Nat.one_mul, Nat.mul_mod_left, Nat.mul_div_cancel _ positive, whole]
    generalize 2 ^ (m / 2 ^ 52 - 1) = step at positive
    have down : ¬ (step < 2 * 0 ∨ (2 * 0 = step ∧ (2 ^ 52 + m % 2 ^ 52) % 2 = 1)) := by omega
    rw [if_neg down, Nat.add_zero, Nat.min_eq_right bound]

end Double

namespace Decimal

/-- What a decimal counts in units of `10 ^ -1074`, if that is a whole number. -/
def scaled (d : Decimal) : Nat :=
  d.coefficient * 10 ^ (d.exponent + 1074).toNat

theorem ten_pow (n : Nat) : 10 ^ n = 2 ^ n * 5 ^ n :=
  Nat.mul_pow 2 5 n

theorem two_pow_le_ten_pow {bits digits : Nat} (enough : bits * 62 ≤ digits * 205) :
    2 ^ bits ≤ 10 ^ digits := by
  rw [← Nat.pow_le_pow_iff_left (show 62 ≠ 0 by decide)]
  calc
    (2 ^ bits) ^ 62 = 2 ^ (bits * 62) := (Nat.pow_mul 2 bits 62).symm
    _ ≤ 2 ^ (205 * digits) := Nat.pow_le_pow_right (Nat.succ_pos 1) (by omega)
    _ = (2 ^ 205) ^ digits := Nat.pow_mul 2 205 digits
    _ ≤ (10 ^ 62) ^ digits := Nat.pow_le_pow_left (by decide) digits
    _ = (10 ^ digits) ^ 62 := Nat.pow_right_comm 10 62 digits

theorem double_lt_two_pow (n bits : Nat) :
    2 * (n * 2 ^ bits) < 2 ^ (Nat.log2 n + 1 + bits + 1) := by
  have product : n * 2 ^ bits < 2 ^ (Nat.log2 n + 1) * 2 ^ bits :=
    Nat.mul_lt_mul_of_pos_right Nat.lt_log2_self (Nat.two_pow_pos bits)
  rw [Nat.pow_succ, Nat.pow_add]
  omega

theorem decimalUnits_eq : Double.decimalUnits = 5 ^ 1074 := by
  unfold Double.decimalUnits
  generalize 1074 = bits
  exact Nat.pow_eq

theorem decimalUnits_pos : 0 < Double.decimalUnits := by
  rw [decimalUnits_eq]
  generalize 1074 = bits
  exact Nat.pow_pos (Nat.succ_pos 4)

theorem nearest_scaled_ofNat (coefficient e : Nat) {bits : Nat} (isBits : 1074 = bits) :
    Double.nearest (scaled ⟨coefficient, .ofNat e⟩) Double.decimalUnits =
      Double.nearest (coefficient * 10 ^ e * 2 ^ bits) 1 := by
  refine Double.nearest_congr decimalUnits_pos Nat.one_pos ?_
  have power : ((Int.ofNat e) + 1074).toNat = e + 1074 := by simp; omega
  simp only [scaled, decimalUnits_eq, power]
  rw [isBits, Nat.pow_add, ten_pow bits]
  ring

theorem nearest_scaled_negSucc (coefficient : Nat) {e bits : Nat} (isBits : 1074 = bits)
    (whole : e + 1 ≤ bits) :
    Double.nearest (scaled ⟨coefficient, .negSucc e⟩) Double.decimalUnits =
      Double.nearest (coefficient * 2 ^ bits) (10 ^ (e + 1)) := by
  refine Double.nearest_congr decimalUnits_pos (Nat.pow_pos (Nat.succ_pos 9)) ?_
  have power : ((Int.negSucc e) + 1074).toNat = bits - (e + 1) := by omega
  simp only [scaled, decimalUnits_eq, power]
  rw [isBits, Nat.mul_assoc, ← Nat.pow_add, Nat.sub_add_cancel whole, ten_pow bits, Nat.mul_assoc]

theorem toMagnitude_eq {d : Decimal} (whole : -1074 ≤ d.exponent) :
    d.toMagnitude = Double.nearest d.scaled Double.decimalUnits := by
  obtain ⟨coefficient, exponent⟩ := d
  unfold toMagnitude
  -- the bits get a name so that nothing multiplies out their power
  generalize isBits : (1074 : Nat) = bits
  simp only [Nat.pow_eq]
  split
  · rename_i zero
    have none : scaled ⟨coefficient, exponent⟩ = 0 := by simp_all [scaled]
    rw [none, Double.nearest_zero decimalUnits_pos]
  rename_i nonzero
  split
  · rename_i large
    cases exponent with
    | negSucc e => omega
    | ofNat e =>
      have range : 310 ≤ e := by simpa using large
      have power : 2 ^ 1024 ≤ 10 ^ e := two_pow_le_ten_pow (by omega)
      have product : 2 ^ 1024 ≤ coefficient * 10 ^ e :=
        Nat.le_trans power (Nat.le_mul_of_pos_left _ (Nat.pos_of_ne_zero nonzero))
      rw [nearest_scaled_ofNat coefficient e rfl, Double.nearest_infinity (by decide) product]
  split
  · rename_i small
    cases exponent with
    | ofNat e =>
      rw [Int.ofNat_eq_natCast] at small
      omega
    | negSucc e =>
      have most : e + 1 ≤ bits := by simp only at whole; omega
      rw [nearest_scaled_negSucc coefficient isBits most, Double.nearest_zero]
      have range : Nat.log2 coefficient + 1081 < 3 * (e + 1) := by omega
      exact Nat.lt_of_lt_of_le (double_lt_two_pow coefficient bits)
        (two_pow_le_ten_pow (by omega))
  · cases exponent with
    | ofNat e => rw [nearest_scaled_ofNat coefficient e isBits]
    | negSucc e =>
      have most : e + 1 ≤ bits := by simp only at whole; omega
      rw [nearest_scaled_negSucc coefficient isBits most]

theorem toMagnitude_congr {d d' : Decimal} (whole : -1074 ≤ d.exponent)
    (whole' : -1074 ≤ d'.exponent) (same : d.scaled = d'.scaled) :
    d.toMagnitude = d'.toMagnitude := by
  rw [toMagnitude_eq whole, toMagnitude_eq whole', same]

end Decimal

namespace Double

open Decimal

theorem reads_back_of_check {m dropped near far : Nat} {d : Decimal}
    (found : (if nearest (near * 10 ^ dropped) decimalUnits == m then
        some (⟨near, dropped - 1074⟩ : Decimal)
      else if nearest (far * 10 ^ dropped) decimalUnits == m then some ⟨far, dropped - 1074⟩
      else none) = some d) :
    -1074 ≤ d.exponent ∧ nearest d.scaled decimalUnits = m := by
  have least : (-1074 : Int) ≤ dropped - 1074 := by omega
  have power : ((dropped : Int) - 1074 + 1074).toNat = dropped := by omega
  split at found
  · rename_i reads
    cases found
    exact ⟨least, by rw [scaled, power, beq_iff_eq.1 reads]⟩
  split at found
  · rename_i reads
    cases found
    exact ⟨least, by rw [scaled, power, beq_iff_eq.1 reads]⟩
  · cases found

theorem shortest_reads_back (tie : Tie) {m : Nat} (finite : m < infinity) :
    -1074 ≤ (shortest tie m).exponent ∧ (shortest tie m).toMagnitude = m := by
  have exact : -1074 ≤ (shortest tie m).exponent ∧
      nearest (shortest tie m).scaled decimalUnits = m := by
    unfold shortest
    cases found : (List.range 17).findSome? fun n => decimalOfLength? tie m (n + 1) with
    | some d =>
      obtain ⟨n, _, found⟩ := List.exists_of_findSome?_eq_some found
      exact reads_back_of_check found
    | none =>
      have units' : scaled ⟨units m * decimalUnits, -1074⟩ = units m * decimalUnits := by
        simp [scaled]
      have scale := nearest_scale (units m) 1 decimalUnits_pos
      rw [Nat.one_mul, nearest_units finite] at scale
      exact ⟨Int.le_refl _, by rw [Option.getD_none, units', scale]⟩
  exact ⟨exact.1, by rw [toMagnitude_eq exact.1, exact.2]⟩

end Double

end QueryGraph.Number
