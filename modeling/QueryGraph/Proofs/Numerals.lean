import Mathlib.Data.List.TakeWhile
import QueryGraph.Number.Layout
import QueryGraph.Proofs.Lexing
import QueryGraph.Proofs.Rounding

namespace QueryGraph

open QueryGraph.Lexer QueryGraph.Number

/-- A fraction with its point; no digits are no fraction. -/
def pointed (fraction : List Char) : List Char :=
  if fraction.isEmpty then [] else '.' :: fraction

theorem takeWhile_digits {digits tail : List Char} (all : ∀ c ∈ digits, c.isDigit = true)
    (stops : tail.takeWhile Char.isDigit = []) :
    (digits ++ tail).takeWhile Char.isDigit = digits := by
  rw [List.takeWhile_append_of_pos all, stops, List.append_nil]

theorem fractionDigits_pointed {fraction tail : List Char}
    (all : ∀ c ∈ fraction, c.isDigit = true) (stops : tail.takeWhile Char.isDigit = [])
    (noPoint : Scan.fractionDigits tail = []) :
    Scan.fractionDigits (pointed fraction ++ tail) = fraction := by
  cases fraction with
  | nil => exact noPoint
  | cons c cs => exact takeWhile_digits all stops

theorem apart_stops {rest : List Char} (apart : Apart rest = true) :
    rest.takeWhile Char.isDigit = [] ∧ Scan.fractionDigits rest = [] ∧
      Scan.exponent? rest = none := by
  refine ⟨takeWhile_eq_nil (fun _ => isNameChar_of_isDigit) apart, ?_, ?_⟩
  · unfold Scan.fractionDigits
    split
    · rename_i more
      cases more with
      | nil => rfl
      | cons c cs =>
        have other : c.isDigit = false := by simpa [Apart] using apart
        simp [other]
    · rfl
  · cases rest with
    | nil => rfl
    | cons c cs =>
      have other : ¬ (c = 'e' ∨ c = 'E') := by
        rintro (rfl | rfl) <;> cases apart
      rw [Scan.exponent?, if_neg other]

/-- Digits alone are an integer below `2 ^ 64`, or they are refused together. -/
theorem Lexer.Scan.number_digits {digits rest : List Char}
    (all : ∀ c ∈ digits, c.isDigit = true) (apart : Apart rest = true) :
    Scan.number (digits ++ rest) =
      if Nat.ofDigitChars 10 digits 0 < 2 ^ 64 then
        .token (.integer (Nat.ofDigitChars 10 digits 0)) digits.length
      else .fault (.number (String.ofList digits)) 0 digits.length := by
  obtain ⟨stops, noPoint, noExponent⟩ := apart_stops apart
  unfold Scan.number
  simp only [takeWhile_digits all stops, List.drop_left, noPoint, List.isEmpty_nil, if_true,
    List.drop_zero, noExponent, Option.isNone_none, Bool.and_true]
  rfl

theorem number_integer {digits rest : List Char} (all : ∀ c ∈ digits, c.isDigit = true)
    (fits : Nat.ofDigitChars 10 digits 0 < 2 ^ 64) (apart : Apart rest = true) :
    Scan.number (digits ++ rest) =
      .token (.integer (Nat.ofDigitChars 10 digits 0)) digits.length := by
  rw [Scan.number_digits all apart, if_pos fits]

theorem number_float {whole fraction tail : List Char} {power : Int} {size : Nat}
    (all : ∀ c ∈ whole ++ fraction, c.isDigit = true)
    (stops : (pointed fraction ++ tail).takeWhile Char.isDigit = [])
    (stops' : tail.takeWhile Char.isDigit = []) (noPoint : Scan.fractionDigits tail = [])
    (isFloat : fraction ≠ [] ∨ Scan.exponent? tail ≠ none)
    (exponent : (Scan.exponent? tail).getD (0, 0) = (power, size)) :
    Scan.number (whole ++ (pointed fraction ++ tail)) =
      .token (.float (.ofMagnitude false
        (Decimal.toMagnitude ⟨Nat.ofDigitChars 10 (whole ++ fraction) 0, power - fraction.length⟩)))
        (whole.length + (pointed fraction).length + size) := by
  have allWhole : ∀ c ∈ whole, c.isDigit = true := fun c member =>
    all c (List.mem_append_left _ member)
  have allFraction : ∀ c ∈ fraction, c.isDigit = true := fun c member =>
    all c (List.mem_append_right _ member)
  have length : (if fraction.isEmpty then 0 else fraction.length + 1) =
      (pointed fraction).length := by
    unfold pointed
    split <;> rfl
  have notInteger : (fraction.isEmpty && (Scan.exponent? tail).isNone) = false := by
    rw [Bool.and_eq_false_iff]
    rcases isFloat with nonempty | some
    · exact Or.inl (by simpa using nonempty)
    · exact Or.inr (Option.isNone_eq_false_iff.2 (Option.isSome_iff_ne_none.2 some))
  unfold Scan.number
  simp only [takeWhile_digits allWhole stops, List.drop_left,
    fractionDigits_pointed allFraction stops' noPoint, length, notInteger, exponent]
  rfl

theorem isDigit_toDigits (n : Nat) : ∀ c ∈ Nat.toDigits 10 n, c.isDigit = true :=
  fun _ member => Nat.isDigit_of_mem_toDigits (by decide) (by decide) member

theorem toDigits_eq_cons (n : Nat) :
    ∃ c cs, Nat.toDigits 10 n = c :: cs ∧ c.isDigit = true := by
  have all := isDigit_toDigits n
  cases digits : Nat.toDigits 10 n with
  | nil => exact absurd digits Nat.toDigits_ne_nil
  | cons c cs =>
    rw [digits] at all
    exact ⟨c, cs, rfl, all c (List.mem_cons_self ..)⟩

theorem Lexer.Scan.ofText_digit {c : Char} (isDigit : c.isDigit = true) (text : List Char) :
    Scan.ofText (c :: text) = Scan.number (c :: text) := by
  have noStart : isNameStart c = false := by
    rw [← Bool.not_eq_true]
    intro start
    rw [isDigit_eq_false start] at isDigit
    cases isDigit
  have noQuote : c ≠ '"' := by
    rintro rfl
    cases isDigit
  have noDollar : c ≠ '$' := by
    rintro rfl
    cases isDigit
  simp [Scan.ofText, noQuote, noDollar, noStart, isDigit]

theorem spells_number {text : List Char} {token : Token}
    (starts : text.head?.map Char.isDigit = some true) (isToken : token ≠ .endOfInput)
    (scans : ∀ rest, Apart rest = true → Scan.number (text ++ rest) = .token token text.length) :
    Spells text [token] := by
  intro rest more apart next
  cases text with
  | nil => cases starts
  | cons c cs =>
    have isDigit : c.isDigit = true := by simpa using starts
    refine .token (isBlank_eq_false (isNameChar_of_isDigit isDigit)) ?_ isToken next
    rw [Scan.ofText_digit isDigit, ← List.cons_append, ← List.length_cons, ← scans rest apart]

theorem spells_toDigits {n : Nat} (fits : n < 2 ^ 64) :
    Spells (Nat.toDigits 10 n) [.integer n] := by
  have value : Nat.ofDigitChars 10 (Nat.toDigits 10 n) 0 = n := Nat.ofDigitChars_ten_toDigits
  refine spells_number ?_ nofun fun rest apart => ?_
  · obtain ⟨c, cs, digits, isDigit⟩ := toDigits_eq_cons n
    simp [digits, isDigit]
  · have scans := number_integer (isDigit_toDigits n) (by rwa [value]) apart
    rwa [value] at scans

theorem spells_subtract {text : List Char} {tokens : List Token}
    (spells : Spells text tokens) :
    Spells ('-' :: text) (.operator .subtract :: tokens) :=
  fun _ _ apart next => tokenizes_symbol rfl (Or.inr rfl) (spells _ _ apart next)

/-- The exponent that stands behind the digits of a number. -/
def exponentText (plusSign : Bool) (power : Int) : List Char :=
  'e' :: ((if power < 0 then ['-'] else if plusSign then ['+'] else []) ++
    Nat.toDigits 10 power.natAbs)

theorem exponent_exponentText (plusSign : Bool) (power : Int) {rest : List Char}
    (apart : Apart rest = true) :
    Scan.exponent? (exponentText plusSign power ++ rest) =
      some (power, (exponentText plusSign power).length) := by
  unfold exponentText
  generalize size : power.natAbs = n
  obtain ⟨c, cs, digits, isDigit⟩ := toDigits_eq_cons n
  have value : Nat.ofDigitChars 10 (c :: cs) 0 = n := by
    rw [← digits, Nat.ofDigitChars_ten_toDigits]
  have all : ∀ d ∈ c :: cs, d.isDigit = true := digits ▸ isDigit_toDigits n
  have run : (c :: (cs ++ rest)).takeWhile Char.isDigit = c :: cs :=
    takeWhile_digits all (apart_stops apart).1
  have noMinus : c ≠ '-' := by
    rintro rfl
    cases isDigit
  have noPlus : c ≠ '+' := by
    rintro rfl
    cases isDigit
  rw [digits]
  split
  · simp [Scan.exponent?, run, value]
    omega
  split
  · simp [Scan.exponent?, run, value]
    omega
  · simp [Scan.exponent?, run, value, noMinus, noPlus]
    omega

theorem head_isDigit {digits : List Char} (all : ∀ c ∈ digits, c.isDigit = true)
    (nonempty : digits ≠ []) (tail : List Char) :
    ((digits ++ tail).head?.map Char.isDigit) = some true := by
  cases digits with
  | nil => exact absurd rfl nonempty
  | cons c cs => simp [all c (List.mem_cons_self ..)]

theorem spells_fraction (whole fraction : List Char)
    (all : ∀ c ∈ whole ++ fraction, c.isDigit = true) (nonempty : whole ≠ [])
    (nonempty' : fraction ≠ []) :
    Spells (whole ++ '.' :: fraction) [.float (.ofMagnitude false
      (Decimal.toMagnitude ⟨Nat.ofDigitChars 10 (whole ++ fraction) 0, -fraction.length⟩))] := by
  have point : pointed fraction = '.' :: fraction := if_neg (by simpa using nonempty')
  refine spells_number (head_isDigit (fun c member => all c (List.mem_append_left _ member))
    nonempty _) nofun fun rest apart => ?_
  obtain ⟨stops, noPoint, noExponent⟩ := apart_stops apart
  have exponent : (Scan.exponent? rest).getD (0, 0) = (0, 0) := by
    rw [noExponent]
    rfl
  have scans := number_float all (by rw [point]; rfl) stops noPoint (Or.inl nonempty') exponent
  rw [point, Int.zero_sub] at scans
  simpa using scans

theorem spells_exponent (whole fraction : List Char)
    (all : ∀ c ∈ whole ++ fraction, c.isDigit = true) (nonempty : whole ≠ []) (plusSign : Bool)
    (power : Int) :
    Spells (whole ++ (pointed fraction ++ exponentText plusSign power)) [.float (.ofMagnitude false
      (Decimal.toMagnitude ⟨Nat.ofDigitChars 10 (whole ++ fraction) 0,
        power - fraction.length⟩))] := by
  refine spells_number (head_isDigit (fun c member => all c (List.mem_append_left _ member))
    nonempty _) nofun fun rest apart => ?_
  have exponent := exponent_exponentText plusSign power apart
  have stops : (pointed fraction ++ (exponentText plusSign power ++ rest)).takeWhile Char.isDigit =
      [] := by
    unfold pointed
    split <;> rfl
  have scans := number_float all stops rfl rfl (Or.inr (by simp [exponent])) (by rw [exponent])
  simpa [Nat.add_assoc] using scans

theorem ofDigitChars_append_zeros (digits : List Char) (zeros : Nat) :
    Nat.ofDigitChars 10 (digits ++ List.replicate zeros '0') 0 =
      Nat.ofDigitChars 10 digits 0 * 10 ^ zeros := by
  rw [Nat.ofDigitChars_append, Nat.ofDigitChars_replicate_zero, Nat.mul_comm]

namespace Number.Layout

variable {d : Decimal}

theorem exists_zeros (d : Decimal) :
    ∃ zeros, Nat.toDigits 10 d.coefficient = significant d ++ List.replicate zeros '0' := by
  have split := List.takeWhile_append_dropWhile (p := (· == '0'))
    (l := (Nat.toDigits 10 d.coefficient).reverse)
  have zeros : (Nat.toDigits 10 d.coefficient).reverse.takeWhile (· == '0') =
      List.replicate ((Nat.toDigits 10 d.coefficient).reverse.takeWhile (· == '0')).length '0' :=
    List.eq_replicate_of_mem fun c member => by
      simpa using List.mem_takeWhile_imp member
  have reversed := congrArg List.reverse split
  rw [List.reverse_append, List.reverse_reverse, zeros, List.reverse_replicate] at reversed
  exact ⟨_, reversed.symm⟩

theorem significant_isDigit : ∀ c ∈ significant d, c.isDigit = true := by
  obtain ⟨zeros, digits⟩ := exists_zeros d
  intro c member
  exact isDigit_toDigits d.coefficient c (digits ▸ List.mem_append_left _ member)

theorem coefficient_eq {zeros : Nat}
    (digits : Nat.toDigits 10 d.coefficient = significant d ++ List.replicate zeros '0') :
    d.coefficient = Nat.ofDigitChars 10 (significant d) 0 * 10 ^ zeros := by
  rw [← ofDigitChars_append_zeros, ← digits, Nat.ofDigitChars_ten_toDigits]

theorem significant_ne_nil (nonzero : d.coefficient ≠ 0) : significant d ≠ [] := by
  intro none
  obtain ⟨zeros, digits⟩ := exists_zeros d
  have value := coefficient_eq digits
  rw [none, Nat.ofDigitChars_nil, Nat.zero_mul] at value
  exact nonzero value

/-- Whether digits, the first of them at some power of ten, stand for a magnitude wherever the
point is put. -/
structure Stands (digits : List Char) (power : Int) (m : Nat) : Prop where
  all : ∀ c ∈ digits, c.isDigit = true
  nonempty : digits ≠ []
  least : -1074 ≤ power + 1 - digits.length
  value : ∀ (exponent : Int) (zeros : Nat), -1074 ≤ exponent →
    exponent + zeros = power + 1 - digits.length →
    Decimal.toMagnitude ⟨Nat.ofDigitChars 10 (digits ++ List.replicate zeros '0') 0, exponent⟩ = m

theorem stands_significant (nonzero : d.coefficient ≠ 0) (whole : -1074 ≤ d.exponent) :
    Stands (significant d) (leading d) d.toMagnitude := by
  obtain ⟨dropped, digits⟩ := exists_zeros d
  have length := congrArg List.length digits
  rw [List.length_append, List.length_replicate] at length
  refine ⟨significant_isDigit, significant_ne_nil nonzero, ?_, ?_⟩
  · unfold leading
    omega
  · intro exponent zeros whole' place
    unfold leading at place
    have total : zeros + (exponent + 1074).toNat = dropped + (d.exponent + 1074).toNat := by omega
    refine Decimal.toMagnitude_congr whole' whole ?_
    unfold Decimal.scaled
    rw [ofDigitChars_append_zeros, coefficient_eq digits, Nat.mul_assoc, Nat.mul_assoc,
      ← Nat.pow_add, ← Nat.pow_add, total]

namespace Stands

variable {digits : List Char} {power : Int} {p m : Nat}

theorem value_digits (stands : Stands digits power m) :
    Decimal.toMagnitude ⟨Nat.ofDigitChars 10 digits 0, power + 1 - digits.length⟩ = m := by
  simpa using stands.value _ 0 stands.least (by omega)

theorem spells_long (stands : Stands digits p m) (short : digits.length ≤ p + 1) :
    Spells (digits ++ List.replicate (p + 1 - digits.length) '0' ++ ['.', '0'])
      [.float (.ofMagnitude false m)] := by
  have zeros : digits ++ List.replicate (p + 1 - digits.length) '0' ++ ['0'] =
      digits ++ List.replicate (p + 2 - digits.length) '0' := by
    rw [List.append_assoc, ← List.replicate_succ', ← Nat.sub_add_comm short]
  have value := stands.value (-1) (p + 2 - digits.length) (by decide) (by omega)
  rw [← value, ← zeros]
  refine spells_fraction _ ['0'] ?_ (by simp [stands.nonempty]) (by decide)
  rw [zeros]
  intro c member
  rcases List.mem_append.1 member with member | member
  · exact stands.all c member
  · rw [(List.mem_replicate.1 member).2]
    rfl

theorem spells_split (stands : Stands digits p m) (long : p + 1 < digits.length) :
    Spells (digits.take (p + 1) ++ '.' :: digits.drop (p + 1))
      [.float (.ofMagnitude false m)] := by
  have whole := List.take_append_drop (p + 1) digits
  have exponent : (p : Int) + 1 - digits.length = -(digits.drop (p + 1)).length := by
    rw [List.length_drop]
    omega
  have nonempty : digits.take (p + 1) ≠ [] := by simpa using stands.nonempty
  have spells := spells_fraction (digits.take (p + 1)) (digits.drop (p + 1))
    (by rw [whole]; exact stands.all) nonempty (by simpa using long)
  rwa [whole, ← exponent, stands.value_digits] at spells

theorem spells_small (stands : Stands digits (.negSucc p) m) :
    Spells ('0' :: '.' :: (List.replicate p '0' ++ digits)) [.float (.ofMagnitude false m)] := by
  have exponent : Int.negSucc p + 1 - digits.length =
      -(List.replicate p '0' ++ digits).length := by
    rw [List.length_append, List.length_replicate]
    omega
  have zeros : Nat.ofDigitChars 10 (['0'] ++ (List.replicate p '0' ++ digits)) 0 =
      Nat.ofDigitChars 10 digits 0 := by
    simp [Nat.ofDigitChars_cons, Nat.ofDigitChars_append, Nat.ofDigitChars_replicate_zero]
  have all : ∀ c ∈ ['0'] ++ (List.replicate p '0' ++ digits), c.isDigit = true := by
    simp only [List.mem_append, List.mem_singleton, List.mem_replicate]
    rintro c (rfl | ⟨-, rfl⟩ | member)
    · rfl
    · rfl
    · exact stands.all c member
  have spells := spells_fraction ['0'] _ all (List.cons_ne_nil _ _) (by simp [stands.nonempty])
  rwa [zeros, ← exponent, stands.value_digits] at spells

theorem spells_positional (stands : Stands digits power m) :
    Spells (positional digits power) [.float (.ofMagnitude false m)] := by
  cases power with
  | ofNat p =>
    by_cases short : digits.length ≤ p + 1
    · have none : digits.drop (p + 1) = [] := List.drop_eq_nil_of_le short
      simpa [positional, none, List.take_of_length_le short] using stands.spells_long short
    · have long : p + 1 < digits.length := Nat.lt_of_not_le short
      have noZeros : p + 1 - digits.length = 0 := Nat.sub_eq_zero_of_le (Nat.le_of_lt long)
      simpa [positional, noZeros, short] using stands.spells_split long
  | negSucc p => exact stands.spells_small

theorem spells_scientific (stands : Stands digits power m) (plusSign : Bool) :
    Spells (scientific plusSign digits power) [.float (.ofMagnitude false m)] := by
  obtain ⟨c, cs, rfl⟩ := List.exists_cons_of_ne_nil stands.nonempty
  have exponent : power - cs.length = power + 1 - (c :: cs).length := by
    rw [List.length_cons]
    omega
  rw [← stands.value_digits, ← exponent]
  exact spells_exponent [c] cs stands.all (List.cons_ne_nil _ _) plusSign power

end Stands

theorem coefficient_shortest (tie : Tie) {m : Nat} (finite : m < Double.infinity)
    (nonzero : m ≠ 0) : (Double.shortest tie m).coefficient ≠ 0 := by
  intro zero
  have reads := (Double.shortest_reads_back tie finite).2
  rw [Decimal.toMagnitude, if_pos zero] at reads
  exact nonzero reads.symm

theorem spells_magnitude (layout : Layout) {m : Nat} (finite : m < Double.infinity) :
    Spells (layout.magnitude m) [.float (.ofMagnitude false m)] := by
  unfold magnitude
  split
  · rename_i zero
    subst zero
    have zeros : Nat.ofDigitChars 10 (['0'] ++ ['0']) 0 = 0 := by decide
    have spells := spells_fraction ['0'] ['0'] (by simp) (by simp) (by simp)
    rwa [Decimal.toMagnitude, if_pos zeros] at spells
  · rename_i nonzero
    obtain ⟨whole, reads⟩ := Double.shortest_reads_back layout.tie finite
    have stands := stands_significant (coefficient_shortest layout.tie finite nonzero) whole
    rw [reads] at stands
    dsimp only
    split
    · exact stands.spells_positional
    · exact stands.spells_scientific layout.plusSign

end Number.Layout

namespace Number.Double

theorem toNat_ofMagnitude {m : Nat} (bound : m < 2 ^ 63) (negative : Bool) :
    (ofMagnitude negative m).bits.toNat = (if negative then 2 ^ 63 else 0) + m := by
  have small : (if negative then 2 ^ 63 else 0) + m < 2 ^ 64 := by
    split <;> omega
  exact UInt64.toNat_ofNat_of_lt' small

theorem magnitude_ofMagnitude {m : Nat} (bound : m < 2 ^ 63) (negative : Bool) :
    (ofMagnitude negative m).magnitude = m := by
  rw [magnitude, toNat_ofMagnitude bound, Nat.pow_eq]
  split <;> omega

theorem negative_ofMagnitude {m : Nat} (bound : m < 2 ^ 63) (negative : Bool) :
    (ofMagnitude negative m).negative = negative := by
  rw [Double.negative, toNat_ofMagnitude bound]
  cases negative with
  | false => simpa using bound
  | true => simp

theorem magnitude_lt (d : Double) : d.magnitude < 2 ^ 63 :=
  Nat.mod_lt _ (by decide)

theorem ofMagnitude_magnitude (d : Double) : ofMagnitude d.negative d.magnitude = d := by
  obtain ⟨bits⟩ := d
  have bound := bits.toNat_lt
  have parts : (if (⟨bits⟩ : Double).negative then 2 ^ 63 else 0) + (⟨bits⟩ : Double).magnitude =
      bits.toNat := by
    simp only [Double.negative, magnitude, Nat.pow_eq, decide_eq_true_eq]
    split <;> omega
  rw [ofMagnitude, Nat.pow_eq, parts, UInt64.ofNat_toNat]

theorem neg_ofMagnitude {m : Nat} (bound : m < 2 ^ 63) :
    (ofMagnitude false m).neg = ofMagnitude true m := by
  rw [neg, negative_ofMagnitude bound, magnitude_ofMagnitude bound, Bool.not_false]

end Number.Double

/-- Whether a constant is a number that the query language can spell, if it is one at all. -/
def Constant.isFinite : Constant → Bool
  | .double value => value.isFinite
  | _ => true

/-- The tokens of a constant. A negative number has a token for its sign, and what is not a number
has no sign. -/
def Constant.tokens : Constant → List Token
  | .int value =>
    match value.toInt with
    | .ofNat n => [.integer n]
    | .negSucc n => [.operator .subtract, .integer (n + 1)]
  | .double value =>
    if value.negative && !value.isNaN then
      [.operator .subtract, .float (.ofMagnitude false value.magnitude)]
    else [.float value]
  | .bool value => [.boolean value]
  | .string value => [.string value]

namespace Constant

theorem spells_int (value : Int64) : Spells (intText value.toInt) (tokens (.int value)) := by
  have least := value.le_toInt
  have most := value.toInt_lt
  rw [tokens]
  cases number : value.toInt with
  | ofNat n =>
    rw [number, Int.ofNat_eq_natCast] at most
    have fits : n < 2 ^ 64 := by omega
    exact spells_toDigits fits
  | negSucc n =>
    rw [number] at least
    have fits : n + 1 < 2 ^ 64 := by omega
    exact spells_subtract (spells_toDigits fits)

theorem derives_int (value : Int64) :
    Derives (.operand Operator.atomPrecedence (.atom (.int value))) (tokens (.int value)) := by
  have least := value.le_toInt
  have most := value.toInt_lt
  have back : Int64.ofInt value.toInt = value := Int64.ofInt_toInt value
  rw [tokens]
  cases number : value.toInt with
  | ofNat n =>
    rw [number, Int.ofNat_eq_natCast] at back most
    have derives := Derives.integer (by omega : n < 2 ^ 63)
    rwa [back] at derives
  | negSucc n =>
    rw [number] at back least
    have derives := Derives.negativeInteger (by omega : n + 1 ≤ 2 ^ 63)
    rwa [Int.natCast_add, Int.natCast_one, ← Int.negSucc_eq, back] at derives

theorem spells_number (layout : Layout) {value : Double} (finite : value.isFinite = true) :
    Spells (layout.number value) (tokens (.double value)) := by
  have small : value.magnitude < Double.infinity := by simpa [Double.isFinite] using finite
  have isNumber : value.isNaN = false := by
    rw [Double.isNaN, decide_eq_false_iff_not]
    omega
  have spells := layout.spells_magnitude small
  have whole := value.ofMagnitude_magnitude
  rw [Layout.number, tokens, isNumber]
  cases sign : value.negative with
  | false =>
    rw [sign] at whole
    rw [whole] at spells
    exact spells
  | true => exact spells_subtract spells

theorem spells_double {value : Double} (finite : value.isFinite = true) :
    Spells (floatText value) (tokens (.double value)) := by
  rw [floatText, if_pos finite]
  exact spells_number floatLayout finite

theorem derives_double (value : Double) :
    Derives (.operand Operator.atomPrecedence (.atom (.double value)))
      (tokens (.double value)) := by
  have whole := value.ofMagnitude_magnitude
  rw [tokens]
  split
  · rename_i signed
    have derives := Derives.negativeFloat (.ofMagnitude false value.magnitude)
    have sign : value.negative = true := (Bool.and_eq_true_iff.1 signed).1
    rwa [Double.neg_ofMagnitude value.magnitude_lt, ← sign, whole] at derives
  · exact .float value

theorem spells_text {constant : Constant} (finite : constant.isFinite = true) :
    Spells constant.text constant.tokens := by
  cases constant with
  | int value => exact spells_int value
  | double value => exact spells_double finite
  | bool value =>
    cases value with
    | true => exact spells_word (rfl : isIdentifier "true" = true)
    | false => exact spells_word (rfl : isIdentifier "false" = true)
  | string value => exact spells_literal value

theorem derives_tokens (constant : Constant) :
    Derives (.operand Operator.atomPrecedence (.atom constant)) constant.tokens := by
  cases constant with
  | int value => exact derives_int value
  | double value => exact derives_double value
  | bool value => exact .boolean value
  | string value => exact .string value

end Constant

end QueryGraph
