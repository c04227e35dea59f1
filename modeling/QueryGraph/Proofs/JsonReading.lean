import QueryGraph.Json.Reader
import QueryGraph.Json.Writer
import QueryGraph.Proofs.Numerals

namespace QueryGraph.Json

/-- Whether what comes behind a value is what may come there inside another value: a comma, a
closing bracket, or nothing. -/
def Closes (rest : List Char) : Prop :=
  ∀ c ∈ rest.head?, c = ',' ∨ c = ']' ∨ c = '\x7d'

theorem closes_nil : Closes [] := nofun

theorem closes_cons {c : Char} (rest : List Char) (closes : c = ',' ∨ c = ']' ∨ c = '\x7d') :
    Closes (c :: rest) := by
  rintro _ ⟨⟩
  exact closes

/-- Whether a text is a number without a sign as JSON writes it. -/
inductive IsUnsigned : List Char → Prop where
  | intro {whole fraction exponent : List Char}
      (digits : ∀ c ∈ whole ++ fraction, c.isDigit = true) (nonempty : whole ≠ [])
      (noZero : whole.length ≠ 1 → whole.head? ≠ some '0')
      (isExponent : exponent = [] ∨ ∃ plusSign power, exponent = exponentText plusSign power) :
      IsUnsigned (whole ++ (pointed fraction ++ exponent))

/-- Whether a text is a number as JSON writes it. -/
inductive IsNumeral : List Char → Prop where
  | positive {text : List Char} (isUnsigned : IsUnsigned text) : IsNumeral text
  | negative {text : List Char} (isUnsigned : IsUnsigned text) : IsNumeral ('-' :: text)

theorem readDigits_append {digits tail : List Char} (all : ∀ c ∈ digits, c.isDigit = true)
    (nonempty : digits ≠ []) (stops : tail.takeWhile Char.isDigit = []) :
    readDigits (digits ++ tail) = some (digits, tail) := by
  simp [readDigits, takeWhile_digits all stops, nonempty]

theorem readExponent_closes {rest : List Char} (closes : Closes rest) :
    readExponent rest = some ([], rest) := by
  cases rest with
  | nil => rfl
  | cons c cs =>
    have noMark : ¬ (c = 'e' ∨ c = 'E') := by
      rcases closes c rfl with rfl | rfl | rfl <;> decide
    rw [readExponent, if_neg noMark]

theorem takeWhile_closes {rest : List Char} (closes : Closes rest) :
    rest.takeWhile Char.isDigit = [] := by
  cases rest with
  | nil => rfl
  | cons c cs =>
    have noDigit : c.isDigit = false := by
      rcases closes c rfl with rfl | rfl | rfl <;> rfl
    simp [noDigit]

theorem readFraction_pointed {fraction tail : List Char}
    (all : ∀ c ∈ fraction, c.isDigit = true) (stops : tail.takeWhile Char.isDigit = [])
    (noPoint : tail.head? ≠ some '.') :
    readFraction (pointed fraction ++ tail) = some (pointed fraction, tail) := by
  cases fraction with
  | nil =>
    rw [pointed, List.isEmpty_nil, if_pos rfl, List.nil_append]
    unfold readFraction
    split
    · exact absurd rfl noPoint
    · rfl
  | cons c cs =>
    have digits := readDigits_append all (List.cons_ne_nil c cs) stops
    rw [pointed, List.isEmpty_cons, if_neg Bool.false_ne_true, List.cons_append, readFraction,
      digits]
    rfl

theorem readExponent_exponentText (plusSign : Bool) (power : Int) {rest : List Char}
    (closes : Closes rest) :
    readExponent (exponentText plusSign power ++ rest) =
      some (exponentText plusSign power, rest) := by
  have digits := readDigits_append (isDigit_toDigits power.natAbs) Nat.toDigits_ne_nil
    (takeWhile_closes closes)
  have unsigned : readPower (Nat.toDigits 10 power.natAbs ++ rest) =
      some (Nat.toDigits 10 power.natAbs, rest) := by
    rw [← digits]
    obtain ⟨c, cs, cons, isDigit⟩ := toDigits_eq_cons power.natAbs
    rw [cons, List.cons_append]
    unfold readPower
    split
    · rename_i same
      cases same
      cases isDigit
    · rename_i same
      cases same
      cases isDigit
    · rfl
  unfold exponentText
  split
  · simp [readExponent, readPower, digits]
  split
  · simp [readExponent, readPower, digits]
  · simp [readExponent, unsigned]

theorem exponent_append {exponent rest : List Char}
    (isExponent : exponent = [] ∨ ∃ plusSign power, exponent = exponentText plusSign power)
    (closes : Closes rest) :
    readExponent (exponent ++ rest) = some (exponent, rest) ∧
      (exponent ++ rest).takeWhile Char.isDigit = [] ∧ (exponent ++ rest).head? ≠ some '.' := by
  rcases isExponent with rfl | ⟨plusSign, power, rfl⟩
  · refine ⟨readExponent_closes closes, takeWhile_closes closes, fun point => ?_⟩
    rcases closes _ point with same | same | same <;> cases same
  · exact ⟨readExponent_exponentText plusSign power closes, rfl, nofun⟩

theorem takeWhile_pointed (fraction : List Char) {tail : List Char}
    (stops : tail.takeWhile Char.isDigit = []) :
    (pointed fraction ++ tail).takeWhile Char.isDigit = [] := by
  unfold pointed
  split
  · exact stops
  · rfl

namespace IsUnsigned

variable {text rest : List Char}

theorem head (isUnsigned : IsUnsigned text) :
    ∃ c cs, text = c :: cs ∧ c.isDigit = true := by
  obtain ⟨digits, nonempty, _, _⟩ := isUnsigned
  obtain ⟨c, cs, rfl⟩ := List.exists_cons_of_ne_nil nonempty
  exact ⟨c, _, rfl, digits c (List.mem_cons_self ..)⟩

theorem read (isUnsigned : IsUnsigned text) (closes : Closes rest) :
    readUnsigned (text ++ rest) = some (text, rest) := by
  obtain @⟨whole, fraction, exponent, digits, nonempty, noZero, isExponent⟩ := isUnsigned
  obtain ⟨allWhole, allFraction⟩ := List.forall_mem_append.1 digits
  obtain ⟨reads, stops, noPoint⟩ := exponent_append isExponent closes
  have readsWhole := readDigits_append allWhole nonempty (takeWhile_pointed fraction stops)
  have readsFraction := readFraction_pointed allFraction stops noPoint
  have plain : ¬ (whole.length ≠ 1 ∧ whole.head? = some '0') := fun zero => noZero zero.1 zero.2
  simp [readUnsigned, readsWhole, plain, readsFraction, reads]

end IsUnsigned

namespace IsNumeral

variable {literal rest : List Char}

theorem head (isNumeral : IsNumeral literal) :
    ∃ c cs, literal = c :: cs ∧ (c = '-' ∨ c.isDigit = true) := by
  cases isNumeral with
  | positive isUnsigned =>
    obtain ⟨c, cs, same, isDigit⟩ := isUnsigned.head
    exact ⟨c, cs, same, Or.inr isDigit⟩
  | negative isUnsigned => exact ⟨'-', _, rfl, Or.inl rfl⟩

theorem read (isNumeral : IsNumeral literal) (closes : Closes rest) :
    readNumber (literal ++ rest) = some (literal, rest) := by
  cases isNumeral with
  | positive isUnsigned =>
    rw [← isUnsigned.read closes]
    obtain ⟨c, cs, rfl, isDigit⟩ := isUnsigned.head
    rw [List.cons_append]
    unfold readNumber
    split
    · rename_i same
      cases same
      cases isDigit
    · rfl
  | negative isUnsigned =>
    rw [List.cons_append, readNumber, isUnsigned.read closes]
    rfl

end IsNumeral

/-- The code point that four hexadecimal digits stand for. -/
def codePoint? : List Char → Option Nat
  | [a, b, c, d] => Text.hexCode? a b c d
  | _ => none

theorem codePoint?_control : ∀ n < 0x20, codePoint? (Text.hexPadded 4 n) = some n := by
  decide +kernel

theorem charOfCode?_toNat (c : Char) : Text.charOfCode? c.toNat = some c := by
  have isChar : c.toNat.isValidChar := c.valid
  rw [Text.charOfCode?, dif_pos isChar]
  rfl

theorem readString_control {c : Char} (control : c.toNat < 0x20) (sofar rest : List Char) :
    readString sofar ('\\' :: 'u' :: (Text.hexPadded 4 c.toNat ++ rest)) =
      readString (c :: sofar) rest := by
  have code := codePoint?_control c.toNat control
  unfold codePoint? at code
  split at code
  · rename_i digits
    have single : isHighHalf c.toNat = false := by
      rw [isHighHalf, decide_eq_false_iff_not]
      omega
    rw [digits]
    simp [readString, code, single, charOfCode?_toNat]
  · cases code

theorem readString_escapeChar (c : Char) (sofar rest : List Char) :
    readString sofar (escapeChar c ++ rest) = readString (c :: sofar) rest := by
  unfold escapeChar
  split
  · rename_i same
    rw [same]
    rfl
  split
  · rename_i same
    rw [same]
    rfl
  split
  · rename_i same
    rw [same]
    rfl
  split
  · rename_i same
    rw [same]
    rfl
  split
  · rename_i same
    rw [same]
    rfl
  split
  · rename_i same
    rw [same]
    rfl
  split
  · rename_i same
    rw [same]
    rfl
  split
  · rename_i control
    exact readString_control control sofar rest
  · rename_i noBackslash _ _ _ _ _ printed
    simp [readString, noBackslash, printed]

theorem readString_escaped (sofar text rest : List Char) :
    readString sofar (text.flatMap escapeChar ++ '"' :: rest) =
      some (String.ofList (sofar.reverse ++ text), rest) := by
  induction text generalizing sofar with
  | nil => simp [readString]
  | cons c text ih =>
    rw [List.flatMap_cons, List.append_assoc, readString_escapeChar, ih, List.reverse_cons,
      List.append_assoc, List.singleton_append]

/-- The text of a string is an opening quote, and what is read as the string behind it. -/
theorem readString_stringText (text : String) (rest : List Char) :
    ∃ quoted, stringText text ++ rest = '"' :: quoted ∧
      readString [] quoted = some (text, rest) := by
  refine ⟨text.toList.flatMap escapeChar ++ '"' :: rest, by simp [stringText], ?_⟩
  rw [readString_escaped, List.reverse_nil, List.nil_append, String.ofList_toList]

/-- Whether all numbers in a value are numerals. -/
inductive Valid : Json → Prop where
  | null : Valid .null
  | bool (value : Bool) : Valid (.bool value)
  | number {literal : List Char} (isNumeral : IsNumeral literal) : Valid (.number literal)
  | string (text : String) : Valid (.string text)
  | array {items : List Json} (valid : ∀ item ∈ items, Valid item) : Valid (.array items)
  | object {fields : List (String × Json)} (valid : ∀ field ∈ fields, Valid field.2) :
      Valid (.object fields)

attribute [simp] Valid.null Valid.bool Valid.string

@[simp]
theorem valid_array {items : List Json} :
    Valid (.array items) ↔ ∀ item ∈ items, Valid item :=
  ⟨fun | .array valid => valid, .array⟩

@[simp]
theorem valid_object {fields : List (String × Json)} :
    Valid (.object fields) ↔ ∀ field ∈ fields, Valid field.2 :=
  ⟨fun | .object valid => valid, .object⟩

/-- Whether a value is read from its text, wherever the text stands and with any bound that the
text is not longer than. -/
structure ReadsBack (value : Json) : Prop where
  starts : ∀ rest, ∃ c cs, putCompact value rest = c :: cs ∧ isSpace c = false ∧ c ≠ ']'
  grows : ∀ rest, rest.length < (putCompact value rest).length
  reads : ∀ bound rest, Closes rest → (putCompact value rest).length ≤ bound + 1 + rest.length →
    readValue (bound + 1) (putCompact value rest) = some (value, rest)

theorem ReadsBack.within {value : Json} (back : ReadsBack value) {bound : Nat} {rest : List Char}
    (closes : Closes rest) (enough : (putCompact value rest).length ≤ bound + rest.length) :
    readValue bound (putCompact value rest) = some (value, rest) := by
  have grows := back.grows rest
  obtain ⟨bound, rfl⟩ : ∃ bound', bound = bound' + 1 := ⟨bound - 1, by omega⟩
  exact back.reads bound rest closes enough

@[simp]
theorem skipSpaces_cons {c : Char} (rest : List Char) (visible : isSpace c = false) :
    skipSpaces (c :: rest) = c :: rest := by
  simp [skipSpaces, visible]

/-- What is left of a bound that is enough for an item and what comes behind it is enough for the
item alone, and for what comes behind it. -/
theorem ReadsBack.first {value : Json} (back : ReadsBack value) {bound : Nat}
    {tail rest : List Char} (closes : Closes tail) (grows : rest.length < tail.length)
    (enough : (putCompact value tail).length ≤ bound + rest.length) :
    ∃ bound', bound = bound' + 1 ∧ tail.length ≤ bound' + rest.length ∧
      readValue bound' (putCompact value tail) = some (value, tail) := by
  have longer := back.grows tail
  obtain ⟨bound, rfl⟩ : ∃ bound', bound = bound' + 1 := ⟨bound - 1, by omega⟩
  exact ⟨bound, rfl, by omega, back.within closes (by omega)⟩

theorem closes_putCompactItems (items : List Json) (rest : List Char) :
    Closes (putCompactItems items rest) := by
  cases items with
  | nil => exact closes_cons rest (Or.inr (Or.inl rfl))
  | cons item others => exact closes_cons _ (Or.inl rfl)

theorem length_lt_putCompactItems {items : List Json} (back : ∀ item ∈ items, ReadsBack item)
    (rest : List Char) : rest.length < (putCompactItems items rest).length := by
  induction items with
  | nil => exact Nat.lt_succ_self _
  | cons item others ih =>
    obtain ⟨first, more⟩ := List.forall_mem_cons.1 back
    exact Nat.lt_trans (ih more) (Nat.lt_succ_of_lt (first.grows _))

theorem readItems_putCompact {item : Json} {others : List Json}
    (back : ∀ value ∈ item :: others, ReadsBack value) {bound : Nat} {rest : List Char}
    (enough : (putCompact item (putCompactItems others rest)).length ≤ bound + rest.length)
    (sofar : List Json) :
    readItems bound sofar (putCompact item (putCompactItems others rest)) =
      some (.array (sofar.reverse ++ item :: others), rest) := by
  -- Each item takes one off the bound, and at least one character off the text.
  induction others generalizing item bound sofar with
  | nil =>
    obtain ⟨first, more⟩ := List.forall_mem_cons.1 back
    obtain ⟨bound, rfl, -, reads⟩ := first.first (closes_putCompactItems [] rest)
      (length_lt_putCompactItems more rest) enough
    rw [readItems, reads]
    simp [putCompactItems, isSpace]
  | cons next others ih =>
    obtain ⟨first, more⟩ := List.forall_mem_cons.1 back
    obtain ⟨bound, rfl, enough', reads⟩ := first.first
      (closes_putCompactItems (next :: others) rest) (length_lt_putCompactItems more rest) enough
    rw [putCompactItems, List.length_cons] at enough'
    have others := ih more (Nat.le_of_succ_le enough') (item :: sofar)
    rw [readItems, reads]
    simp [putCompactItems, isSpace, others]

theorem closes_putCompactFields (fields : List (String × Json)) (rest : List Char) :
    Closes (putCompactFields fields rest) := by
  cases fields with
  | nil => exact closes_cons rest (Or.inr (Or.inr rfl))
  | cons field others => exact closes_cons _ (Or.inl rfl)

theorem length_lt_putCompactFields {fields : List (String × Json)}
    (back : ∀ field ∈ fields, ReadsBack field.2) (rest : List Char) :
    rest.length < (putCompactFields fields rest).length := by
  induction fields with
  | nil => exact Nat.lt_succ_self _
  | cons field others ih =>
    obtain ⟨first, more⟩ := List.forall_mem_cons.1 back
    have grows := Nat.lt_trans (ih more) (first.grows _)
    simp only [putCompactFields, List.length_cons, List.length_append]
    omega

section

variable (name : String) {value : Json} {bound : Nat} {text rest : List Char}
  (sofar : List (String × Json))

theorem readFields_next (reads : readValue bound text = some (value, ',' :: rest)) :
    readFields (bound + 1) sofar (stringText name ++ ':' :: text) =
      readFields bound ((name, value) :: sofar) rest := by
  obtain ⟨quoted, opens, readsName⟩ := readString_stringText name (':' :: text)
  rw [opens]
  simp [readFields, isSpace, readsName, reads]

theorem readFields_last (reads : readValue bound text = some (value, '\x7d' :: rest)) :
    readFields (bound + 1) sofar (stringText name ++ ':' :: text) =
      some (.object ((name, value) :: sofar).reverse, rest) := by
  obtain ⟨quoted, opens, readsName⟩ := readString_stringText name (':' :: text)
  rw [opens]
  simp [readFields, isSpace, readsName, reads]

end

theorem readFields_putCompact {name : String} {value : Json} {others : List (String × Json)}
    (back : ∀ field ∈ (name, value) :: others, ReadsBack field.2) {bound : Nat}
    {rest : List Char}
    (enough : (putCompact value (putCompactFields others rest)).length ≤ bound + rest.length)
    (sofar : List (String × Json)) :
    readFields bound sofar
        (stringText name ++ ':' :: putCompact value (putCompactFields others rest)) =
      some (.object (sofar.reverse ++ (name, value) :: others), rest) := by
  induction others generalizing name value bound sofar with
  | nil =>
    obtain ⟨first, more⟩ := List.forall_mem_cons.1 back
    obtain ⟨bound, rfl, -, reads⟩ := first.first (closes_putCompactFields [] rest)
      (length_lt_putCompactFields more rest) enough
    rw [readFields_last name sofar reads, List.reverse_cons]
  | cons next others ih =>
    obtain ⟨name', value'⟩ := next
    obtain ⟨first, more⟩ := List.forall_mem_cons.1 back
    obtain ⟨bound, rfl, enough', reads⟩ := first.first
      (closes_putCompactFields ((name', value') :: others) rest)
      (length_lt_putCompactFields more rest) enough
    rw [putCompactFields, List.length_cons, List.length_append, List.length_cons] at enough'
    have enough : (putCompact value' (putCompactFields others rest)).length ≤
        bound + rest.length := by omega
    have others := ih more enough ((name, value) :: sofar)
    rw [readFields_next name sofar reads, others, List.reverse_cons, List.append_assoc,
      List.singleton_append]

theorem ReadsBack.of_cons {value : Json} {c : Char} {cs : List Char}
    (put : ∀ rest, putCompact value rest = c :: (cs ++ rest)) (visible : isSpace c = false)
    (noEnd : c ≠ ']') (reads : ∀ bound rest, Closes rest →
      readValue (bound + 1) (c :: (cs ++ rest)) = some (value, rest)) : ReadsBack value where
  starts rest := ⟨c, _, put rest, visible, noEnd⟩
  grows rest := by
    rw [put, List.length_cons, List.length_append]
    omega
  reads bound rest closes _ := by
    rw [put]
    exact reads bound rest closes

theorem ReadsBack.null : ReadsBack .null := by
  refine .of_cons (fun _ => rfl) (rfl : isSpace 'n' = false) (by decide) fun bound rest _ => ?_
  simp [readValue, isSpace, readWord]

theorem ReadsBack.bool (value : Bool) : ReadsBack (.bool value) := by
  cases value with
  | true =>
    refine .of_cons (fun _ => rfl) (rfl : isSpace 't' = false) (by decide) fun bound rest _ => ?_
    simp [readValue, isSpace, readWord]
  | false =>
    refine .of_cons (fun _ => rfl) (rfl : isSpace 'f' = false) (by decide) fun bound rest _ => ?_
    simp [readValue, isSpace, readWord]

theorem ne_of_numeral {c : Char} (isStart : c = '-' ∨ c.isDigit = true) {other : Char}
    (noMinus : other ≠ '-') (noDigit : other.isDigit = false) : c ≠ other := by
  rintro rfl
  rcases isStart with same | isDigit
  · exact noMinus same
  · rw [noDigit] at isDigit
    cases isDigit

theorem ReadsBack.number {literal : List Char} (isNumeral : IsNumeral literal) :
    ReadsBack (.number literal) := by
  obtain ⟨c, cs, rfl, isStart⟩ := isNumeral.head
  have visible : isSpace c = false := by
    simp [isSpace, ne_of_numeral isStart]
  have noEnd : c ≠ ']' := ne_of_numeral isStart (by decide) rfl
  refine .of_cons (fun _ => rfl) visible noEnd fun bound rest closes => ?_
  have reads := isNumeral.read closes
  rw [List.cons_append] at reads
  simp [readValue, visible, ne_of_numeral isStart, reads]

theorem ReadsBack.string (text : String) : ReadsBack (.string text) := by
  refine .of_cons (fun _ => rfl) (rfl : isSpace '"' = false) (by decide) fun bound rest _ => ?_
  obtain ⟨quoted, opens, reads⟩ := readString_stringText text rest
  rw [stringText, List.cons_append, List.cons.injEq] at opens
  rw [opens.2]
  simp [readValue, isSpace, reads]

theorem ReadsBack.array {items : List Json} (back : ∀ item ∈ items, ReadsBack item) :
    ReadsBack (.array items) := by
  cases items with
  | nil =>
    refine @ReadsBack.of_cons _ _ [']'] (fun _ => rfl) (rfl : isSpace '[' = false) (by decide)
      fun bound rest _ => ?_
    simp [readValue, isSpace]
  | cons item others =>
    obtain ⟨first, more⟩ := List.forall_mem_cons.1 back
    refine ⟨fun rest => ⟨'[', _, rfl, rfl, by decide⟩, fun rest => ?_,
      fun bound rest _ enough => ?_⟩
    · have longer := first.grows (putCompactItems others rest)
      have grows := length_lt_putCompactItems more rest
      simp only [putCompact, List.length_cons]
      omega
    · rw [putCompact, List.length_cons] at enough
      have reads := readItems_putCompact back (by omega : _ ≤ bound + rest.length) []
      obtain ⟨c, cs, starts, visible, noEnd⟩ := first.starts (putCompactItems others rest)
      rw [starts] at reads
      have opening : isSpace '[' = false := rfl
      rw [putCompact, starts]
      simp [readValue, opening, visible, noEnd, reads]

theorem ReadsBack.object {fields : List (String × Json)}
    (back : ∀ field ∈ fields, ReadsBack field.2) : ReadsBack (.object fields) := by
  cases fields with
  | nil =>
    refine @ReadsBack.of_cons _ _ ['\x7d'] (fun _ => rfl) (rfl : isSpace '\x7b' = false)
      (by decide) fun bound rest _ => ?_
    simp [readValue, isSpace]
  | cons field others =>
    obtain ⟨name, value⟩ := field
    obtain ⟨first, more⟩ := List.forall_mem_cons.1 back
    refine ⟨fun rest => ⟨'\x7b', _, rfl, rfl, by decide⟩, fun rest => ?_,
      fun bound rest _ enough => ?_⟩
    · have longer : _ < (putCompact value (putCompactFields others rest)).length := first.grows _
      have grows := length_lt_putCompactFields more rest
      simp only [putCompact, List.length_cons, List.length_append]
      omega
    · rw [putCompact, List.length_cons, List.length_append, List.length_cons] at enough
      have reads := readFields_putCompact back (by omega : _ ≤ bound + rest.length) []
      obtain ⟨quoted, opens, -⟩ := readString_stringText name
        (':' :: putCompact value (putCompactFields others rest))
      rw [opens] at reads
      rw [putCompact, opens]
      simp [readValue, isSpace, reads]

theorem Valid.readsBack {value : Json} (valid : Valid value) : ReadsBack value := by
  induction valid with
  | null => exact .null
  | bool value => exact .bool value
  | number isNumeral => exact .number isNumeral
  | string text => exact .string text
  | array _ back => exact .array back
  | object _ back => exact .object back

/-- A value is read from its text. -/
theorem ofText?_compact {value : Json} (valid : Valid value) :
    ofText? (compact value) = some value := by
  have reads := valid.readsBack.within closes_nil (Nat.le_succ (compact value).length)
  rw [compact] at reads
  rw [ofText?, compact, reads]
  rfl

theorem compact_injective {value value' : Json} (valid : Valid value) (valid' : Valid value')
    (same : compact value = compact value') : value = value' := by
  have reads := ofText?_compact valid
  rw [same, ofText?_compact valid'] at reads
  exact (Option.some.inj reads).symm

end QueryGraph.Json
