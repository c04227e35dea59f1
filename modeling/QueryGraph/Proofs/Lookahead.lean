import QueryGraph.Proofs.Lexing
import QueryGraph.Proofs.TokenStream

namespace List

variable {α : Type} {p : α → Bool} {a b stop : List α}

theorem takeWhile_eq_nil_of_head (stops : ∀ c ∈ stop.head?, p c = false) :
    stop.takeWhile p = [] := by
  cases stop with
  | nil => rfl
  | cons c stop => exact takeWhile_cons_of_neg (by simp [stops c rfl])

theorem takeWhile_append_stop (stops : ∀ c ∈ stop.head?, p c = false)
    (within : ((a ++ b).takeWhile p).length ≤ a.length) :
    (a ++ stop).takeWhile p = (a ++ b).takeWhile p := by
  rw [takeWhile_append] at within
  rw [takeWhile_append, takeWhile_append]
  split
  · rename_i all
    rw [if_pos all, length_append] at within
    have nothing : b.takeWhile p = [] := eq_nil_of_length_eq_zero (by omega)
    rw [nothing, takeWhile_eq_nil_of_head stops]
  · rfl

theorem exists_of_append_eq (front : List α) {tail : List α} (same : front ++ tail = a ++ b)
    (within : front.length ≤ a.length) : ∃ more, a = front ++ more ∧ tail = more ++ b := by
  rcases append_eq_append_iff.1 same with ⟨more, rfl, rfl⟩ | ⟨more, rfl, rfl⟩
  · exact ⟨more, rfl, rfl⟩
  · rw [length_append] at within
    have nothing : more = [] := eq_nil_of_length_eq_zero (by omega)
    subst nothing
    exact ⟨[], by simp, rfl⟩

end List

namespace QueryGraph

open QueryGraph.Lexer QueryGraph.Number QueryGraph.Text

/-- Whether a text continues no token: nothing is left of it, or a blank comes first. -/
def Breaks (text : List Char) : Prop :=
  ∀ c ∈ text.head?, isBlank c = true

theorem breaks_nil : Breaks [] :=
  nofun

theorem breaks_blank {blank : Char} (isBlank' : isBlank blank = true) (text : List Char) :
    Breaks (blank :: text) := by
  rintro c ⟨⟩
  exact isBlank'

namespace Breaks

variable {stop : List Char}

theorem noName (breaks : Breaks stop) : ∀ c ∈ stop.head?, isNameChar c = false := by
  intro c first
  cases isName : isNameChar c with
  | false => rfl
  | true =>
    have isBlank' := breaks c first
    rw [isBlank_eq_false isName] at isBlank'
    cases isBlank'

theorem noDigit (breaks : Breaks stop) : ∀ c ∈ stop.head?, c.isDigit = false := by
  intro c first
  cases isDigit : c.isDigit with
  | false => rfl
  | true =>
    have noName := breaks.noName c first
    rw [isNameChar_of_isDigit isDigit] at noName
    cases noName

theorem head?_ne (breaks : Breaks stop) {c : Char} (visible : isBlank c = false) :
    stop.head? ≠ some c := by
  intro first
  rw [breaks c first] at visible
  cases visible

end Breaks

namespace Lexer.Scan

variable {a b stop : List Char} {token : Token} {n : Nat}

theorem fractionDigits_of_head {text : List Char} (noPoint : text.head? ≠ some '.') :
    fractionDigits text = [] := by
  unfold fractionDigits
  split
  · exact absurd rfl noPoint
  · rfl

theorem fractionDigits_cut (breaks : Breaks stop)
    (within : fractionDigits (a ++ b) ≠ [] → (fractionDigits (a ++ b)).length < a.length) :
    fractionDigits (a ++ stop) = fractionDigits (a ++ b) := by
  cases a with
  | nil =>
    have nothing : fractionDigits b = [] :=
      Decidable.byContradiction fun some => absurd (within some) (Nat.not_lt_zero _)
    rw [List.nil_append, List.nil_append, nothing, fractionDigits_of_head (breaks.head?_ne rfl)]
  | cons c a =>
    by_cases isPoint : c = '.'
    · subst isPoint
      refine List.takeWhile_append_stop breaks.noDigit ?_
      by_cases nothing : fractionDigits ('.' :: a ++ b) = []
      · have none' : (a ++ b).takeWhile Char.isDigit = [] := nothing
        rw [none']
        exact Nat.zero_le _
      · exact Nat.le_of_lt_succ (within nothing)
    · simp [fractionDigits, isPoint]

def isSigned (rest : List Char) : Bool :=
  rest.head? == some '+' || rest.head? == some '-'

def exponentDigits (rest : List Char) : List Char :=
  (if isSigned rest then rest.drop 1 else rest).takeWhile Char.isDigit

theorem exponent_mark {mark : Char} (isMark : mark = 'e' ∨ mark = 'E') (rest : List Char) :
    exponent? (mark :: rest) =
      if (exponentDigits rest).isEmpty then none
      else
        let value : Int := Nat.ofDigitChars 10 (exponentDigits rest) 0
        some (if rest.head? == some '-' then -value else value,
          1 + (if isSigned rest then 1 else 0) + (exponentDigits rest).length) := by
  rw [exponent?, if_pos isMark]
  rfl

theorem exponent_of_head {text : List Char} (small : text.head? ≠ some 'e')
    (capital : text.head? ≠ some 'E') : exponent? text = none := by
  cases text with
  | nil => rfl
  | cons mark rest =>
    have noMark : ¬ (mark = 'e' ∨ mark = 'E') := by simpa using And.intro small capital
    rw [exponent?, if_neg noMark]

theorem exponent_pos {text : List Char} {pair : Int × Nat} (found : exponent? text = some pair) :
    0 < pair.2 := by
  cases text with
  | nil => cases found
  | cons mark rest =>
    by_cases isMark : mark = 'e' ∨ mark = 'E'
    · rw [exponent_mark isMark] at found
      split at found
      · cases found
      · cases found
        simp only
        omega
    · rw [exponent?, if_neg isMark] at found
      cases found

theorem exponentDigits_of_breaks (breaks : Breaks stop) : exponentDigits stop = [] := by
  have unsigned : isSigned stop = false := by
    simp [isSigned, breaks.head?_ne (c := '+') rfl, breaks.head?_ne (c := '-') rfl]
  rw [exponentDigits, unsigned]
  exact List.takeWhile_eq_nil_of_head breaks.noDigit

theorem exponentDigits_cut (breaks : Breaks stop)
    (within : exponentDigits (a ++ b) ≠ [] →
      (if isSigned (a ++ b) then 1 else 0) + (exponentDigits (a ++ b)).length ≤ a.length) :
    exponentDigits (a ++ stop) = exponentDigits (a ++ b) ∧
      (exponentDigits (a ++ b) ≠ [] → (a ++ stop).head? = (a ++ b).head?) := by
  cases a with
  | nil =>
    have nothing : exponentDigits b = [] := by
      refine Decidable.byContradiction fun some => ?_
      have positive := List.length_pos_iff.2 some
      have none' := within some
      simp only [List.nil_append, List.length_nil] at none'
      omega
    rw [List.nil_append, List.nil_append, nothing]
    exact ⟨exponentDigits_of_breaks breaks, fun some => absurd rfl some⟩
  | cons sign a =>
    refine ⟨?_, fun _ => rfl⟩
    have same : isSigned (sign :: a ++ stop) = isSigned (sign :: a ++ b) := rfl
    have short : (if isSigned (sign :: a ++ b) then 1 else 0) +
        (exponentDigits (sign :: a ++ b)).length ≤ a.length + 1 := by
      by_cases nothing : exponentDigits (sign :: a ++ b) = []
      · rw [nothing]
        split <;> simp
      · exact within nothing
    unfold exponentDigits at short ⊢
    rw [same]
    cases signed : isSigned (sign :: a ++ b) with
    | true =>
      simp only [signed, if_true] at short ⊢
      exact List.takeWhile_append_stop breaks.noDigit (by simpa [Nat.add_comm] using short)
    | false =>
      simp only [signed, Bool.false_eq_true, if_false] at short ⊢
      exact List.takeWhile_append_stop breaks.noDigit (by simpa using short)

theorem exponent_cut (breaks : Breaks stop)
    (within : ∀ value length, exponent? (a ++ b) = some (value, length) → length ≤ a.length) :
    exponent? (a ++ stop) = exponent? (a ++ b) := by
  cases a with
  | nil =>
    have nothing : exponent? b = none := by
      cases found : exponent? b with
      | none => rfl
      | some pair =>
        have positive := exponent_pos found
        have none' := within pair.1 pair.2 found
        rw [List.length_nil] at none'
        omega
    rw [List.nil_append, List.nil_append, nothing,
      exponent_of_head (breaks.head?_ne rfl) (breaks.head?_ne rfl)]
  | cons mark a =>
    by_cases isMark : mark = 'e' ∨ mark = 'E'
    · simp only [List.cons_append, exponent_mark isMark] at within ⊢
      have enough : exponentDigits (a ++ b) ≠ [] →
          (if isSigned (a ++ b) then 1 else 0) + (exponentDigits (a ++ b)).length ≤ a.length := by
        intro some
        have whole := within _ _ (if_neg (by simpa using some))
        simp only [List.length_cons] at whole
        omega
      obtain ⟨digits, head⟩ := @exponentDigits_cut a b stop breaks enough
      rw [digits]
      split
      · rfl
      · rename_i some
        rw [isSigned, isSigned, head (by simpa using some)]
    · simp [exponent?, isMark]

/-- How many characters a fraction takes up with its point. -/
def pointedLength (fraction : List Char) : Nat :=
  if fraction.isEmpty then 0 else fraction.length + 1

/-- The number with some digits, the digits of its fraction and its exponent. -/
def numberOf (whole fraction : List Char) (exponent : Option (Int × Nat)) : Scan :=
  if fraction.isEmpty && exponent.isNone then
    let value := Nat.ofDigitChars 10 whole 0
    if value < Nat.pow 2 64 then .token (.integer value) whole.length
    else .fault (.number (String.ofList whole)) 0 whole.length
  else
    let (power, exponentLength) := exponent.getD (0, 0)
    let decimal : Decimal :=
      ⟨Nat.ofDigitChars 10 (whole ++ fraction) 0, power - fraction.length⟩
    .token (.float (Double.ofMagnitude false decimal.toMagnitude))
      (whole.length + pointedLength fraction + exponentLength)

theorem length_numberOf (whole fraction : List Char) (exponent : Option (Int × Nat)) :
    (numberOf whole fraction exponent).length =
      whole.length + pointedLength fraction + (exponent.getD (0, 0)).2 := by
  unfold numberOf
  split
  · rename_i noFloat
    simp only [Bool.and_eq_true, Option.isNone_iff_eq_none] at noFloat
    rw [noFloat.2, pointedLength, if_pos noFloat.1]
    dsimp only
    split <;> rfl
  · rfl

theorem exists_digits (text : List Char) : ∃ digits rest, text = digits ++ rest ∧
    (digits ++ rest).takeWhile Char.isDigit = digits := by
  have whole : text.takeWhile Char.isDigit ++ text.dropWhile Char.isDigit = text :=
    List.takeWhile_append_dropWhile
  exact ⟨_, _, whole.symm, by rw [whole]⟩

theorem number_append {digits rest : List Char}
    (whole : (digits ++ rest).takeWhile Char.isDigit = digits) :
    number (digits ++ rest) = numberOf digits (fractionDigits rest)
      (exponent? (rest.drop (pointedLength (fractionDigits rest)))) := by
  rw [number, whole, List.drop_left]
  rfl

theorem number_cut (breaks : Breaks stop) (within : (number (a ++ b)).length ≤ a.length) :
    number (a ++ stop) = number (a ++ b) := by
  obtain ⟨digits, rest, parts, whole⟩ := exists_digits (a ++ b)
  rw [parts, number_append whole, length_numberOf] at within
  obtain ⟨behind, rfl, rfl⟩ := List.exists_of_append_eq digits parts.symm (by omega)
  have whole' : (digits ++ (behind ++ stop)).takeWhile Char.isDigit = digits := by
    rw [← List.append_assoc] at whole ⊢
    refine (List.takeWhile_append_stop breaks.noDigit ?_).trans whole
    rw [whole, List.length_append]
    exact Nat.le_add_right _ _
  rw [List.length_append] at within
  have fraction : fractionDigits (behind ++ stop) = fractionDigits (behind ++ b) := by
    refine fractionDigits_cut breaks fun some => ?_
    rw [pointedLength, if_neg (by simpa using some)] at within
    omega
  rw [parts, List.append_assoc, number_append whole, number_append whole', fraction]
  have short : pointedLength (fractionDigits (behind ++ b)) ≤ behind.length := by omega
  congr 1
  rw [List.drop_append_of_le_length short, List.drop_append_of_le_length short] at *
  refine exponent_cut breaks fun value length found => ?_
  rw [found, Option.getD_some] at within
  rw [List.length_drop]
  omega

theorem string_lt {value text : List Char} {length : Nat}
    (scans : string value length text = .token token n) : length < n := by
  have progress := string_progress (congrArg Scan.outcome scans)
  rwa [scans] at progress

theorem exists_of_longer (front : List Char) {rest : List Char} {length : Nat}
    (same : front ++ rest = a ++ b) (longer : length + front.length < n)
    (within : n ≤ length + a.length) :
    ∃ more, a = front ++ more ∧ rest = more ++ b ∧ n ≤ length + front.length + more.length := by
  obtain ⟨more, rfl, rfl⟩ := List.exists_of_append_eq front same (by omega)
  rw [List.length_append] at within
  exact ⟨more, rfl, rfl, by omega⟩

theorem string_append {value text : List Char} {length : Nat} (same : text = a ++ b)
    (scans : string value length text = .token token n) (within : n ≤ length + a.length) :
    string value length (a ++ stop) = .token token n := by
  fun_induction string value length text generalizing a with
  | case1 | case3 | case5 | case6 | case8 => cases scans
  | case2 value length rest =>
    cases scans
    obtain ⟨a, rfl, rfl⟩ := List.exists_of_append_eq ['"'] same (Nat.le_of_add_le_add_left within)
    rfl
  | case4 value length x y z w rest char found ih =>
    obtain ⟨a, rfl, rfl, within'⟩ :=
      exists_of_longer ['\\', 'u', x, y, z, w] same (string_lt scans) within
    simpa [string, found] using ih rfl scans within'
  | case7 value length c rest noCode char found ih =>
    obtain ⟨a, rfl, rfl, within'⟩ := exists_of_longer ['\\', c] same (string_lt scans) within
    simpa [string, found] using ih rfl scans within'
  | case9 value length c rest noQuote noEscape noCode noSimple ih =>
    obtain ⟨a, rfl, rfl, within'⟩ := exists_of_longer [c] same (string_lt scans) within
    have plain : c ≠ '\\' := by
      rintro rfl
      cases same' : a ++ b with
      | nil => exact noEscape rfl same'
      | cons d rest => exact noSimple d rest rfl same'
    simpa [string, plain, noQuote] using ih rfl scans within'

theorem symbol_cut (breaks : Breaks stop) {c : Char}
    (scans : symbol c (a ++ b) = .token token n) (within : n ≤ a.length + 1) :
    symbol c (a ++ stop) = .token token n := by
  cases a with
  | nil =>
    simp only [symbol, List.nil_append] at scans ⊢
    rw [if_neg (breaks.head?_ne rfl)]
    split at scans
    · cases scans
      cases within with
      | step impossible => cases impossible
    · exact scans
  | cons x a => exact scans

theorem reference_cut (breaks : Breaks stop)
    (scans : reference (a ++ b) = .token token n) (within : n ≤ a.length + 1) :
    reference (a ++ stop) = .token token n := by
  unfold reference at scans
  dsimp only at scans
  split at scans
  · rename_i starts
    cases scans
    have name : (a ++ stop).takeWhile isNameChar = (a ++ b).takeWhile isNameChar :=
      List.takeWhile_append_stop breaks.noName (Nat.le_of_succ_le_succ within)
    cases a with
    | nil =>
      have some : b.takeWhile isNameChar ≠ [] := by
        cases b with
        | nil => cases starts
        | cons c b => simp [isNameChar_of_isNameStart (show isNameStart c = true from starts)]
      exact absurd within (by simpa using some)
    | cons x a =>
      rw [reference, name]
      exact if_pos starts
  · cases scans

/-- A name or a keyword. -/
def word (c : Char) (rest : List Char) : Scan :=
  let word := c :: rest.takeWhile isNameChar
  .token (wordToken (String.ofList word)) word.length

/-- The first character tells what kind of token comes. -/
theorem ofText_cons (c : Char) : (∀ rest, ofText (c :: rest) = string [] 1 rest) ∨
    (∀ rest, ofText (c :: rest) = reference rest) ∨
    (∀ rest, ofText (c :: rest) = word c rest) ∨
    (∀ rest, ofText (c :: rest) = number (c :: rest)) ∨
    ∀ rest, ofText (c :: rest) = symbol c rest := by
  simp only [ofText]
  by_cases isQuote : c = '"'
  · exact Or.inl fun _ => if_pos isQuote
  by_cases isDollar : c = '$'
  · exact Or.inr (Or.inl fun _ => by rw [if_neg isQuote, if_pos isDollar])
  by_cases isWord : isNameStart c = true
  · refine Or.inr (Or.inr (Or.inl fun _ => ?_))
    rw [if_neg isQuote, if_neg isDollar, if_pos isWord, word]
  refine Or.inr (Or.inr (Or.inr ?_))
  by_cases isDigit : c.isDigit = true
  · exact Or.inl fun _ => by rw [if_neg isQuote, if_neg isDollar, if_neg isWord, if_pos isDigit]
  · exact Or.inr fun _ => by rw [if_neg isQuote, if_neg isDollar, if_neg isWord, if_neg isDigit]

/-- Behind a token that is all there the text may as well go on with a blank, or end. -/
theorem ofText_cut (breaks : Breaks stop) {c : Char}
    (scans : ofText (c :: (a ++ b)) = .token token n) (within : n ≤ a.length + 1) :
    ofText (c :: (a ++ stop)) = .token token n := by
  rcases ofText_cons c with kind | kind | kind | kind | kind <;> rw [kind] at scans ⊢
  · exact string_append rfl scans (by omega)
  · exact reference_cut breaks scans within
  · cases scans
    have name : (a ++ stop).takeWhile isNameChar = (a ++ b).takeWhile isNameChar :=
      List.takeWhile_append_stop breaks.noName (Nat.le_of_succ_le_succ within)
    rw [word, name]
  · have same : number (c :: a ++ stop) = number (c :: a ++ b) :=
      number_cut breaks (by rw [List.cons_append, scans]; exact within)
    exact same.trans scans
  · exact symbol_cut breaks scans within

theorem string_length_le {value text : List Char} {length : Nat}
    (scans : string value length text = .token token n) : n ≤ length + text.length := by
  fun_induction string value length text with
  | case1 | case3 | case5 | case6 | case8 => cases scans
  | case2 =>
    cases scans
    simp
  | case4 _ _ _ _ _ _ _ _ _ ih | case7 _ _ _ _ _ _ _ ih | case9 _ _ _ _ _ _ _ _ ih =>
    have rest := ih scans
    simp only [List.length_cons]
    omega

theorem symbol_length_le {c : Char} {text : List Char}
    (scans : symbol c text = .token token n) : n ≤ text.length + 1 := by
  unfold symbol at scans
  split at scans
  · rename_i long
    cases scans
    cases text with
    | nil => cases long
    | cons c text => simp
  · split at scans <;> cases scans
    exact Nat.succ_pos _

theorem reference_length_le {text : List Char} (scans : reference text = .token token n) :
    n ≤ text.length + 1 := by
  unfold reference at scans
  dsimp only at scans
  split at scans <;> cases scans
  exact Nat.succ_le_succ (List.takeWhile_prefix _).length_le

theorem pointedLength_le (text : List Char) :
    pointedLength (fractionDigits text) ≤ text.length := by
  unfold fractionDigits
  split
  · rename_i rest
    have shorter := (List.takeWhile_prefix (l := rest) Char.isDigit).length_le
    rw [pointedLength]
    split
    · exact Nat.zero_le _
    · exact Nat.succ_le_succ shorter
  · exact Nat.zero_le _

theorem exponentDigits_length_le (rest : List Char) :
    (exponentDigits rest).length ≤ rest.length - if isSigned rest then 1 else 0 := by
  unfold exponentDigits
  split
  · rw [← List.length_drop]
    exact (List.takeWhile_prefix _).length_le
  · exact (List.takeWhile_prefix _).length_le

theorem exponent_length_le (text : List Char) :
    ((exponent? text).getD (0, 0)).2 ≤ text.length := by
  cases text with
  | nil => exact Nat.zero_le _
  | cons mark rest =>
    by_cases isMark : mark = 'e' ∨ mark = 'E'
    · rw [exponent_mark isMark]
      split
      · exact Nat.zero_le _
      · rename_i some
        have positive : 0 < (exponentDigits rest).length :=
          List.length_pos_iff.2 (by simpa using some)
        have shorter := exponentDigits_length_le rest
        simp only [Option.getD_some, List.length_cons]
        omega
    · rw [exponent?, if_neg isMark]
      exact Nat.zero_le _

theorem number_length_le (text : List Char) : (number text).length ≤ text.length := by
  obtain ⟨digits, rest, rfl, whole⟩ := exists_digits text
  have fraction := pointedLength_le rest
  have exponent := exponent_length_le (rest.drop (pointedLength (fractionDigits rest)))
  rw [number_append whole, length_numberOf, List.length_append]
  rw [List.length_drop] at exponent
  omega

theorem ofText_length_le {text : List Char} (scans : ofText text = .token token n) :
    n ≤ text.length := by
  cases text with
  | nil =>
    cases scans
    exact Nat.zero_le _
  | cons c text =>
    rcases ofText_cons c with kind | kind | kind | kind | kind <;> rw [kind] at scans
    · have shorter := string_length_le scans
      rwa [Nat.add_comm] at shorter
    · exact reference_length_le scans
    · cases scans
      exact Nat.succ_le_succ (List.takeWhile_prefix _).length_le
    · have shorter := number_length_le (c :: text)
      rwa [scans] at shorter
    · exact symbol_length_le scans

theorem string_ne_endOfInput {value text : List Char} {length n : Nat} :
    string value length text ≠ .token .endOfInput n := by
  fun_induction string value length text with
  | case1 | case2 | case3 | case5 | case6 | case8 => rintro ⟨⟩
  | case4 _ _ _ _ _ _ _ _ _ ih | case7 _ _ _ _ _ _ _ ih | case9 _ _ _ _ _ _ _ _ ih => exact ih

theorem wordToken_ne_endOfInput (word : String) : wordToken word ≠ .endOfInput := by
  unfold wordToken
  split <;> rintro ⟨⟩

theorem numberOf_ne_endOfInput {whole fraction : List Char} {exponent : Option (Int × Nat)}
    {n : Nat} : numberOf whole fraction exponent ≠ .token .endOfInput n := by
  unfold numberOf
  dsimp only
  split
  · split <;> rintro ⟨⟩
  · rintro ⟨⟩

theorem number_ne_endOfInput {text : List Char} {n : Nat} :
    number text ≠ .token .endOfInput n := by
  obtain ⟨digits, rest, rfl, whole⟩ := exists_digits text
  rw [number_append whole]
  exact numberOf_ne_endOfInput

theorem symbol_ne_endOfInput {c : Char} {text : List Char} {n : Nat} :
    symbol c text ≠ .token .endOfInput n := by
  unfold symbol
  split
  · rename_i long isLong
    rintro ⟨⟩
    split at isLong
    · unfold symbolWithEquals? at isLong
      split at isLong <;> cases isLong
    · cases isLong
  · split
    · rename_i short isShort
      rintro ⟨⟩
      exact (symbol_visible isShort).2.2.2.2.2 rfl
    · rintro ⟨⟩

theorem ofText_ne_endOfInput {c : Char} {text : List Char} {n : Nat} :
    ofText (c :: text) ≠ .token .endOfInput n := by
  rcases ofText_cons c with kind | kind | kind | kind | kind <;> rw [kind]
  · exact string_ne_endOfInput
  · unfold reference
    dsimp only
    split <;> rintro ⟨⟩
  · exact fun same => wordToken_ne_endOfInput _ (Except.ok.inj (congrArg outcome same))
  · exact number_ne_endOfInput
  · exact symbol_ne_endOfInput

end Lexer.Scan

end QueryGraph
