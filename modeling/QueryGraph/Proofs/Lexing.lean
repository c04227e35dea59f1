import QueryGraph.Proofs.Parsing

namespace QueryGraph

open QueryGraph.Lexer QueryGraph.Text

/-- Whether a text is made of some tokens and blanks. -/
inductive Tokenizes : List Char → List Token → Prop where
  | nil : Tokenizes [] []
  | blank {c : Char} {text : List Char} {tokens : List Token} (isBlank : isBlank c = true)
      (rest : Tokenizes text tokens) : Tokenizes (c :: text) tokens
  | token {c : Char} {lexeme rest : List Char} {token : Token} {tokens : List Token}
      (visible : isBlank c = false)
      (scans : Scan.ofText (c :: (lexeme ++ rest)) = .token token (lexeme.length + 1))
      (isToken : token ≠ .endOfInput) (next : Tokenizes rest tokens) :
      Tokenizes (c :: (lexeme ++ rest)) (token :: tokens)

theorem Lexer.next_blank {c : Char} (isBlank : isBlank c = true) (text : List Char)
    (position start : Position) :
    (⟨c :: text, position, start⟩ : Lexer).next =
      (⟨text, position.step c, start⟩ : Lexer).next := by
  simp [Lexer.next, isBlank]

namespace Tokenizes

variable {text : List Char} {tokens : List Token}

theorem length_le (tokenizes : Tokenizes text tokens) : tokens.length ≤ text.length := by
  induction tokenizes with
  | nil => exact Nat.le_refl _
  | blank _ _ ih => exact Nat.le_succ_of_le ih
  | token _ _ _ _ ih =>
    simp only [List.length_cons, List.length_append]
    omega

theorem holds (tokenizes : Tokenizes text tokens) {bound : Nat} (enough : tokens.length < bound)
    (position start : Position) :
    (Feed.ofLexer bound ⟨text, position, start⟩).Holds tokens := by
  induction tokenizes generalizing bound position start with
  | nil =>
    cases bound with
    | zero => cases enough
    | succ bound => exact .finish _
  | @blank c text _ isBlank _ ih =>
    cases bound with
    | zero => cases enough
    | succ bound =>
      have rest := ih enough (position.step c) start
      simpa only [Feed.ofLexer, Lexer.next_blank isBlank] using rest
  | @token c lexeme rest token tokens visible scans isToken _ ih =>
    cases bound with
    | zero => cases enough
    | succ bound =>
      have noBlanks : (c :: (lexeme ++ rest)).takeWhile isBlank = [] := by simp [visible]
      have whole : (c :: (lexeme ++ rest)).dropWhile isBlank = c :: (lexeme ++ rest) := by
        simp [visible]
      simp only [Feed.ofLexer, Lexer.next, noBlanks, whole, scans, Scan.token, List.drop_succ_cons,
        List.drop_left]
      exact .token (ih (Nat.lt_of_succ_lt_succ enough) _ _)

end Tokenizes

theorem Feed.holds_ofText {text : String} {tokens : List Token}
    (tokenizes : Tokenizes text.toList tokens) : (Feed.ofText text).Holds tokens :=
  tokenizes.holds (Nat.lt_succ_of_le tokenizes.length_le) _ _

theorem Tokenizes.unique {text : List Char} {tokens tokens' : List Token}
    (tokenizes : Tokenizes text tokens) (tokenizes' : Tokenizes text tokens') :
    tokens = tokens' := by
  have holds := Feed.holds_ofText ((String.toList_ofList (l := text)).symm ▸ tokenizes)
  exact holds.unique (Feed.holds_ofText ((String.toList_ofList (l := text)).symm ▸ tokenizes'))

/-- Whether what follows a word or a number leaves it as it is. -/
def Apart : List Char → Bool
  | '.' :: c :: _ => !c.isDigit
  | c :: _ => !isNameChar c
  | [] => true

/-- Whether a piece of text is made of some tokens wherever it stands apart. -/
def Spells (text : List Char) (tokens : List Token) : Prop :=
  ∀ rest more, Apart rest = true → Tokenizes rest more → Tokenizes (text ++ rest) (tokens ++ more)

theorem isAlpha_iff {c : Char} : c.isAlpha = true ↔
    (65 ≤ c.toNat ∧ c.toNat ≤ 90) ∨ (97 ≤ c.toNat ∧ c.toNat ≤ 122) := by
  change (decide ('A'.val ≤ c.val ∧ c.val ≤ 'Z'.val) ||
    (decide ('a'.val ≤ c.val) && decide (c.val ≤ 'z'.val))) = true ↔ _
  simp only [Bool.or_eq_true, Bool.and_eq_true, decide_eq_true_eq, UInt32.le_iff_toNat_le]
  rfl

theorem eq_underscore_iff {c : Char} : c = '_' ↔ c.toNat = 95 := by
  rw [← Char.toNat_inj]
  rfl

theorem isNameStart_iff {c : Char} : isNameStart c = true ↔
    (65 ≤ c.toNat ∧ c.toNat ≤ 90) ∨ c.toNat = 95 ∨ (97 ≤ c.toNat ∧ c.toNat ≤ 122) := by
  rw [isNameStart, Bool.or_eq_true, isAlpha_iff, beq_iff_eq, eq_underscore_iff]
  omega

theorem isNameChar_iff {c : Char} : isNameChar c = true ↔
    (48 ≤ c.toNat ∧ c.toNat ≤ 57) ∨ (65 ≤ c.toNat ∧ c.toNat ≤ 90) ∨ c.toNat = 95 ∨
      (97 ≤ c.toNat ∧ c.toNat ≤ 122) := by
  have zero : '0'.toNat = 48 := rfl
  have nine : '9'.toNat = 57 := rfl
  rw [isNameChar, Char.isAlphanum, Bool.or_eq_true, Bool.or_eq_true, isAlpha_iff,
    Char.isDigit_iff_toNat, beq_iff_eq, eq_underscore_iff]
  omega

theorem isNameChar_of_isDigit {c : Char} (isDigit : c.isDigit = true) : isNameChar c = true := by
  simp [isNameChar, Char.isAlphanum, isDigit]

theorem isBlank_eq_false {c : Char} (isName : isNameChar c = true) : isBlank c = false := by
  have bounds := isNameChar_iff.1 isName
  rw [← Bool.not_eq_true]
  simp only [isBlank, Bool.or_eq_true, decide_eq_true_eq, beq_iff_eq]
  omega

theorem isNameChar_of_isNameStart {c : Char} (starts : isNameStart c = true) :
    isNameChar c = true := by
  have bounds := isNameStart_iff.1 starts
  rw [isNameChar_iff]
  omega

theorem isNameChar_of_mem_toDigits {n : Nat} {c : Char} (member : c ∈ Nat.toDigits 16 n) :
    isNameChar c = true := by
  have digit : ∀ d < 16, isNameChar d.digitChar = true := by decide
  induction n using Nat.strongRecOn with
  | ind n ih =>
    by_cases small : n < 16
    · rw [Nat.toDigits_of_lt_base small, List.mem_singleton] at member
      exact member ▸ digit n small
    · rw [Nat.toDigits_of_base_le (by decide) (Nat.le_of_not_lt small), List.mem_append,
        List.mem_singleton] at member
      rcases member with member | rfl
      · exact ih (n / 16) (by omega) member
      · exact digit _ (Nat.mod_lt _ (by decide))

theorem isNameChar_of_mem_hexPadded {width n : Nat} {c : Char} (member : c ∈ hexPadded width n) :
    isNameChar c = true := by
  rcases List.mem_append.1 member with member | member
  · rw [(List.mem_replicate.1 member).2]
    rfl
  · exact isNameChar_of_mem_toDigits member

theorem isDigit_eq_false {c : Char} (starts : isNameStart c = true) : c.isDigit = false := by
  have bounds := isNameStart_iff.1 starts
  have zero : '0'.toNat = 48 := rfl
  have nine : '9'.toNat = 57 := rfl
  rw [← Bool.not_eq_true, Char.isDigit_iff_toNat]
  omega

theorem takeWhile_eq_nil {p : Char → Bool} (names : ∀ c, p c = true → isNameChar c = true)
    {rest : List Char} (apart : Apart rest = true) : rest.takeWhile p = [] := by
  have noName : ∀ c ∈ rest.head?, isNameChar c = false := by
    unfold Apart at apart
    split at apart
    · rintro c ⟨⟩
      rfl
    · rintro c ⟨⟩
      simpa using apart
    · rintro c ⟨⟩
  cases rest with
  | nil => rfl
  | cons c cs =>
    have other := noName c rfl
    have fails : p c = false := by
      rw [← Bool.not_eq_true]
      intro holds
      rw [names c holds] at other
      cases other
    simp [fails]

theorem takeWhile_append {p : Char → Bool} (names : ∀ c, p c = true → isNameChar c = true)
    {text rest : List Char} (all : ∀ c ∈ text, p c = true) (apart : Apart rest = true) :
    (text ++ rest).takeWhile p = text := by
  rw [List.takeWhile_append_of_pos all, takeWhile_eq_nil names apart, List.append_nil]

theorem exists_of_isIdentifier {word : String} (isWord : isIdentifier word = true) :
    ∃ c cs, word.toList = c :: cs ∧ isNameStart c = true ∧ ∀ d ∈ cs, isNameChar d = true := by
  unfold isIdentifier at isWord
  cases text : word.toList with
  | nil => simp [text] at isWord
  | cons c cs =>
    rw [text] at isWord
    simp only [Bool.and_eq_true, List.all_eq_true] at isWord
    exact ⟨c, cs, rfl, isWord.1, isWord.2⟩

theorem spells_word {word : String} (isWord : isIdentifier word = true) :
    Spells word.toList [Scan.wordToken word] := by
  obtain ⟨c, cs, text, starts, names⟩ := exists_of_isIdentifier isWord
  intro rest more apart next
  have run : (cs ++ rest).takeWhile isNameChar = cs := takeWhile_append (fun _ => id) names apart
  have noQuote : c ≠ '"' := by
    rintro rfl
    cases starts
  have noDollar : c ≠ '$' := by
    rintro rfl
    cases starts
  have whole : String.ofList (c :: cs) = word := by
    rw [← text, String.ofList_toList]
  rw [text, List.singleton_append]
  refine .token (isBlank_eq_false (isNameChar_of_isNameStart starts)) ?_ ?_ next
  · simp [Scan.ofText, noQuote, noDollar, starts, run, whole]
  · unfold Scan.wordToken
    split <;> simp

theorem spells_reference {name : String} (isName : isIdentifier name = true) :
    Spells ('$' :: name.toList) [.reference name] := by
  obtain ⟨c, cs, text, starts, names⟩ := exists_of_isIdentifier isName
  intro rest more apart next
  have all : ∀ d ∈ c :: cs, isNameChar d = true := by
    intro d member
    rcases List.mem_cons.1 member with rfl | member
    · exact isNameChar_of_isNameStart starts
    · exact names d member
  have run : (c :: cs ++ rest).takeWhile isNameChar = c :: cs :=
    takeWhile_append (fun _ => id) all apart
  have whole : String.ofList (c :: cs) = name := by
    rw [← text, String.ofList_toList]
  refine .token rfl ?_ nofun next
  rw [text, Scan.ofText, if_neg (by decide), if_pos rfl, Scan.reference, run]
  simp [starts, whole]

theorem symbol_visible {c : Char} {token : Token} (short : Scan.symbol? c = some token) :
    isBlank c = false ∧ c ≠ '"' ∧ c ≠ '$' ∧ isNameStart c = false ∧ c.isDigit = false ∧
      token ≠ .endOfInput := by
  unfold Scan.symbol? at short
  split at short <;> cases short <;> decide

theorem tokenizes_symbol {c : Char} {token : Token} {rest : List Char} {more : List Token}
    (short : Scan.symbol? c = some token)
    (single : rest.head? ≠ some '=' ∨ Scan.symbolWithEquals? c = none)
    (next : Tokenizes rest more) : Tokenizes (c :: rest) (token :: more) := by
  obtain ⟨visible, noQuote, noDollar, noStart, noDigit, isToken⟩ := symbol_visible short
  have long : (if rest.head? = some '=' then Scan.symbolWithEquals? c else none) = none := by
    rcases single with single | single
    · rw [if_neg single]
    · rw [single, ite_self]
  have scans : Scan.ofText (c :: ([] ++ rest)) = .token token 1 := by
    simp [Scan.ofText, noQuote, noDollar, noStart, noDigit, Scan.symbol, long, short]
  exact .token visible scans isToken next

theorem tokenizes_symbolWithEquals {c : Char} {token : Token} {rest : List Char}
    {more : List Token} (long : Scan.symbolWithEquals? c = some token)
    (next : Tokenizes rest more) : Tokenizes (c :: '=' :: rest) (token :: more) := by
  have plain : isBlank c = false ∧ c ≠ '"' ∧ c ≠ '$' ∧ isNameStart c = false ∧
      c.isDigit = false ∧ token ≠ .endOfInput := by
    unfold Scan.symbolWithEquals? at long
    split at long <;> cases long <;> decide
  obtain ⟨visible, noQuote, noDollar, noStart, noDigit, isToken⟩ := plain
  have scans : Scan.ofText (c :: (['='] ++ rest)) = .token token 2 := by
    simp [Scan.ofText, noQuote, noDollar, noStart, noDigit, Scan.symbol, long]
  exact .token visible scans isToken next

theorem tokenizes_operator {op : Operator} (written : op ≠ .index) {rest : List Char}
    {more : List Token} (next : Tokenizes rest more) :
    Tokenizes (' ' :: (op.symbol.toList ++ ' ' :: rest)) (.operator op :: more) := by
  have blank : Tokenizes (' ' :: rest) more := .blank rfl next
  refine .blank rfl ?_
  cases op with
  | equal | notEqual | lessEqual | greaterEqual =>
    exact tokenizes_symbolWithEquals rfl blank
  | lessThan | greaterThan | add | subtract | multiply | divide | modulo =>
    exact tokenizes_symbol rfl (Or.inl (by simp)) blank
  | and | or => exact spells_word rfl _ _ rfl blank
  | index => exact absurd rfl written

/-- Whether four hexadecimal digits stand for a character. -/
def isEscape (digits : List Char) (char : Char) : Bool :=
  match digits with
  | [a, b, c, d] => Scan.unicodeEscape? a b c d == some char
  | _ => false

theorem isEscape_control : ∀ n < 160, isEscape (hexPadded 4 n) (Char.ofNat n) = true := by
  decide +kernel

theorem exists_of_isEscape {digits : List Char} {char : Char}
    (escapes : isEscape digits char = true) :
    ∃ a b c d, digits = [a, b, c, d] ∧ Scan.unicodeEscape? a b c d = some char := by
  unfold isEscape at escapes
  split at escapes
  · exact ⟨_, _, _, _, rfl, beq_iff_eq.1 escapes⟩
  · cases escapes

theorem string_escapeChar (value : List Char) (length : Nat) (c : Char) (rest : List Char) :
    Scan.string value length (escapeChar c ++ rest) =
      Scan.string (c :: value) (length + (escapeChar c).length) rest := by
  unfold escapeChar
  split
  · rename_i same
    rw [same]
    rfl
  split
  · rename_i same
    rw [same]
    rfl
  split
  · rename_i same
    rw [same]
    rfl
  split
  · rename_i same
    rw [same]
    rfl
  split
  · rename_i same
    rw [same]
    rfl
  split
  · rename_i control
    have small : c.toNat < 160 := by
      simp only [isControl, decide_eq_true_eq] at control
      omega
    obtain ⟨x, y, z, w, digits, reads⟩ := exists_of_isEscape (isEscape_control c.toNat small)
    rw [digits]
    simp [Scan.string, reads]
  · rename_i noBackslash _ _ _ _
    simp [Scan.string, noBackslash]

theorem string_escape (value : List Char) (length : Nat) (text rest : List Char) :
    Scan.string value length (escape text ++ '"' :: rest) =
      .token (.string (String.ofList (value.reverse ++ text)))
        (length + (escape text).length + 1) := by
  induction text generalizing value length with
  | nil => simp [escape, Scan.string]
  | cons c text ih =>
    have parts : escape (c :: text) = escapeChar c ++ escape text := by simp [escape]
    rw [parts, List.append_assoc, string_escapeChar, ih]
    simp [Nat.add_assoc]

theorem spells_literal (value : String) :
    Spells (literal value.toList) [.string value] := by
  intro rest more _ next
  refine .token rfl ?_ nofun next
  have reads := string_escape [] 1 value.toList rest
  simp only [List.reverse_nil, List.nil_append, String.ofList_toList] at reads
  simp [Scan.ofText, reads, Nat.add_comm 1]

end QueryGraph
