import QueryGraph.Proofs.Numerals
import QueryGraph.Proofs.Passage
import QueryGraph.Render.Text

namespace QueryGraph

open QueryGraph.Lexer QueryGraph.Text

variable {blanks digits : List Char}

namespace Lexer

/-- A lexer with blanks and digits before it, and then the end of the text, reads all the digits or
refuses them all. -/
theorem next_digits (isBlanks : ∀ c ∈ blanks, isBlank c = true)
    (all : ∀ c ∈ digits, c.isDigit = true) (nonempty : digits ≠ []) (position start : Position) :
    (⟨blanks ++ digits, position, start⟩ : Lexer).next =
      (if Nat.ofDigitChars 10 digits 0 < 2 ^ 64 then .ok (.integer (Nat.ofDigitChars 10 digits 0))
        else .error ⟨.number (String.ofList digits), position.after blanks⟩,
        ⟨[], (position.after blanks).after digits, position.after blanks⟩) := by
  obtain ⟨c, cs, rfl⟩ := List.exists_cons_of_ne_nil nonempty
  have isDigit : c.isDigit = true := all c (List.mem_cons_self ..)
  have visible : isBlank c = false := isBlank_eq_false (isNameChar_of_isDigit isDigit)
  have stops : (c :: cs).takeWhile isBlank = [] := by simp [visible]
  have stays : (c :: cs).dropWhile isBlank = c :: cs := by simp [visible]
  have scans := Scan.number_digits all (rfl : Apart [] = true)
  rw [List.append_nil, ← Scan.ofText_digit isDigit] at scans
  simp only [next, List.takeWhile_append_of_pos isBlanks, List.dropWhile_append_of_pos isBlanks,
    stops, stays, List.append_nil]
  by_cases fits : Nat.ofDigitChars 10 (c :: cs) 0 < 2 ^ 64
  · rw [if_pos fits] at scans ⊢
    simp [scans, Scan.token]
  · rw [if_neg fits] at scans ⊢
    simp [scans, Scan.fault]

theorem next_minus (text : List Char) (position start : Position) :
    (⟨'-' :: text, position, start⟩ : Lexer).next =
      (.ok (.operator .subtract), ⟨text, position.step '-', position⟩) := by
  have scans : Scan.ofText ('-' :: text) = .token (.operator .subtract) 1 := by
    simp [Scan.ofText, Scan.symbol, Scan.symbolWithEquals?, Scan.symbol?, isNameStart]
  have visible : isBlank '-' = false := rfl
  simp [next, visible, scans, Scan.token]

end Lexer

namespace Feed

theorem ofLexer_finished (bound : Nat) (position start : Position) :
    ofLexer bound ⟨[], position, start⟩ = .finish position := by
  cases bound <;> rfl

theorem ofLexer_digits (isBlanks : ∀ c ∈ blanks, isBlank c = true)
    (all : ∀ c ∈ digits, c.isDigit = true) (nonempty : digits ≠ []) (bound : Nat)
    (position start : Position) :
    ofLexer (bound + 1) ⟨blanks ++ digits, position, start⟩ =
      if Nat.ofDigitChars 10 digits 0 < 2 ^ 64 then
        .token (.integer (Nat.ofDigitChars 10 digits 0)) (position.after blanks)
          (.finish ((position.after blanks).after digits))
      else .fault ⟨.number (String.ofList digits), position.after blanks⟩
        (.finish ((position.after blanks).after digits)) := by
  have reads := Lexer.next_digits isBlanks all nonempty position start
  by_cases fits : Nat.ofDigitChars 10 digits 0 < 2 ^ 64
  · rw [if_pos fits] at reads ⊢
    simp [ofLexer, reads, ofLexer_finished]
  · rw [if_neg fits] at reads ⊢
    simp [ofLexer, reads, ofLexer_finished]

theorem ofLexer_minus (text : List Char) (bound : Nat) (position start : Position) :
    ofLexer (bound + 1) ⟨'-' :: text, position, start⟩ =
      .token (.operator .subtract) position
        (ofLexer bound ⟨text, position.step '-', position⟩) := by
  simp [ofLexer, Lexer.next_minus]

end Feed

theorem Expr.parse_eq {text : String} {expr : Expr} {tokens : List Token}
    (holds : (Feed.ofText text).Holds tokens) (derives : Derives (.expression expr) tokens) :
    Expr.parse text = .ok expr := by
  obtain ⟨c, c', next, reads, isEnd, advances, bound, start⟩ := holds.exists_cursor
  have began : Parser.Cursor.ofText text = .ok c := start text rfl
  have read : Parser.expression c = .ok (expr, c') :=
    (Parser.parses_of_derives derives).inner c.bound bound reads
      (Parser.ends_of (by simp [isEnd]))
  simp [Expr.parse, Parser.run, began, Parser.wholeExpression, Parser.whole, read,
    Parser.Cursor.expect_eq isEnd advances]

theorem Parser.expressionWith_eq_error {inner : Parser Expr} {rounds : Nat} {c : Parser.Cursor}
    {failure : Parser.Failure} (isOperand : c.token ≠ .keyword .ifWord)
    (fails : Parser.primary inner rounds c = .error failure) :
    Parser.expressionWith inner rounds c = .error failure := by
  simp [Parser.expressionWith, isOperand, Parser.operation, Parser.chain, Parser.comparison,
    Parser.access, fails]

theorem Expr.parse_eq_error {text : String} {c : Parser.Cursor} {error : ParseError}
    (begins : Parser.Cursor.ofText text = .ok c) (isOperand : c.token ≠ .keyword .ifWord)
    (fails : ∀ inner rounds, ∃ stopped, Parser.primary inner rounds c = .error ⟨error, stopped⟩) :
    Expr.parse text = .error error := by
  obtain ⟨stopped, fails⟩ := fails (Parser.expressionAt (c.rest.length + 1)) c.bound
  have failed : Parser.expression c = .error ⟨error, stopped⟩ :=
    Parser.expressionWith_eq_error isOperand fails
  simp [Expr.parse, Parser.run, begins, Parser.wholeExpression, Parser.whole, failed]

theorem Derives.expression_of_atom {expr : Expr} {tokens : List Token}
    (derives : Derives (.operand Operator.atomPrecedence expr) tokens) :
    Derives (.expression expr) tokens :=
  .plain (derives.weaken (by decide) (by decide) (Nat.le_refl _))

theorem Expr.parse_spelled {text : List Char} {constant : Constant}
    (spells : Spells text constant.tokens) :
    Expr.parse (String.ofList text) = .ok (.atom constant) := by
  have whole := spells [] [] rfl .nil
  rw [List.append_nil, List.append_nil, ← String.toList_ofList (l := text)] at whole
  exact Expr.parse_eq (Feed.holds_ofText whole) constant.derives_tokens.expression_of_atom

section

variable (all : ∀ c ∈ digits, c.isDigit = true) (nonempty : digits ≠ [])

include all nonempty

theorem Feed.ofText_digits :
    ∃ next, Feed.ofText (String.ofList digits) =
      if Nat.ofDigitChars 10 digits 0 < 2 ^ 64 then
        .token (.integer (Nat.ofDigitChars 10 digits 0)) .start (.finish next)
      else .fault ⟨.number (String.ofList digits), .start⟩ (.finish next) := by
  have whole := Feed.ofLexer_digits (List.forall_mem_nil _) all nonempty digits.length .start
    .start
  refine ⟨Position.start.after digits, ?_⟩
  rw [Feed.ofText, Lexer.ofText, String.toList_ofList]
  exact whole

theorem Expr.parse_digits (fits : Nat.ofDigitChars 10 digits 0 < 2 ^ 63) :
    Expr.parse (String.ofList digits) =
      .ok (.atom (.int (Int64.ofInt (Nat.ofDigitChars 10 digits 0)))) := by
  obtain ⟨next, feed⟩ := Feed.ofText_digits all nonempty
  rw [if_pos (Nat.lt_trans fits (by decide))] at feed
  exact Expr.parse_eq (feed ▸ .token (.finish _)) (Derives.integer fits).expression_of_atom

theorem Expr.parse_digits_beyond (large : 2 ^ 63 ≤ Nat.ofDigitChars 10 digits 0)
    (scanned : Nat.ofDigitChars 10 digits 0 < 2 ^ 64) :
    Expr.parse (String.ofList digits) =
      .error (.overflow (toString (Nat.ofDigitChars 10 digits 0)) .start) := by
  obtain ⟨next, feed⟩ := Feed.ofText_digits all nonempty
  rw [if_pos scanned] at feed
  have begins : Parser.Cursor.ofText (String.ofList digits) =
      .ok ⟨.integer (Nat.ofDigitChars 10 digits 0), .start, .finish next⟩ := by
    rw [Parser.Cursor.ofText, feed]
  have tooLarge : Parser.integer false (Nat.ofDigitChars 10 digits 0) = none :=
    if_neg (Nat.not_lt.2 large)
  refine Expr.parse_eq_error begins (by simp) fun inner rounds =>
    ⟨⟨.endOfInput, next, .finish next⟩, ?_⟩
  simp [Parser.primary, Parser.Cursor.consume, Parser.Cursor.advance, tooLarge]

theorem Expr.parse_digits_refused (large : 2 ^ 64 ≤ Nat.ofDigitChars 10 digits 0) :
    Expr.parse (String.ofList digits) = .error (.lex ⟨.number (String.ofList digits), .start⟩) := by
  obtain ⟨next, feed⟩ := Feed.ofText_digits all nonempty
  rw [if_neg (Nat.not_lt.2 large)] at feed
  rw [Expr.parse, Parser.run, Parser.Cursor.ofText, feed]
  rfl

variable (isBlanks : ∀ c ∈ blanks, isBlank c = true)

include isBlanks

theorem Feed.ofText_minus :
    ∃ next, Feed.ofText (String.ofList ('-' :: (blanks ++ digits))) =
      .token (.operator .subtract) .start
        (if Nat.ofDigitChars 10 digits 0 < 2 ^ 64 then
          .token (.integer (Nat.ofDigitChars 10 digits 0)) (Position.start.after ('-' :: blanks))
            (.finish next)
        else .fault ⟨.number (String.ofList digits), Position.start.after ('-' :: blanks)⟩
          (.finish next)) := by
  have behind := Feed.ofLexer_digits isBlanks all nonempty (blanks ++ digits).length
    (Position.start.step '-') .start
  refine ⟨(Position.start.after ('-' :: blanks)).after digits, ?_⟩
  rw [Feed.ofText, Lexer.ofText, String.toList_ofList, List.length_cons, Feed.ofLexer_minus, behind]
  rfl

theorem Expr.parse_minus (fits : Nat.ofDigitChars 10 digits 0 ≤ 2 ^ 63) :
    Expr.parse (String.ofList ('-' :: (blanks ++ digits))) =
      .ok (.atom (.int (Int64.ofInt (-(Nat.ofDigitChars 10 digits 0 : Nat))))) := by
  obtain ⟨next, feed⟩ := Feed.ofText_minus all nonempty isBlanks
  rw [if_pos (Nat.lt_of_le_of_lt fits (by decide))] at feed
  exact Expr.parse_eq (feed ▸ .token (.token (.finish _)))
    (Derives.negativeInteger fits).expression_of_atom

theorem Expr.parse_minus_beyond (large : 2 ^ 63 < Nat.ofDigitChars 10 digits 0)
    (scanned : Nat.ofDigitChars 10 digits 0 < 2 ^ 64) :
    Expr.parse (String.ofList ('-' :: (blanks ++ digits))) =
      .error (.overflow ("-" ++ toString (Nat.ofDigitChars 10 digits 0)) .start) := by
  obtain ⟨next, feed⟩ := Feed.ofText_minus all nonempty isBlanks
  rw [if_pos scanned] at feed
  have begins : Parser.Cursor.ofText (String.ofList ('-' :: (blanks ++ digits))) =
      .ok ⟨.operator .subtract, .start, .token (.integer (Nat.ofDigitChars 10 digits 0))
        (Position.start.after ('-' :: blanks)) (.finish next)⟩ := by
    rw [Parser.Cursor.ofText, feed]
  have tooLarge : Parser.integer true (Nat.ofDigitChars 10 digits 0) = none :=
    if_neg (Nat.not_le.2 large)
  refine Expr.parse_eq_error begins (by simp) fun inner rounds =>
    ⟨⟨.endOfInput, next, .finish next⟩, ?_⟩
  simp [Parser.primary, Parser.negative, Parser.Cursor.consume, Parser.Cursor.advance, tooLarge]

theorem Expr.parse_minus_refused (large : 2 ^ 64 ≤ Nat.ofDigitChars 10 digits 0) :
    Expr.parse (String.ofList ('-' :: (blanks ++ digits))) =
      .error (.lex ⟨.number (String.ofList digits), Position.start.after ('-' :: blanks)⟩) := by
  obtain ⟨next, feed⟩ := Feed.ofText_minus all nonempty isBlanks
  rw [if_neg (Nat.not_lt.2 large)] at feed
  have begins : Parser.Cursor.ofText (String.ofList ('-' :: (blanks ++ digits))) =
      .ok ⟨.operator .subtract, .start,
        .fault ⟨.number (String.ofList digits), Position.start.after ('-' :: blanks)⟩
          (.finish next)⟩ := by
    rw [Parser.Cursor.ofText, feed]
  exact Expr.parse_eq_error begins (by simp) fun inner rounds => ⟨_, rfl⟩

end

/-- What comes of digits that stand for a number, read as an expression, and of the same digits
behind a minus sign and blanks. -/
structure Expr.ReadsInteger (blanks digits : List Char) (value : Nat) : Prop where
  fits : value < 2 ^ 63 →
    ∃ n : Int64, n.toInt = value ∧ Expr.parse (String.ofList digits) = .ok (.atom (.int n))
  beyond : 2 ^ 63 ≤ value → value < 2 ^ 64 →
    Expr.parse (String.ofList digits) = .error (.overflow (toString value) .start)
  refused : 2 ^ 64 ≤ value →
    Expr.parse (String.ofList digits) = .error (.lex ⟨.number (String.ofList digits), .start⟩)
  minus_fits : value ≤ 2 ^ 63 →
    ∃ n : Int64, n.toInt = -value ∧
      Expr.parse (String.ofList ('-' :: (blanks ++ digits))) = .ok (.atom (.int n))
  minus_beyond : 2 ^ 63 < value → value < 2 ^ 64 →
    Expr.parse (String.ofList ('-' :: (blanks ++ digits))) =
      .error (.overflow ("-" ++ toString value) .start)
  minus_refused : 2 ^ 64 ≤ value →
    Expr.parse (String.ofList ('-' :: (blanks ++ digits))) =
      .error (.lex ⟨.number (String.ofList digits), Position.start.after ('-' :: blanks)⟩)

theorem Expr.readsInteger (isBlanks : ∀ c ∈ blanks, isBlank c = true)
    (all : ∀ c ∈ digits, c.isDigit = true) (nonempty : digits ≠ []) :
    Expr.ReadsInteger blanks digits (Nat.ofDigitChars 10 digits 0) where
  fits fits := ⟨_, Int64.toInt_ofInt_of_le (by omega) (by omega),
    Expr.parse_digits all nonempty fits⟩
  beyond := Expr.parse_digits_beyond all nonempty
  refused := Expr.parse_digits_refused all nonempty
  minus_fits fits := ⟨_, Int64.toInt_ofInt_of_le (by omega) (by omega),
    Expr.parse_minus all nonempty isBlanks fits⟩
  minus_beyond := Expr.parse_minus_beyond all nonempty isBlanks
  minus_refused := Expr.parse_minus_refused all nonempty isBlanks

/-- No integer is read as another one. -/
theorem Expr.integers_exact (isBlanks : ∀ c ∈ blanks, isBlank c = true)
    (all : ∀ c ∈ digits, c.isDigit = true) (nonempty : digits ≠ []) (n : Int64) :
    Expr.ReadsInteger blanks digits (Nat.ofDigitChars 10 digits 0) ∧
      Expr.parse (String.ofList (Backend.text.constant (.int n)).text) = .ok (.atom (.int n)) :=
  ⟨Expr.readsInteger isBlanks all nonempty, Expr.parse_spelled (Constant.spells_int n)⟩

/-- The least integer has a literal with a minus sign only, and zeros in front change nothing. -/
theorem sample_integers_exact :
    Expr.parse "09223372036854775808" = .error (.overflow "9223372036854775808" .start) ∧
      Expr.parse "- \n09223372036854775808" = .ok (.atom (.int Int64.minValue)) ∧
      Expr.parse "-9223372036854775808" = .ok (.atom (.int Int64.minValue)) := by
  have value : Nat.ofDigitChars 10 "09223372036854775808".toList 0 = 2 ^ 63 := by decide
  have isBlanks : ∀ c ∈ [' ', '\n'], isBlank c = true := List.all_eq_true.1 rfl
  have all : ∀ c ∈ "09223372036854775808".toList, c.isDigit = true := List.all_eq_true.1 rfl
  obtain ⟨reads, parses⟩ := Expr.integers_exact isBlanks all (by decide) Int64.minValue
  rw [value] at reads
  obtain ⟨n, same, minus⟩ := reads.minus_fits (Nat.le_refl _)
  refine ⟨reads.beyond (Nat.le_refl _) (by decide), ?_, parses⟩
  rwa [Int64.toInt_inj.1 (same.trans (by decide : _ = Int64.minValue.toInt))] at minus

end QueryGraph
