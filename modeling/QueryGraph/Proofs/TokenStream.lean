import QueryGraph.Proofs.Parsing

namespace QueryGraph

open QueryGraph.Lexer

namespace Lexer.Scan

variable {c : Char} {text : List Char} {item : Token}

theorem string_progress {value : List Char} {length : Nat}
    (h : (string value length text).outcome = .ok item) :
    length < (string value length text).length := by
  fun_induction string value length text with
  | case1 => cases h
  | case2 => exact Nat.lt_succ_self _
  | case3 => cases h
  | case4 value length a b c d rest char found ih =>
    exact Nat.lt_trans (Nat.lt_add_of_pos_right (by decide)) (ih h)
  | case5 => cases h
  | case6 => cases h
  | case7 value length c rest _ char found ih =>
    exact Nat.lt_trans (Nat.lt_add_of_pos_right (by decide)) (ih h)
  | case8 => cases h
  | case9 value length c rest _ _ _ _ ih => exact Nat.lt_trans (Nat.lt_succ_self _) (ih h)

theorem symbol_progress (h : (symbol c text).outcome = .ok item) :
    0 < (symbol c text).length := by
  simp only [symbol] at h ⊢
  split
  · exact Nat.two_pos
  · split
    · exact Nat.one_pos
    · simp_all [fault]

theorem reference_progress (h : (reference text).outcome = .ok item) :
    0 < (reference text).length := by
  simp only [reference] at h ⊢
  split
  · exact Nat.succ_pos _
  · simp_all [fault]

theorem number_progress (isDigit : c.isDigit = true) : 0 < (number (c :: text)).length := by
  have whole : 0 < ((c :: text).takeWhile Char.isDigit).length := by simp [isDigit]
  simp only [number, token, fault]
  generalize (c :: text).takeWhile Char.isDigit = digits at *
  repeat' split
  all_goals simp only; omega

theorem progress (h : (ofText (c :: text)).outcome = .ok item) :
    0 < (ofText (c :: text)).length := by
  unfold ofText at h ⊢
  by_cases isQuote : c = '"'
  · simp only [if_pos isQuote] at h ⊢
    exact Nat.lt_trans Nat.one_pos (string_progress h)
  simp only [if_neg isQuote] at h ⊢
  by_cases isDollar : c = '$'
  · simp only [if_pos isDollar] at h ⊢
    exact reference_progress h
  simp only [if_neg isDollar] at h ⊢
  by_cases isWord : isNameStart c = true
  · simp only [if_pos isWord] at h ⊢
    exact Nat.succ_pos _
  simp only [if_neg isWord] at h ⊢
  by_cases isDigit : c.isDigit = true
  · simp only [if_pos isDigit] at h ⊢
    exact number_progress isDigit
  · simp only [if_neg isDigit] at h ⊢
    exact symbol_progress h

end Lexer.Scan

namespace Lexer

/-- Whether a lexer reads some tokens without a fault, then the end of the text. -/
inductive Lexes : Lexer → List Token → Prop where
  | finish {lexer lexer' : Lexer} (atEnd : lexer.next = (.ok .endOfInput, lexer')) :
      Lexes lexer []
  | token {lexer lexer' : Lexer} {token : Token} {tokens : List Token}
      (reads : lexer.next = (.ok token, lexer')) (isToken : token ≠ .endOfInput)
      (rest : Lexes lexer' tokens) : Lexes lexer (token :: tokens)

variable {lexer lexer' : Lexer} {token : Token} {tokens : List Token}

theorem length_next (reads : lexer.next = (.ok token, lexer')) (isToken : token ≠ .endOfInput) :
    lexer'.rest.length < lexer.rest.length := by
  simp only [next, Prod.mk.injEq] at reads
  obtain ⟨outcome, rfl⟩ := reads
  have shorter : (lexer.rest.dropWhile Text.isBlank).length ≤ lexer.rest.length :=
    (List.dropWhile_suffix _).length_le
  cases visible : lexer.rest.dropWhile Text.isBlank with
  | nil =>
    rw [visible] at outcome
    cases outcome
    exact absurd rfl isToken
  | cons c text =>
    rw [visible] at outcome shorter
    have scans : (Scan.ofText (c :: text)).outcome = .ok token := by
      split at outcome
      · rename_i scans
        cases outcome
        exact scans
      · cases outcome
    have positive := Scan.progress scans
    simp only [List.length_drop, List.length_cons] at shorter ⊢
    omega

theorem lexes_finish (atEnd : lexer.next = (.ok .endOfInput, lexer')) :
    lexer.Lexes tokens ↔ tokens = [] := by
  constructor
  · intro lexes
    cases lexes with
    | finish => rfl
    | token reads isToken =>
      rw [atEnd] at reads
      cases reads
      exact absurd rfl isToken
  · rintro rfl
    exact .finish atEnd

theorem lexes_token (reads : lexer.next = (.ok token, lexer')) (isToken : token ≠ .endOfInput) :
    lexer.Lexes tokens ↔ ∃ rest, tokens = token :: rest ∧ lexer'.Lexes rest := by
  constructor
  · intro lexes
    cases lexes with
    | finish atEnd =>
      rw [reads] at atEnd
      cases atEnd
      exact absurd rfl isToken
    | token reads' _ rest =>
      rw [reads] at reads'
      cases reads'
      exact ⟨_, rfl, rest⟩
  · rintro ⟨rest, rfl, lexes⟩
    exact .token reads isToken lexes

theorem not_lexes_error {error : LexError} (fails : lexer.next = (.error error, lexer')) :
    ¬ lexer.Lexes tokens := by
  intro lexes
  cases lexes with
  | finish atEnd =>
    rw [fails] at atEnd
    cases atEnd
  | token reads =>
    rw [fails] at reads
    cases reads

end Lexer

namespace Feed

variable {tokens : List Token}

theorem holds_ofLexer_iff {bound : Nat} {lexer : Lexer} (enough : lexer.rest.length < bound) :
    (ofLexer bound lexer).Holds tokens ↔ lexer.Lexes tokens := by
  induction bound generalizing lexer tokens with
  | zero => cases enough
  | succ bound ih =>
    rcases step : lexer.next with ⟨outcome, lexer'⟩
    unfold ofLexer
    simp only [step]
    split
    · rw [lexes_finish step]
      constructor
      · rintro ⟨⟩
        rfl
      · rintro rfl
        exact .finish _
    · rename_i item isToken
      have shorter := length_next step isToken
      rw [lexes_token step isToken]
      constructor
      · rintro (_ | ⟨rest⟩)
        exact ⟨_, rfl, (ih (by omega)).1 rest⟩
      · rintro ⟨rest, rfl, lexes⟩
        exact .token ((ih (by omega)).2 lexes)
    · exact iff_of_false nofun (not_lexes_error step)
    · exact iff_of_false nofun (not_lexes_error step)

theorem holds_ofText_iff {text : String} :
    (ofText text).Holds tokens ↔ (Lexer.ofText text).Lexes tokens :=
  holds_ofLexer_iff (Nat.lt_succ_self _)

/-- Whether the end of the text is not handed over as a token. -/
def Proper : Feed → Prop
  | token item _ next => item ≠ .endOfInput ∧ next.Proper
  | fault _ next => next.Proper
  | stuck _ | finish _ => True

theorem proper_ofLexer (bound : Nat) (lexer : Lexer) : (ofLexer bound lexer).Proper := by
  induction bound generalizing lexer with
  | zero => trivial
  | succ bound ih =>
    unfold ofLexer
    dsimp only
    split
    · trivial
    · rename_i item isToken _
      exact ⟨isToken, ih _⟩
    · trivial
    · exact ih _

end Feed

end QueryGraph
