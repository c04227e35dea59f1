import QueryGraph.Proofs.Lookahead

namespace QueryGraph

open QueryGraph.Lexer QueryGraph.Text

namespace Text.Position

theorem lt_or_eq_after (p : Position) (text : List Char) :
    p.line < (p.after text).line ∨ p.after text = ⟨p.line, p.column + text.length⟩ := by
  induction text generalizing p with
  | nil => exact Or.inr rfl
  | cons c text ih =>
    rw [after_cons, step]
    split
    · refine Or.inl ?_
      rcases ih ⟨p.line + 1, 1⟩ with later | same
      · exact Nat.lt_of_succ_lt later
      · rw [same]
        exact Nat.lt_succ_self _
    · rcases ih ⟨p.line, p.column + 1⟩ with later | same
      · exact Or.inl later
      · rw [same, List.length_cons, Nat.add_assoc, Nat.add_comm 1]
        exact Or.inr rfl

theorem eq_nil_of_after_eq {p : Position} {text : List Char} (same : p.after text = p) :
    text = [] := by
  rcases lt_or_eq_after p text with later | moved
  · rw [same] at later
    exact absurd later (Nat.lt_irrefl _)
  · rw [same] at moved
    have columns : p.column = p.column + text.length := congrArg column moved
    exact List.eq_nil_of_length_eq_zero (by omega)

/-- No two places in a text have the same line and column. -/
theorem after_injective {p : Position} {a b a' b' : List Char} (split : a ++ a' = b ++ b')
    (same : p.after a = p.after b) : a = b := by
  rcases List.append_eq_append_iff.1 split with ⟨between, rfl, _⟩ | ⟨between, rfl, _⟩
  · rw [after_append] at same
    rw [eq_nil_of_after_eq same.symm, List.append_nil]
  · rw [after_append] at same
    rw [eq_nil_of_after_eq same, List.append_nil]

end Text.Position

namespace Lexer

/-- What a lexer does when it reads a token: it steps over blanks, then over the token's piece of
the text. -/
structure Steps (lexer : Lexer) (token : Token) (lexer' : Lexer) (blanks lexeme : List Char) :
    Prop where
  split : lexer.rest = blanks ++ (lexeme ++ lexer'.rest)
  isBlanks : ∀ c ∈ blanks, isBlank c = true
  visible : ∀ c ∈ (lexeme ++ lexer'.rest).head?, isBlank c = false
  scans : Scan.ofText (lexeme ++ lexer'.rest) = .token token lexeme.length
  start : lexer'.tokenStart = lexer.position.after blanks
  position : lexer'.position = lexer'.tokenStart.after lexeme

variable {lexer lexer' lexer'' : Lexer} {token : Token} {tokens : List Token}
  {blanks lexeme : List Char}

theorem exists_steps (reads : lexer.next = (.ok token, lexer')) :
    ∃ blanks lexeme, lexer.Steps token lexer' blanks lexeme := by
  simp only [next, Prod.mk.injEq] at reads
  obtain ⟨outcome, rfl⟩ := reads
  obtain ⟨text, isText⟩ : ∃ text, lexer.rest.dropWhile isBlank = text := ⟨_, rfl⟩
  rw [isText] at outcome ⊢
  have scans : Scan.ofText text = .token token (Scan.ofText text).length := by
    split at outcome
    · rename_i found
      cases outcome
      rw [Scan.token, ← found]
    · cases outcome
  have within := Scan.ofText_length_le scans
  have whole := List.take_append_drop (Scan.ofText text).length text
  refine ⟨lexer.rest.takeWhile isBlank, text.take (Scan.ofText text).length, ?_, ?_, ?_, ?_, rfl,
    rfl⟩
  · rw [whole, ← isText, List.takeWhile_append_dropWhile]
  · exact List.all_eq_true.1 List.all_takeWhile
  · intro c first
    have visible := List.head?_dropWhile_not isBlank lexer.rest
    rw [isText, ← whole, first] at visible
    exact visible
  · rwa [whole, List.length_take, Nat.min_eq_left within]

theorem Steps.takeWhile_eq (steps : lexer.Steps token lexer' blanks lexeme) :
    lexer.rest.takeWhile isBlank = blanks := by
  have stops : (lexeme ++ lexer'.rest).takeWhile isBlank = [] :=
    List.takeWhile_eq_nil_of_head steps.visible
  rw [steps.split, List.takeWhile_append_of_pos steps.isBlanks, stops, List.append_nil]

theorem Steps.dropWhile_eq (steps : lexer.Steps token lexer' blanks lexeme) :
    lexer.rest.dropWhile isBlank = lexeme ++ lexer'.rest := by
  have whole : lexer.rest.takeWhile isBlank ++ lexer.rest.dropWhile isBlank = lexer.rest :=
    List.takeWhile_append_dropWhile
  rw [steps.takeWhile_eq] at whole
  exact List.append_cancel_left (whole.trans steps.split)

theorem Steps.next (steps : lexer.Steps token lexer' blanks lexeme) :
    lexer.next = (.ok token, lexer') := by
  have isBlanks := steps.takeWhile_eq
  have isText := steps.dropWhile_eq
  obtain ⟨-, -, -, scans, start, position⟩ := steps
  obtain ⟨rest, position', start'⟩ := lexer'
  dsimp only at *
  subst position start
  simp only [Lexer.next, isBlanks, isText, scans, Scan.token, List.take_left, List.drop_left]

theorem Steps.lexeme_eq_nil (steps : lexer.Steps .endOfInput lexer' blanks lexeme) :
    lexeme = [] ∧ lexer'.rest = [] := by
  have scans := steps.scans
  cases text : lexeme ++ lexer'.rest with
  | nil => exact List.append_eq_nil_iff.1 text
  | cons c cs =>
    rw [text] at scans
    exact absurd scans Scan.ofText_ne_endOfInput

theorem Steps.lexeme_ne_nil (steps : lexer.Steps token lexer' blanks lexeme)
    (isToken : token ≠ .endOfInput) : lexeme ≠ [] := by
  rintro rfl
  have scans := steps.scans
  cases text : lexer'.rest with
  | nil =>
    rw [text] at scans
    cases scans
    exact isToken rfl
  | cons c cs =>
    rw [List.nil_append, text] at scans
    have positive := Scan.progress (congrArg Scan.outcome scans)
    rw [scans] at positive
    exact Nat.lt_irrefl _ positive

theorem Steps.cut (steps : lexer.Steps token lexer' blanks lexeme) (isToken : token ≠ .endOfInput)
    {text behind more : List Char} {blank : Char} (split : lexer'.rest = text ++ behind)
    (isBlank' : isBlank blank = true) (position start : Position) :
    ∃ position' start',
      (⟨blanks ++ (lexeme ++ (text ++ blank :: more)), position, start⟩ : Lexer).next =
        (.ok token, ⟨text ++ blank :: more, position', start'⟩) := by
  have some := steps.lexeme_ne_nil isToken
  obtain ⟨-, isBlanks, visible, scans, -, -⟩ := steps
  obtain ⟨c, lexeme, rfl⟩ := List.exists_cons_of_ne_nil some
  refine ⟨(position.after blanks).after (c :: lexeme), position.after blanks,
    Steps.next ⟨rfl, isBlanks, visible, ?_, rfl, rfl⟩⟩
  rw [split, List.cons_append, ← List.append_assoc] at scans
  have same : Scan.ofText (c :: (lexeme ++ text ++ blank :: more)) =
      .token token (c :: lexeme).length :=
    Scan.ofText_cut (breaks_blank isBlank' more) scans (by simp)
  rwa [List.append_assoc] at same

/-- Whether a lexer reads some tokens and then stands at a place behind them. -/
inductive Passes : Lexer → List Token → Lexer → Prop where
  | nil (lexer : Lexer) : Passes lexer [] lexer
  | cons {lexer lexer' lexer'' : Lexer} {token : Token} {tokens : List Token}
      (reads : lexer.next = (.ok token, lexer')) (isToken : token ≠ .endOfInput)
      (rest : Passes lexer' tokens lexer'') : Passes lexer (token :: tokens) lexer''

namespace Passes

theorem append {more : List Token} (passes : lexer.Passes tokens lexer')
    (passes' : lexer'.Passes more lexer'') : lexer.Passes (tokens ++ more) lexer'' := by
  induction passes with
  | nil => exact passes'
  | cons reads isToken _ ih => exact .cons reads isToken (ih passes')

theorem lexes_iff {all : List Token} (passes : lexer.Passes tokens lexer') :
    lexer.Lexes all ↔ ∃ rest, all = tokens ++ rest ∧ lexer'.Lexes rest := by
  induction passes generalizing all with
  | nil => simp
  | cons reads isToken _ ih =>
    rw [lexes_token reads isToken]
    constructor
    · rintro ⟨rest, rfl, lexes⟩
      obtain ⟨rest, rfl, lexes'⟩ := ih.1 lexes
      exact ⟨rest, rfl, lexes'⟩
    · rintro ⟨rest, rfl, lexes⟩
      exact ⟨_, rfl, ih.2 ⟨rest, rfl, lexes⟩⟩

/-- The part of the text that is passed ends where the lexer stands, and contains the same tokens
wherever a blank follows it. -/
theorem split (passes : lexer.Passes tokens lexer') :
    ∃ text, lexer.rest = text ++ lexer'.rest ∧ lexer'.position = lexer.position.after text ∧
      ∀ blank more position start, isBlank blank = true → ∃ position' start',
        (⟨text ++ blank :: more, position, start⟩ : Lexer).Passes tokens
          ⟨blank :: more, position', start'⟩ := by
  induction passes with
  | nil lexer => exact ⟨[], rfl, rfl, fun _ _ position start _ => ⟨position, start, .nil _⟩⟩
  | @cons lexer lexer' lexer'' token tokens reads isToken _ ih =>
    obtain ⟨text, rest, place, again⟩ := ih
    obtain ⟨blanks, lexeme, steps⟩ := exists_steps reads
    refine ⟨blanks ++ (lexeme ++ text), ?_, ?_, ?_⟩
    · rw [steps.split, rest, List.append_assoc, List.append_assoc]
    · rw [place, steps.position, steps.start, Position.after_append, Position.after_append]
    · intro blank more position start isBlank'
      obtain ⟨position₁, start₁, next⟩ := steps.cut isToken rest isBlank' position start
      obtain ⟨position₂, start₂, passes⟩ := again blank more position₁ start₁ isBlank'
      refine ⟨position₂, start₂, ?_⟩
      rw [List.append_assoc, List.append_assoc]
      exact .cons next isToken passes

end Passes

end Lexer

namespace Parser.Cursor

/-- Whether a cursor is where a lexer goes on with the token ahead. -/
inductive At : Cursor → Lexer → Prop where
  | token {lexer lexer' : Lexer} {token : Token} {bound : Nat}
      (reads : lexer.next = (.ok token, lexer')) (isToken : token ≠ .endOfInput)
      (enough : lexer'.rest.length < bound) :
      At ⟨token, lexer'.tokenStart, .ofLexer bound lexer'⟩ lexer
  | finish {lexer lexer' : Lexer} (reads : lexer.next = (.ok .endOfInput, lexer')) :
      At ⟨.endOfInput, lexer'.tokenStart, .finish lexer'.tokenStart⟩ lexer

variable {lexer : Lexer} {bound : Nat} {c c' : Cursor}

theorem At.of_token {token : Token} {start : Position} {next : Feed}
    (enough : lexer.rest.length < bound)
    (begins : Feed.ofLexer bound lexer = .token token start next) :
    At ⟨token, start, next⟩ lexer := by
  cases bound with
  | zero => cases enough
  | succ bound =>
    rcases step : lexer.next with ⟨outcome, lexer'⟩
    unfold Feed.ofLexer at begins
    simp only [step] at begins
    split at begins <;> cases begins
    rename_i isToken
    have shorter := Lexer.length_next step isToken
    exact .token step isToken (by omega)

theorem At.of_finish {position : Position} (enough : lexer.rest.length < bound)
    (begins : Feed.ofLexer bound lexer = .finish position) :
    At ⟨.endOfInput, position, .finish position⟩ lexer := by
  cases bound with
  | zero => cases enough
  | succ bound =>
    rcases step : lexer.next with ⟨outcome, lexer'⟩
    unfold Feed.ofLexer at begins
    simp only [step] at begins
    split at begins <;> cases begins
    exact .finish step

theorem at_ofText {text : String} (begins : ofText text = .ok c) : c.At (.ofText text) := by
  have enough := Nat.lt_succ_self (Lexer.ofText text).rest.length
  unfold ofText at begins
  split at begins
  · rename_i same
    cases begins
    exact .of_token enough same
  · rename_i same
    cases begins
    exact .of_finish enough same
  · cases begins
  · cases begins

theorem At.next (isAt : c.At lexer) : ∃ lexer' : Lexer, lexer.next = (.ok c.token, lexer') ∧
    c.position = lexer'.tokenStart := by
  cases isAt with
  | token reads => exact ⟨_, reads, rfl⟩
  | finish reads => exact ⟨_, reads, rfl⟩

theorem At.advance (isAt : c.At lexer) (isToken : c.token ≠ .endOfInput)
    (advances : c.advance = .ok c') :
    ∃ lexer' : Lexer, lexer.next = (.ok c.token, lexer') ∧ c'.At lexer' := by
  cases isAt with
  | @token _ lexer' _ bound reads _ enough =>
    refine ⟨lexer', reads, ?_⟩
    unfold Cursor.advance at advances
    split at advances
    · rename_i same
      cases advances
      exact .of_token enough same
    · rename_i same
      cases advances
      exact .of_finish enough same
    · cases advances
    · cases advances
  | finish => exact absurd rfl isToken

theorem At.passes {tokens : List Token} (isAt : c.At lexer) (reads : c.Reads tokens c')
    (noEnd : .endOfInput ∉ tokens) : ∃ lexer', lexer.Passes tokens lexer' ∧ c'.At lexer' := by
  induction reads generalizing lexer with
  | nil c => exact ⟨lexer, .nil lexer, isAt⟩
  | @cons c next c' tokens advances _ ih =>
    rw [List.mem_cons, not_or] at noEnd
    have isToken : c.token ≠ .endOfInput := Ne.symm noEnd.1
    obtain ⟨lexer', step, isAt'⟩ := isAt.advance isToken advances
    obtain ⟨lexer'', passes, isAt''⟩ := ih isAt' noEnd.2
    exact ⟨lexer'', .cons step isToken passes, isAt''⟩

end Parser.Cursor

end QueryGraph
