import Mathlib.Data.List.Induction
import Mathlib.Data.List.TakeWhile
import QueryGraph.Proofs.Passage

namespace QueryGraph

open QueryGraph.Lexer QueryGraph.Text

namespace Text.Position

/-- The place behind a whole text: one line for each newline, and on the last line one column for
each character, both from one. -/
def count (text : List Char) : Position :=
  ⟨text.count '\n' + 1, (text.reverse.takeWhile (· ≠ '\n')).length + 1⟩

theorem count_concat (text : List Char) (c : Char) : count (text ++ [c]) = (count text).step c := by
  by_cases newline : c = '\n'
  · simp [count, step, newline]
  · simp [count, step, newline]

theorem start_after (text : List Char) : start.after text = count text := by
  induction text using List.reverseRecOn with
  | nil => rfl
  | append_singleton text c ih =>
    rw [after_append, ih, count_concat]
    rfl

end Text.Position

namespace Lexer

/-- The blanks that the next call steps over. -/
def blanks (lexer : Lexer) : List Char :=
  lexer.rest.takeWhile isBlank

/-- The piece of the text that the next call takes up behind the blanks. -/
def span (lexer : Lexer) : List Char :=
  let text := lexer.rest.dropWhile isBlank
  text.take (text.length - lexer.next.2.rest.length)

variable {lexer lexer' : Lexer} {token : Token} {text : String}

theorem span_append (lexer : Lexer) :
    lexer.span ++ lexer.next.2.rest = lexer.rest.dropWhile isBlank :=
  List.suffix_iff_eq_append.1 (List.drop_suffix _ _)

theorem blanks_append (lexer : Lexer) :
    lexer.blanks ++ (lexer.span ++ lexer.next.2.rest) = lexer.rest := by
  rw [span_append]
  exact List.takeWhile_append_dropWhile

theorem next_tokenStart (lexer : Lexer) :
    lexer.next.2.tokenStart = lexer.position.after lexer.blanks := rfl

theorem next_position (lexer : Lexer) :
    lexer.next.2.position = lexer.position.after (lexer.blanks ++ lexer.span) := by
  have taken : lexer.span = (lexer.rest.dropWhile isBlank).take
      (Scan.ofText (lexer.rest.dropWhile isBlank)).length := by
    refine List.append_cancel_right (lexer.span_append.trans ?_)
    exact (List.take_append_drop _ _).symm
  rw [Position.after_append, taken]
  rfl

theorem Steps.span_eq {between lexeme : List Char}
    (steps : lexer.Steps token lexer' between lexeme) : lexer.span = lexeme := by
  have split := lexer.span_append
  rw [steps.next, steps.dropWhile_eq] at split
  exact List.append_cancel_right split

theorem span_ne_nil (reads : lexer.next.1 = .ok token) (isToken : token ≠ .endOfInput) :
    lexer.span ≠ [] := by
  obtain ⟨between, lexeme, steps⟩ := exists_steps (Prod.ext reads rfl)
  rw [steps.span_eq]
  exact steps.lexeme_ne_nil isToken

theorem next_endOfInput_iff :
    lexer.next.1 = .ok .endOfInput ↔ ∀ c ∈ lexer.rest, isBlank c = true := by
  constructor
  · intro reads
    obtain ⟨between, lexeme, steps⟩ := exists_steps (Prod.ext reads rfl)
    obtain ⟨rfl, nothing⟩ := steps.lexeme_eq_nil
    rw [steps.split, nothing, List.nil_append, List.append_nil]
    exact steps.isBlanks
  · intro isBlanks
    have nothing : lexer.rest.dropWhile isBlank = [] := List.dropWhile_eq_nil_iff.2 isBlanks
    simp only [next, nothing]
    rfl

/-- The piece that a token takes up, read on its own, is the token and nothing else. -/
theorem next_span (reads : lexer.next.1 = .ok token) :
    ∃ alone : Lexer, (ofText (String.ofList lexer.span)).next = (.ok token, alone) ∧
      alone.rest = [] := by
  obtain ⟨between, lexeme, steps⟩ := exists_steps (Prod.ext reads rfl)
  rw [steps.span_eq]
  by_cases isEnd : token = .endOfInput
  · subst isEnd
    rw [steps.lexeme_eq_nil.1]
    exact ⟨_, rfl, rfl⟩
  · obtain ⟨c, lexeme, rfl⟩ := List.exists_cons_of_ne_nil (steps.lexeme_ne_nil isEnd)
    have scans := Scan.ofText_cut breaks_nil steps.scans (Nat.le_refl _)
    have alone : Steps (ofText (String.ofList (c :: lexeme))) token
        ⟨[], Position.start.after (c :: lexeme), Position.start⟩ [] (c :: lexeme) :=
      { split := String.toList_ofList.trans (List.append_nil _).symm
        isBlanks := nofun
        visible := steps.visible
        scans := scans
        start := rfl
        position := rfl }
    exact ⟨_, alone.next, rfl⟩

/-- The lexer of a text after some calls, whatever they returned. -/
def called (text : String) : Nat → Lexer
  | 0 => ofText text
  | n + 1 => (called text n).next.2

/-- What the call returns that comes after so many others. -/
def outcome (text : String) (n : Nat) : Except LexError Token :=
  (called text n).next.1

/-- The part of the text in front of the place where the lexer stands after some calls. -/
def consumed (text : String) (n : Nat) : List Char :=
  text.toList.take (text.toList.length - (called text n).rest.length)

theorem called_suffix (text : String) (n : Nat) : (called text n).rest <:+ text.toList := by
  induction n with
  | zero => exact List.suffix_refl _
  | succ n ih =>
    refine List.IsSuffix.trans ?_ ih
    rw [← blanks_append (called text n), ← List.append_assoc]
    exact List.suffix_append _ _

theorem consumed_append (text : String) (n : Nat) :
    consumed text n ++ (called text n).rest = text.toList :=
  List.suffix_iff_eq_append.1 (called_suffix text n)

theorem consumed_succ (text : String) (n : Nat) : consumed text (n + 1) =
    consumed text n ++ ((called text n).blanks ++ (called text n).span) := by
  have piece := blanks_append (called text n)
  have before := consumed_append text n
  have behind := consumed_append text (n + 1)
  rw [← before, ← piece, ← List.append_assoc, ← List.append_assoc] at behind
  rw [← List.append_assoc]
  exact List.append_cancel_right behind

theorem consumed_eq_flatMap (text : String) (n : Nat) : consumed text n =
    (List.range n).flatMap fun i => (called text i).blanks ++ (called text i).span := by
  induction n with
  | zero => simp [consumed, called, ofText]
  | succ n ih =>
    rw [consumed_succ, ih, List.range_succ, List.flatMap_append, List.flatMap_singleton]

theorem called_position (text : String) (n : Nat) :
    (called text n).position = Position.count (consumed text n) := by
  rw [← Position.start_after]
  induction n with
  | zero => simp [consumed, called, ofText]
  | succ n ih => rw [consumed_succ, Position.after_append, ← ih, called, next_position]

theorem outcome_succ {n : Nat} (reads : outcome text n = .ok .endOfInput) :
    outcome text (n + 1) = .ok .endOfInput := by
  rw [outcome, next_endOfInput_iff] at reads ⊢
  intro c isLeft
  refine reads c (List.IsSuffix.mem isLeft ?_)
  rw [← blanks_append (called text n), ← List.append_assoc]
  exact List.suffix_append _ _

/-- The account that a lexer gives of a text, in terms of the text alone. -/
structure Exact (text : String) (n : Nat) : Prop where
  /-- What is consumed and what is left are the text. -/
  split : consumed text n ++ (called text n).rest = text.toList
  position : (called text n).position = Position.count (consumed text n)
  /-- Where the last of some calls found a token, or the end: behind the blanks that it found
  first. -/
  tokenStart : (called text (n + 1)).tokenStart =
    Position.count (consumed text n ++ (called text n).blanks)
  advances : ∀ token, outcome text n = .ok token → token ≠ .endOfInput →
    (consumed text n).length < (consumed text (n + 1)).length
  finish_iff : outcome text n = .ok .endOfInput ↔ ∀ c ∈ (called text n).rest, isBlank c = true
  forever : outcome text n = .ok .endOfInput → ∀ m, n ≤ m → outcome text m = .ok .endOfInput
  /-- The pieces that the calls took up, one behind the other with blanks between them. -/
  covered : consumed text n =
    (List.range n).flatMap fun i => (called text i).blanks ++ (called text i).span
  alone : ∀ token, outcome text n = .ok token →
    outcome (String.ofList (called text n).span) 0 = .ok token ∧
      outcome (String.ofList (called text n).span) 1 = .ok .endOfInput

theorem calls_exact (text : String) (n : Nat) : Exact text n where
  split := consumed_append text n
  position := called_position text n
  tokenStart := by
    rw [called, next_tokenStart, called_position, ← Position.start_after, ← Position.start_after,
      Position.after_append]
  advances := by
    intro token reads isToken
    have some := List.length_pos_iff.2 (span_ne_nil reads isToken)
    rw [consumed_succ, List.length_append, List.length_append]
    omega
  finish_iff := next_endOfInput_iff
  forever := by
    intro reads m later
    induction later with
    | refl => exact reads
    | step _ ih => exact outcome_succ ih
  covered := consumed_eq_flatMap text n
  alone := by
    intro token reads
    obtain ⟨alone, first, nothing⟩ := next_span reads
    refine ⟨congrArg Prod.fst first, next_endOfInput_iff.2 ?_⟩
    have rest : (called (String.ofList (called text n).span) 1).rest = [] := by
      rw [called, called, first]
      exact nothing
    rw [rest]
    exact nofun

/-- A newline between tokens, one in a string, and a character that no token begins with. -/
def spansSample : String :=
  "ab \n\"x\ny\" 1.$"

theorem sample_calls_exact :
    (called spansSample 2).position = ⟨3, 3⟩ ∧ (called spansSample 2).tokenStart = ⟨2, 1⟩ ∧
      outcome "\"x\ny\"" 0 = .ok (.string "x\ny") ∧
      outcome "\"x\ny\"" 1 = .ok .endOfInput ∧
      outcome spansSample 5 = .error ⟨.unexpected '$', ⟨3, 6⟩⟩ ∧
      (called spansSample 6).position = ⟨3, 6⟩ := by
  have second := (calls_exact spansSample 1).alone (.string "x\ny") (by rfl)
  refine ⟨?_, ?_, second.1, second.2, by rfl, ?_⟩
  · exact (calls_exact spansSample 2).position.trans (by rfl)
  · exact (calls_exact spansSample 1).tokenStart.trans (by rfl)
  · exact (calls_exact spansSample 6).position.trans (by rfl)

end Lexer

end QueryGraph
