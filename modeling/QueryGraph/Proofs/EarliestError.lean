import QueryGraph.Proofs.Fragments
import QueryGraph.Proofs.Passage
import QueryGraph.Proofs.Prediction

namespace QueryGraph

open QueryGraph.Grammar QueryGraph.Lexer QueryGraph.Text

theorem Spells.closed {text : List Char} {tokens : List Token} (spells : Spells text tokens) :
    Closed (text ++ [' ']) tokens := by
  intro rest more next
  rw [List.append_assoc]
  exact spells _ _ rfl (.blank rfl next)

theorem exists_closed {token : Token} (filler : isFiller token = true) :
    ∃ text, Closed text [token] := by
  cases token with
  | placeholder => exact ⟨['@'], closed_symbol rfl rfl⟩
  | assign =>
    refine ⟨['=', ' '], fun _ _ next => ?_⟩
    exact tokenizes_symbol rfl (Or.inl nofun) (.blank rfl next)
  | semicolon => exact ⟨[';'], closed_symbol rfl rfl⟩
  | dot => exact ⟨['.'], closed_symbol rfl rfl⟩
  | comma => exact ⟨[','], closed_symbol rfl rfl⟩
  | leftParen => exact ⟨['('], closed_symbol rfl rfl⟩
  | rightParen => exact ⟨[')'], closed_symbol rfl rfl⟩
  | rightBracket => exact ⟨[']'], closed_symbol rfl rfl⟩
  | rightBrace => exact ⟨['\x7d'], closed_symbol rfl rfl⟩
  | keyword word => exact ⟨_, (spells_keyword word).closed⟩
  | identifier name =>
    cases beq_iff_eq.1 filler
    exact ⟨_, (spells_name "x" rfl).closed⟩
  | integer digits =>
    cases beq_iff_eq.1 filler
    exact ⟨_, (spells_toDigits (by decide)).closed⟩
  | _ => cases filler

theorem exists_tokenizes {tokens : List Token} (fillers : ∀ token ∈ tokens, isFiller token = true) :
    ∃ text, Tokenizes text tokens := by
  induction tokens with
  | nil => exact ⟨[], .nil⟩
  | cons token tokens ih =>
    rw [List.forall_mem_cons] at fillers
    obtain ⟨front, closed⟩ := exists_closed fillers.1
    obtain ⟨text, tokenizes⟩ := ih fillers.2
    exact ⟨front ++ text, closed _ _ tokenizes⟩

theorem Tokenizes.blanks {blanks text : List Char} {tokens : List Token}
    (tokenizes : Tokenizes text tokens) (isBlanks : ∀ c ∈ blanks, isBlank c = true) :
    Tokenizes (blanks ++ text) tokens := by
  induction blanks with
  | nil => exact tokenizes
  | cons c blanks ih =>
    rw [List.forall_mem_cons] at isBlanks
    exact .blank isBlanks.1 (ih isBlanks.2)

theorem Tokenizes.lexes {text : List Char} {tokens : List Token} (tokenizes : Tokenizes text tokens)
    (position start : Position) : (⟨text, position, start⟩ : Lexer).Lexes tokens :=
  (Feed.holds_ofLexer_iff (Nat.lt_succ_self _)).1
    (tokenizes.holds (Nat.lt_succ_of_le tokenizes.length_le) position start)

namespace Query

/-- What an unexpected token found at a position says of a text. The text has a part `before` the
position, the token's `lexeme` and the `rest`. -/
structure EarliestError (text : String) (found : Token) (position : Position)
    (before lexeme rest : List Char) : Prop where
  split : text.toList = before ++ (lexeme ++ rest)
  place : Position.start.after before = position
  /-- No other part of the text ends at the position. -/
  only : ∀ front behind, text.toList = front ++ behind → Position.start.after front = position →
    front = before
  /-- The position is where the token begins, after some other tokens. -/
  token : ∃ tokens lexer, (Lexer.ofText text).Passes tokens lexer ∧
    lexer.next = (.ok found, ⟨rest, position.after lexeme, position⟩)
  atEnd : found = .endOfInput → lexeme = [] ∧ rest = []
  /-- With other text behind it what stands before the token is a query. -/
  viable : ∃ more query, Query.parse (String.ofList (before ++ ' ' :: more)) = .ok query
  /-- No text makes a query of it together with the token. -/
  dead : found ≠ .endOfInput → ∀ more query,
    Query.parse (String.ofList (before ++ (lexeme ++ ' ' :: more))) ≠ .ok query

end Query

namespace Parser

theorem exists_reads {text expected : String} {found : Token} {position : Position}
    (fails : Query.parse text = .error (.unexpected expected found position)) :
    ∃ (c c' : Cursor) (tokens : List Token), Cursor.ofText text = .ok c ∧ c.Reads tokens c' ∧
      c'.token = found ∧ c'.position = position ∧
      (∃ more, tokens ++ more ∈ queries ∧ ∀ token ∈ more, isFiller token = true) ∧
      ∀ more, ahead more = found → tokens ++ more ∉ queries := by
  rcases Outcome.bind_eq_error.1 fails with failed | ⟨c, begins, failed⟩
  · unfold Cursor.ofText at failed
    split at failed <;> cases failed
  · have leads := leads_query c
    generalize query c = outcome at failed leads
    cases leads with
    | ok => cases failed
    | @unexpected _ c' _ tokens reads viable dead =>
      cases failed
      exact ⟨c, c', tokens, begins, reads, rfl, rfl, viable, dead⟩
    | other other =>
      cases failed
      exact absurd rfl (other _ _ _)

end Parser

theorem Lexer.ofText_ofList (text : List Char) :
    Lexer.ofText (String.ofList text) = ⟨text, .start, .start⟩ := by
  rw [Lexer.ofText, String.toList_ofList]

namespace Query

theorem viable_of_passes {text : List Char} {tokens fillers : List Token} {lexer : Lexer}
    (passes : (Lexer.ofText (String.ofList text)).Passes tokens lexer)
    (lexes : lexer.Lexes fillers) (derived : tokens ++ fillers ∈ queries) :
    ∃ query, Query.parse (String.ofList text) = .ok query := by
  obtain ⟨tree, same⟩ := derived
  have all := passes.lexes_iff.2 ⟨fillers, rfl, lexes⟩
  rw [← same] at all
  exact ⟨tree.query, Query.parse_eq (Feed.holds_ofText_iff.2 all) tree.derives⟩

theorem dead_of_passes {text : List Char} {tokens : List Token} {lexer : Lexer}
    (passes : (Lexer.ofText (String.ofList text)).Passes tokens lexer)
    (dead : ∀ more, tokens ++ more ∉ queries) (query : Query) :
    Query.parse (String.ofList text) ≠ .ok query := by
  intro parsed
  obtain ⟨tree, holds, _⟩ := Parser.accepts_text parsed
  obtain ⟨more, same, _⟩ := passes.lexes_iff.1 (Feed.holds_ofText_iff.1 holds)
  exact dead more ⟨tree, same⟩

theorem parse_earliest {text expected : String} {found : Token} {position : Position}
    (fails : Query.parse text = .error (.unexpected expected found position)) :
    ∃ before lexeme rest, EarliestError text found position before lexeme rest := by
  obtain ⟨c, c', tokens, begins, reads, rfl, rfl, ⟨fillers, derived, areFillers⟩, dead⟩ :=
    Parser.exists_reads fails
  have noEnd : .endOfInput ∉ tokens := by
    obtain ⟨tree, same⟩ := derived
    have inside := tree.endOfInput_not_mem
    rw [same, List.mem_append, not_or] at inside
    exact inside.1
  obtain ⟨lexer, passes, isAt⟩ := (Parser.Cursor.at_ofText begins).passes reads noEnd
  obtain ⟨lexer', next, place⟩ := isAt.next
  obtain ⟨blanks, lexeme, steps⟩ := Lexer.exists_steps next
  obtain ⟨front, split, position, again⟩ := passes.split
  have whole : text.toList = front ++ blanks ++ (lexeme ++ lexer'.rest) := by
    rw [List.append_assoc, ← steps.split]
    exact split
  have here : Position.start.after (front ++ blanks) = c'.position := by
    rw [Position.after_append, place, steps.start, position]
    rfl
  refine ⟨front ++ blanks, lexeme, lexer'.rest, whole, here, ?_, ?_, ?_, ?_, ?_⟩
  · intro other behind split' there
    exact Position.after_injective (split'.symm.trans whole) (there.trans here.symm)
  · refine ⟨tokens, lexer, passes, ?_⟩
    rw [next, place, ← steps.position]
  · intro isEnd
    rw [isEnd] at steps
    exact steps.lexeme_eq_nil
  · obtain ⟨more, tokenizes⟩ := exists_tokenizes areFillers
    obtain ⟨blank, behind, isBlank', same⟩ : ∃ blank behind, isBlank blank = true ∧
        blanks ++ ' ' :: more = blank :: behind := by
      cases blanks with
      | nil => exact ⟨' ', more, rfl, rfl⟩
      | cons blank blanks => exact ⟨blank, _, steps.isBlanks _ List.mem_cons_self, rfl⟩
    obtain ⟨position', start', passes'⟩ := again blank behind .start .start isBlank'
    have lexes := (Tokenizes.blank (c := ' ') rfl tokenizes).blanks steps.isBlanks
    rw [← same, ← List.append_assoc, ← Lexer.ofText_ofList] at passes'
    exact ⟨more, viable_of_passes passes' (lexes.lexes position' start') derived⟩
  · intro isToken more query
    obtain ⟨text', split', _, again'⟩ := (passes.append (.cons next isToken (.nil lexer'))).split
    have front' : text' = front ++ blanks ++ lexeme := by
      refine List.append_cancel_right (split'.symm.trans ?_)
      rw [List.append_assoc _ lexeme]
      exact whole
    obtain ⟨position', start', passes'⟩ := again' ' ' more .start .start rfl
    rw [front', List.append_assoc _ lexeme, ← Lexer.ofText_ofList] at passes'
    refine dead_of_passes passes' ?_ query
    intro after
    rw [List.append_assoc]
    exact dead _ rfl

/-- A semicolon is missing. -/
theorem sample_earliest :
    Query.parse "a = 1\n$a" = .error (.unexpected "';'" (.reference "a") ⟨2, 1⟩) ∧
      ∃ before lexeme rest,
        EarliestError "a = 1\n$a" (.reference "a") ⟨2, 1⟩ before lexeme rest := by
  have fails : Query.parse "a = 1\n$a" = .error (.unexpected "';'" (.reference "a") ⟨2, 1⟩) := rfl
  exact ⟨fails, parse_earliest fails⟩

end Query

end QueryGraph
