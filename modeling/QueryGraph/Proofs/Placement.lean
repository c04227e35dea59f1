import QueryGraph.Proofs.Grammar

namespace QueryGraph

open QueryGraph.Number

/-- The words that stand for some of the numbers. -/
abbrev Words := Double → Option String

/-- A token as it stands in a text, where some numbers are words. -/
def Token.worded (words : Words) : Token → Token
  | .float value =>
    match words value with
    | none => .float value
    | some word => .identifier word
  | token => token

/-- A text in which every number has digits. -/
def noWords : Words := fun _ => none

namespace Token

variable {words : Words}

@[simp] theorem worded_of_not_float {token : Token} (other : ∀ value, token ≠ .float value) :
    token.worded words = token := by
  cases token with
  | float value => exact absurd rfl (other value)
  | _ => rfl

theorem worded_noWords (token : Token) : token.worded noWords = token := by
  cases token <;> rfl

@[simp] theorem map_worded_noWords (tokens : List Token) :
    tokens.map (worded noWords) = tokens :=
  List.map_id'' worded_noWords tokens

theorem worded_key {token : Token} {key : String} (isKey : token.key? = some key) :
    token.worded words = token :=
  worded_of_not_float fun value same => by
    rw [same] at isKey
    cases isKey

theorem worded_float (words : Words) (value : Double) :
    (words value = none ∧ (float value).worded words = .float value) ∨
      ∃ word, words value = some word ∧ (float value).worded words = .identifier word := by
  cases known : words value with
  | none => exact Or.inl ⟨rfl, by simp [worded, known]⟩
  | some word => exact Or.inr ⟨word, rfl, by simp [worded, known]⟩

end Token

/-- Whether the next token is a key whatever else it looks like. -/
def Token.introduces : Token → Bool
  | .dot | .pipe => true
  | _ => false

/-- Whether a token is where it can be, given if a key is due and what comes after it. -/
def Token.Fits (due : Bool) (rest : List Token) : Token → Prop
  | .identifier _ => due = true ∨ rest.head? = some .assign
  | .float _ => due = false ∧ rest.head? ≠ some .assign
  | _ => True

/-- Whether identifiers are keys or the names of statements, and numbers are not. -/
def Placed : Bool → List Token → Prop
  | _, [] => True
  | due, token :: rest => token.Fits due rest ∧ Placed token.introduces rest

/-- Whether some tokens may come after an expression. -/
structure Follows (tokens : List Token) : Prop where
  placed : Placed false tokens
  noAssign : tokens.head? ≠ some .assign

/-- Whether the tokens of a phrase keep to the places in front of all that may come after it. -/
def Phrase.Places : Phrase → List Token → Prop
  | .expression _, tokens | .operand _ _, tokens | .values _, tokens =>
    ∀ rest, Follows rest → Placed false (tokens ++ rest)
  | .links _ _ _, tokens | .accesses _ _, tokens | .steps _, tokens =>
    ∀ rest, Follows rest → Follows (tokens ++ rest)
  | .call _, tokens => ∀ rest, Follows rest → Placed true (tokens ++ rest)
  | .entries close _ _, tokens => close = .rightParen ∨ close = .rightBrace →
    ∀ rest, Follows rest → Placed false (tokens ++ rest)

theorem Token.introduces_key {token : Token} {key : String} (isKey : token.key? = some key) :
    token.introduces = false := by
  cases token <;> first | rfl | cases isKey

theorem Token.fits_key {token : Token} {key : String} (isKey : token.key? = some key)
    {rest : List Token} : token.Fits true rest := by
  cases token with
  | identifier => exact Or.inl rfl
  | float => cases isKey
  | _ => trivial

theorem Token.fits_assigned {token : Token} {key : String} (isKey : token.key? = some key)
    {due : Bool} {rest : List Token} : token.Fits due (.assign :: rest) := by
  cases token with
  | identifier => exact Or.inr rfl
  | float => cases isKey
  | _ => trivial

theorem placed_assigned {token : Token} {key : String} (isKey : token.key? = some key) {due : Bool}
    {rest : List Token} (value : Placed false rest) : Placed due (token :: .assign :: rest) :=
  ⟨Token.fits_assigned isKey, trivial, value⟩

/-- Whether a token is the same wherever it stands, and no part of an assignment. -/
def Token.isMark : Token → Bool
  | .identifier _ | .float _ | .assign => false
  | _ => true

theorem placed_mark (token : Token) (isMark : token.isMark = true) {due : Bool}
    {rest : List Token} (tail : Placed token.introduces rest) : Placed due (token :: rest) := by
  refine ⟨?_, tail⟩
  cases token <;> trivial

theorem follows_mark (token : Token) (isMark : token.isMark = true) {rest : List Token}
    (tail : Placed token.introduces rest) : Follows (token :: rest) := by
  refine ⟨placed_mark token isMark tail, ?_⟩
  rintro ⟨⟩
  cases isMark

theorem placed_closed {close : Token} (closes : close = .rightParen ∨ close = .rightBrace)
    {due : Bool} {rest : List Token} (tail : Placed false rest) : Placed due (close :: rest) := by
  rcases closes with rfl | rfl <;> exact ⟨trivial, tail⟩

theorem follows_closed {close : Token} (closes : close = .rightParen ∨ close = .rightBrace)
    {rest : List Token} (tail : Placed false rest) : Follows (close :: rest) := by
  rcases closes with rfl | rfl <;> exact ⟨⟨trivial, tail⟩, nofun⟩

/-- No rule of the grammar puts an identifier or a number out of its place. The tokens behind a
phrase are part of the statement, since it depends on them whether an identifier is a key. -/
theorem Derives.places {phrase : Phrase} {tokens : List Token} (derives : Derives phrase tokens) :
    phrase.Places tokens := by
  induction derives with
  | conditional _ _ _ condition thenDo elseDo =>
    intro rest follows
    have elseText := follows_mark (.keyword .elseWord) rfl (elseDo rest follows)
    have thenText := follows_mark (.keyword .thenWord) rfl (thenDo _ elseText)
    have ifText : Placed false _ := placed_mark (.keyword .ifWord) rfl (condition _ thenText)
    simpa using ifText
  | plain _ base => exact base
  | pipeline _ _ base steps | chain _ _ _ base steps | access _ _ base steps =>
    intro rest follows
    simpa using base _ (steps rest follows)
  | stepsNil | linksNil | accessesNil => exact fun _ follows => follows
  | stepsCons _ _ step others =>
    intro rest follows
    simpa using follows_mark .pipe rfl (step _ (others rest follows))
  | call spaceKey nameKey _ arguments =>
    intro rest follows
    have entries := arguments (Or.inl rfl) rest follows
    have «open» : Placed false _ := placed_mark .leftParen rfl entries
    refine ⟨Token.fits_key spaceKey, ?_⟩
    rw [Token.introduces_key spaceKey]
    refine ⟨trivial, Token.fits_key nameKey, ?_⟩
    rw [Token.introduces_key nameKey]
    exact «open»
  | entriesNil => exact fun closes rest follows => placed_closed closes follows.placed
  | entriesLast isKey _ value =>
    intro closes rest follows
    have text := value _ (follows_closed closes follows.placed)
    have entry : Placed false _ := placed_assigned isKey text
    simpa using entry
  | entriesCons isKey _ _ value others =>
    intro closes rest follows
    have comma := follows_mark .comma rfl (others closes rest follows)
    have entry : Placed false _ := placed_assigned isKey (value _ comma)
    simpa using entry
  | valuesNil => exact fun rest follows => placed_mark _ rfl follows.placed
  | valuesLast _ value =>
    intro rest follows
    have close := follows_mark .rightBracket rfl follows.placed
    simpa using value _ close
  | valuesCons _ _ value others =>
    intro rest follows
    have comma := follows_mark .comma rfl (others rest follows)
    simpa using value _ comma
  | @linksCons _ _ _ _ op _ _ _ _ _ right others =>
    intro rest follows
    simpa using follows_mark (.operator op) rfl (right _ (others rest follows))
  | single _ operand => exact operand
  | @comparison _ _ op _ _ _ _ _ left right =>
    intro rest follows
    simpa using left _ (follows_mark (.operator op) rfl (right rest follows))
  | accessesLookup isKey _ others =>
    intro rest follows
    refine follows_mark .dot rfl ⟨Token.fits_key isKey, ?_⟩
    rw [Token.introduces_key isKey]
    exact (others rest follows).placed
  | accessesIndex _ _ index others =>
    intro rest follows
    have close := follows_mark .rightBracket rfl (others rest follows).placed
    simpa using follows_mark .leftBracket rfl (index _ close)
  | float => exact fun rest follows => ⟨⟨rfl, follows.noAssign⟩, follows.placed⟩
  | negativeFloat =>
    exact fun rest follows => ⟨trivial, ⟨rfl, follows.noAssign⟩, follows.placed⟩
  | negativeInteger => exact fun rest follows => ⟨trivial, trivial, follows.placed⟩
  | integer | string | boolean | reference | placeholder =>
    exact fun rest follows => ⟨trivial, follows.placed⟩
  | parens _ inner =>
    intro rest follows
    have close := follows_mark .rightParen rfl follows.placed
    have «open» : Placed false _ := placed_mark .leftParen rfl (inner _ close)
    simpa using «open»
  | list _ values =>
    exact fun rest follows => placed_mark _ rfl (values rest follows)
  | dict _ entries =>
    exact fun rest follows => placed_mark _ rfl (entries (Or.inr rfl) rest follows)
  | table _ inner =>
    intro rest follows
    have close := follows_mark .rightParen rfl follows.placed
    have «open» : Placed false _ := placed_mark .leftParen rfl (inner _ close)
    have word : Placed false _ := placed_mark (.keyword .tableWord) rfl «open»
    simpa using word

theorem DerivesStatements.places {statements : List (Statement Expr)} {tokens rest : List Token}
    (derives : DerivesStatements statements tokens) (final : Placed false rest) :
    Placed false (tokens ++ rest) := by
  induction derives with
  | nil => exact final
  | @cons statement _ _ _ body _ others =>
    have semicolon := follows_mark .semicolon rfl others
    have line : Placed false (.identifier statement.name :: .assign :: _) :=
      placed_assigned rfl (body.places _ semicolon)
    simpa using line

theorem Query.Derives.placed {query : Query} {tokens : List Token}
    (derives : query.Derives tokens) : Placed false tokens := by
  obtain ⟨statements, final⟩ := derives
  have last := final.places [] ⟨trivial, nofun⟩
  rw [List.append_nil] at last
  exact statements.places last

variable {words : Words}

theorem head?_map_worded (words : Words) {tokens : List Token} :
    (tokens.map (Token.worded words)).head? = some .assign ↔ tokens.head? = some .assign := by
  cases tokens with
  | nil => simp
  | cons token rest =>
    cases token with
    | float value => cases known : words value <;> simp [Token.worded, known]
    | _ => simp

theorem Token.not_fits_word {value : Double} {word : String} {due : Bool} {rest rest' : List Token}
    (number : (Token.float value).Fits due rest) (key : (Token.identifier word).Fits due rest')
    (same : rest.map (worded words) = rest'.map (worded words)) : False := by
  obtain ⟨notDue, noAssign⟩ := number
  rcases key with due' | assign
  · rw [notDue] at due'
    cases due'
  · rw [← head?_map_worded words, ← same, head?_map_worded] at assign
    exact noAssign assign

theorem Token.eq_of_worded {token token' : Token} {due : Bool} {rest rest' : List Token}
    (fits : token.Fits due rest) (fits' : token'.Fits due rest')
    (same : token.worded words = token'.worded words)
    (others : rest.map (worded words) = rest'.map (worded words))
    (sure : ∀ value value' word, token = .float value → token' = .float value' →
      words value = some word → words value' = some word → value = value') : token = token' := by
  by_cases number : ∃ value, token = .float value <;>
    by_cases number' : ∃ value, token' = .float value
  · obtain ⟨value, rfl⟩ := number
    obtain ⟨value', rfl⟩ := number'
    rcases worded_float words value with ⟨_, plain⟩ | ⟨word, known, isWord⟩ <;>
      rcases worded_float words value' with ⟨_, plain'⟩ | ⟨word', known', isWord'⟩
    · rwa [plain, plain'] at same
    · rw [plain, isWord'] at same
      cases same
    · rw [isWord, plain'] at same
      cases same
    · rw [isWord, isWord'] at same
      cases same
      rw [sure value value' word rfl rfl known known']
  · obtain ⟨value, rfl⟩ := number
    rw [worded_of_not_float (not_exists.1 number')] at same
    rcases worded_float words value with ⟨_, plain⟩ | ⟨word, _, isWord⟩
    · exact absurd ⟨value, (plain.symm.trans same).symm⟩ number'
    · obtain rfl := isWord.symm.trans same
      exact (not_fits_word fits fits' others).elim
  · obtain ⟨value, rfl⟩ := number'
    rw [worded_of_not_float (not_exists.1 number)] at same
    rcases worded_float words value with ⟨_, plain⟩ | ⟨word, _, isWord⟩
    · exact absurd ⟨value, same.trans plain⟩ number
    · obtain rfl := isWord.symm.trans same.symm
      exact (not_fits_word fits' fits others.symm).elim
  · rwa [worded_of_not_float (not_exists.1 number), worded_of_not_float (not_exists.1 number')]
      at same

/-- Tokens are known from how they stand in a text with words, if it is known for each word which
number it stands for. -/
theorem Placed.eq_of_worded {tokens tokens' : List Token} {due : Bool} (placed : Placed due tokens)
    (placed' : Placed due tokens')
    (same : tokens.map (Token.worded words) = tokens'.map (Token.worded words))
    (sure : ∀ value value' word, .float value ∈ tokens → .float value' ∈ tokens' →
      words value = some word → words value' = some word → value = value') : tokens = tokens' := by
  induction tokens generalizing tokens' due with
  | nil => exact (List.map_eq_nil_iff.1 same.symm).symm
  | cons token rest ih =>
    cases tokens' with
    | nil => cases same
    | cons token' rest' =>
      obtain ⟨fits, tail⟩ := placed
      obtain ⟨fits', tail'⟩ := placed'
      obtain ⟨first, others⟩ := List.cons.inj same
      obtain rfl := Token.eq_of_worded fits fits' first others fun value value' word is is' =>
        sure value value' word (is ▸ List.mem_cons_self) (is' ▸ List.mem_cons_self)
      rw [ih tail tail' others fun value value' word member member' =>
        sure value value' word (List.mem_cons_of_mem _ member) (List.mem_cons_of_mem _ member')]

end QueryGraph
