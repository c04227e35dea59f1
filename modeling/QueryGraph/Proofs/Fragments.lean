import QueryGraph.Proofs.Images
import QueryGraph.Proofs.Numerals
import QueryGraph.Proofs.Placement
import QueryGraph.Proofs.Trimming
import QueryGraph.Render.Text
import QueryGraph.Render.Tree

namespace QueryGraph

open QueryGraph.Lexer QueryGraph.Text

/-- Whether a piece of text is made of some tokens, whatever follows it. -/
def Closed (text : List Char) (tokens : List Token) : Prop :=
  ∀ rest more, Tokenizes rest more → Tokenizes (text ++ rest) (tokens ++ more)

theorem Closed.spells {text : List Char} {tokens : List Token} (closed : Closed text tokens) :
    Spells text tokens :=
  fun _ _ _ next => closed _ _ next

theorem closed_symbol {c : Char} {token : Token} (short : Scan.symbol? c = some token)
    (single : Scan.symbolWithEquals? c = none) : Closed [c] [token] :=
  fun _ _ next => tokenizes_symbol short (Or.inr single) next

theorem closed_comma : Closed [',', ' '] [.comma] :=
  fun _ _ next => tokenizes_symbol rfl (Or.inr rfl) (.blank rfl next)

theorem tokenizes_assign {text : List Char} {token : Token} {tokens : List Token}
    (noEqual : token ≠ .operator .equal) (noAssign : token ≠ .assign)
    (next : Tokenizes text (token :: tokens)) :
    Tokenizes ('=' :: text) (.assign :: token :: tokens) := by
  refine tokenizes_symbol rfl (Or.inl ?_) next
  cases next with
  | blank isBlank =>
    rintro ⟨⟩
    cases isBlank
  | @token c lexeme rest _ _ _ scans =>
    rintro ⟨⟩
    have outcome : (Scan.symbol '=' (lexeme ++ rest)).outcome = .ok token :=
      congrArg Scan.outcome scans
    have either : token = .operator .equal ∨ token = .assign := by
      unfold Scan.symbol at outcome
      split at outcome
      · rename_i long isLong
        split at isLong <;> cases isLong
        exact Or.inl (Except.ok.inj outcome).symm
      · exact Or.inr (Except.ok.inj outcome).symm
    exact either.elim noEqual noAssign

theorem Token.worded_begins (words : Words) {token : Token}
    (begins : token.begins = true ∨ token = .keyword .ifWord) :
    token.worded words ≠ .operator .equal ∧ token.worded words ≠ .assign := by
  cases token with
  | float value =>
    rcases worded_float words value with ⟨_, same⟩ | ⟨_, _, same⟩ <;> rw [same] <;>
      exact ⟨nofun, nofun⟩
  | _ =>
    constructor <;> rintro ⟨⟩ <;> rcases begins with begins | begins <;> cases begins

theorem key?_wordToken (word : String) : (Scan.wordToken word).key? = some word := by
  unfold Scan.wordToken
  split <;> rfl

@[simp] theorem worded_wordToken {words : Words} (word : String) :
    (Scan.wordToken word).worded words = Scan.wordToken word :=
  Token.worded_key (key?_wordToken word)

theorem wordToken_eq {word : String} (free : word ∉ keywords) :
    Scan.wordToken word = .identifier word := by
  unfold Scan.wordToken
  split <;> first | rfl | exact absurd (by decide) free

theorem isIdentifier_of_isName {name : String} (h : isName name = true) :
    isIdentifier name = true := by
  rw [isName, Bool.and_eq_true] at h
  exact h.1

theorem not_mem_keywords_of_isName {name : String} (h : isName name = true) : name ∉ keywords := by
  rw [isName, Bool.and_eq_true] at h
  simpa using h.2

theorem spells_name (name : String) (isName' : isName name = true) :
    Spells name.toList [.identifier name] := by
  have spells := spells_word (isIdentifier_of_isName isName')
  rwa [wordToken_eq (not_mem_keywords_of_isName isName')] at spells

theorem spells_keyword (word : Keyword) : Spells word.text.toList [.keyword word] := by
  cases word <;> exact spells_word rfl

/-- What a text of some binding strength derives. -/
def Phrase.ofStrength (precedence : Nat) (expr : Expr) : Phrase :=
  if precedence ≤ Operator.pipelinePrecedence then .expression expr else .operand precedence expr

namespace Fragment

/-- Whether a fragment is read as an expression, as tightly bound as it says, by whoever knows the
words. -/
def Denotes (words : Words) (fragment : Fragment) (expr : Expr) : Prop :=
  fragment.precedence ≤ Operator.atomPrecedence ∧ ∃ tokens,
    Spells fragment.text (tokens.map (Token.worded words)) ∧
    Derives (.ofStrength fragment.precedence expr) tokens

/-- Whether a text is read as an operator call. -/
def DenotesCall (words : Words) (text : List Char) (call : Call) : Prop :=
  ∃ tokens, Closed text (tokens.map (Token.worded words)) ∧ Derives (.call call) tokens

variable {words : Words} {fragment : Fragment} {expr : Expr}

theorem denotes_atom {text : List Char} (tokens : List Token)
    (spells : Spells text (tokens.map (Token.worded words)))
    (derives : Derives (.operand Operator.atomPrecedence expr) tokens) :
    (atom text).Denotes words expr :=
  ⟨Nat.le_refl _, tokens, spells, derives⟩

theorem Denotes.expression (denotes : fragment.Denotes words expr) :
    ∃ tokens, Spells fragment.text (tokens.map (Token.worded words)) ∧
      Derives (.expression expr) tokens := by
  obtain ⟨most, tokens, spells, derives⟩ := denotes
  refine ⟨tokens, spells, ?_⟩
  unfold Phrase.ofStrength at derives
  split at derives
  · exact derives
  · rename_i strong
    exact .plain (derives.weaken (Nat.le_refl _) (Nat.lt_of_not_le strong) most)

theorem Denotes.wrapped (denotes : fragment.Denotes words expr) (level : Nat) (wrap : Bool)
    (least : Operator.or.precedence ≤ level) (most : level ≤ Operator.atomPrecedence)
    (strong : wrap = false → level ≤ fragment.precedence) :
    ∃ tokens, Spells (fragment.wrapped wrap) (tokens.map (Token.worded words)) ∧
      Derives (.operand level expr) tokens := by
  cases wrap with
  | true =>
    obtain ⟨tokens, spells, derives⟩ := denotes.expression
    refine ⟨_, ?_, (Derives.parens derives).weaken least most (Nat.le_refl _)⟩
    intro rest more _ next
    have inner := spells _ _ rfl (tokenizes_symbol (c := ')') rfl (Or.inr rfl) next)
    have outer := tokenizes_symbol (c := '(') rfl (Or.inr rfl) inner
    simpa [Fragment.wrapped] using outer
  | false =>
    obtain ⟨bound, tokens, spells, derives⟩ := denotes
    have level_le := strong rfl
    have notWeak : ¬ fragment.precedence ≤ Operator.pipelinePrecedence :=
      Nat.not_le_of_lt (Nat.lt_of_lt_of_le (by decide) (Nat.le_trans least level_le))
    rw [Phrase.ofStrength, if_neg notWeak] at derives
    exact ⟨tokens, spells, derives.weaken least level_le bound⟩

variable {left right on : Fragment} {left' right' on' : Expr}

theorem precedence_bounds (op : Operator) :
    Operator.or.precedence ≤ op.precedence ∧ op.precedence < Operator.atomPrecedence := by
  cases op <;> decide

/-- The level at which the left operand of an operator stands. -/
def leftLevel (op : Operator) : Nat :=
  if op.isComparison then op.precedence + 1 else op.precedence

theorem derives_operator {op : Operator} (written : op ≠ .index) {first second : List Token}
    (left'' : Derives (.operand (leftLevel op) left') first)
    (right'' : Derives (.operand (op.precedence + 1) right') second) :
    Derives (.operand op.precedence (.ofOperator left' op right'))
      (first ++ .operator op :: second) := by
  unfold leftLevel at left''
  split at left''
  · rename_i compares
    have level : op.precedence = Operator.equal.precedence := by
      simpa [Operator.isComparison] using compares
    rw [level] at left'' right'' ⊢
    exact .comparison compares left'' right''
  · have chains : op.precedence ∈ chainLevels := by
      cases op <;> first | decide | contradiction
    exact left''.chain_concat chains right''

theorem Denotes.leftOperand (denotes : left.Denotes words left') (op : Operator) :
    ∃ tokens, Spells (left.wrapped (decide (left.precedence < op.precedence) ||
        (op.isComparison && left.precedence == op.precedence)))
          (tokens.map (Token.worded words)) ∧
      Derives (.operand (leftLevel op) left') tokens := by
  obtain ⟨least, most⟩ := precedence_bounds op
  refine denotes.wrapped _ _ ?_ ?_ fun bare => ?_
  · unfold leftLevel
    split <;> omega
  · unfold leftLevel
    split <;> omega
  · simp only [Bool.or_eq_false_iff, decide_eq_false_iff_not] at bare
    unfold leftLevel
    split
    · rename_i compares
      have other : left.precedence ≠ op.precedence := by simpa [compares] using bare.2
      omega
    · exact Nat.le_of_not_lt bare.1

theorem Denotes.rightOperand (denotes : right.Denotes words right') (op : Operator) :
    ∃ tokens, Spells (right.wrapped (decide (right.precedence ≤ op.precedence)))
        (tokens.map (Token.worded words)) ∧
      Derives (.operand (op.precedence + 1) right') tokens := by
  obtain ⟨least, most⟩ := precedence_bounds op
  exact denotes.wrapped _ _ (Nat.le_succ_of_le least) most fun bare =>
    Nat.lt_of_not_le (of_decide_eq_false bare)

theorem denotes_binary {op : Operator} (written : op ≠ .index) (left'' : left.Denotes words left')
    (right'' : right.Denotes words right') :
    (binary op left right).Denotes words (.ofOperator left' op right') := by
  obtain ⟨least, most⟩ := precedence_bounds op
  obtain ⟨first, spellsLeft, derivesLeft⟩ := left''.leftOperand op
  obtain ⟨second, spellsRight, derivesRight⟩ := right''.rightOperand op
  have derives := derives_operator written derivesLeft derivesRight
  have notWeak : ¬ op.precedence ≤ Operator.pipelinePrecedence :=
    Nat.not_le_of_lt (Nat.lt_of_lt_of_le (by decide) least)
  rw [binary, if_neg written]
  refine ⟨Nat.le_of_lt most, _, ?_, by rwa [Phrase.ofStrength, if_neg notWeak]⟩
  intro rest more apart next
  simpa using spellsLeft _ _ rfl (tokenizes_operator written (spellsRight _ _ apart next))

theorem Denotes.accessed (denotes : on.Denotes words on') : ∃ tokens,
    Spells (on.wrapped (decide (on.precedence < Operator.postfixPrecedence)))
      (tokens.map (Token.worded words)) ∧
    Derives (.operand Operator.postfixPrecedence on') tokens :=
  denotes.wrapped _ _ (by decide) (by decide) fun bare => by simpa using bare

theorem denotes_index (left'' : left.Denotes words left') (right'' : right.Denotes words right') :
    (binary .index left right).Denotes words (.ofOperator left' .index right') := by
  obtain ⟨first, spellsLeft, derivesLeft⟩ := left''.accessed
  obtain ⟨second, spellsRight, derivesRight⟩ := right''.expression
  have text : (binary .index left right).text =
      left.wrapped (decide (left.precedence < Operator.postfixPrecedence)) ++
        '[' :: (right.text ++ [']']) := rfl
  refine ⟨Nat.le_succ _, _, ?_,
    derivesLeft.postfix_append (.accessesIndex derivesRight .accessesNil)⟩
  intro rest more _ next
  have close := tokenizes_symbol (c := ']') rfl (Or.inr rfl) next
  have index := tokenizes_symbol (c := '[') rfl (Or.inr rfl) (spellsRight _ _ rfl close)
  rw [text]
  simpa using spellsLeft _ _ rfl index

theorem apart_point {key : String} (isKey : isIdentifier key = true) (rest : List Char) :
    Apart ('.' :: (key.toList ++ rest)) = true := by
  obtain ⟨c, cs, text, starts, _⟩ := exists_of_isIdentifier isKey
  simp [text, Apart, isDigit_eq_false starts]

theorem denotes_lookup (on'' : on.Denotes words on') {key : String} (isKey : isIdentifier key = true) :
    (lookup on key).Denotes words (.lookup on' key) := by
  obtain ⟨first, spells, derives⟩ := on''.accessed
  have text : (lookup on key).text =
      on.wrapped (decide (on.precedence < Operator.postfixPrecedence)) ++ '.' :: key.toList := rfl
  refine ⟨Nat.le_succ _, _, ?_,
    derives.postfix_append (.accessesLookup (key?_wordToken key) .accessesNil)⟩
  intro rest more apart next
  have point := tokenizes_symbol (c := '.') rfl (Or.inr rfl) (spells_word isKey _ _ apart next)
  rw [text]
  simpa using spells _ _ (apart_point isKey rest) point

theorem closed_values {fragments : List Fragment} {exprs : List Expr}
    (denote : List.Forall₂ (Denotes words) fragments exprs) :
    ∃ tokens, Closed (commas (fragments.map (·.text)) ++ [']'])
        (tokens.map (Token.worded words)) ∧
      Derives (.values exprs) tokens := by
  induction denote with
  | nil => exact ⟨[.rightBracket], closed_symbol rfl rfl, .valuesNil⟩
  | @cons fragment expr fragments exprs denotes others ih =>
    obtain ⟨first, spells, derives⟩ := denotes.expression
    cases others with
    | nil =>
      refine ⟨_, ?_, .valuesLast derives⟩
      intro rest more next
      have close := tokenizes_symbol (c := ']') rfl (Or.inr rfl) next
      simpa [commas] using spells _ _ rfl close
    | cons =>
      obtain ⟨second, closed, derives'⟩ := ih
      refine ⟨_, ?_, .valuesCons derives derives'⟩
      intro rest more next
      have comma := closed_comma _ _ (closed _ _ next)
      simpa [commas] using spells _ _ rfl comma

/-- Whether an entry of a dictionary or an argument of a call is read as one. -/
def DenotesEntry (words : Words) (entry : String × Fragment) (entry' : String × Expr) : Prop :=
  entry.1 = entry'.1 ∧ isIdentifier entry.1 = true ∧ entry.2.Denotes words entry'.2

theorem DenotesEntry.spells {entry : String × Fragment} {entry' : String × Expr}
    (denotes : DenotesEntry words entry entry') : ∃ token tokens, token.key? = some entry'.1 ∧
      Spells (entry.1.toList ++ '=' :: entry.2.text)
        (token :: .assign :: tokens.map (Token.worded words)) ∧
      Derives (.expression entry'.2) tokens := by
  obtain ⟨key, value⟩ := entry
  obtain ⟨_, value'⟩ := entry'
  obtain ⟨rfl, isKey, denotes⟩ := denotes
  obtain ⟨tokens, spells, derives⟩ := denotes.expression
  refine ⟨_, _, key?_wordToken key, ?_, derives⟩
  intro rest more apart next
  have value := spells _ _ apart next
  obtain ⟨token, others, rfl, begins⟩ := derives.expression_begins
  obtain ⟨noEqual, noAssign⟩ := Token.worded_begins words begins
  have assign := tokenizes_assign noEqual noAssign value
  simpa using spells_word isKey _ _ rfl assign

theorem closed_entries {c : Char} {close : Token} (short : Scan.symbol? c = some close)
    (single : Scan.symbolWithEquals? c = none) (apart : ∀ rest, Apart (c :: rest) = true)
    (plain : close.worded words = close)
    {values : List (String × Fragment)} {values' : List (String × Expr)}
    (denote : List.Forall₂ (DenotesEntry words) values values') (sofar : Entries Expr) :
    ∃ tokens, Closed (entries values ++ [c]) (tokens.map (Token.worded words)) ∧
      Derives (.entries close sofar (sofar.insertAll values')) tokens := by
  induction denote generalizing sofar with
  | nil => exact ⟨[close], by simpa [entries, commas, plain] using closed_symbol short single, .entriesNil⟩
  | @cons entry entry' values values' denotes others ih =>
    obtain ⟨token, first, isKey, spells, derives⟩ := denotes.spells
    cases others with
    | nil =>
      refine ⟨_, ?_, .entriesLast isKey derives⟩
      intro rest more next
      have closes := tokenizes_symbol short (Or.inr single) next
      simpa [entries, commas, plain, Token.worded_key isKey] using spells _ _ (apart _) closes
    | cons =>
      obtain ⟨second, closed, derives'⟩ := ih (sofar.insert entry'.1 entry'.2)
      refine ⟨_, ?_, .entriesCons isKey derives derives'⟩
      intro rest more next
      have comma := closed_comma _ _ (closed _ _ next)
      simpa [entries, commas, Token.worded_key isKey] using spells _ _ rfl comma

theorem denotes_list {fragments : List Fragment} {exprs : List Expr}
    (denote : List.Forall₂ (Denotes words) fragments exprs) : (list fragments).Denotes words (.list exprs) := by
  obtain ⟨tokens, closed, derives⟩ := closed_values denote
  refine denotes_atom _ (fun rest more _ next => ?_) (.list derives)
  exact tokenizes_symbol rfl (Or.inr rfl) (closed _ _ next)

variable {values : List (String × Fragment)} {values' : List (String × Expr)}

theorem denotes_dict (denote : List.Forall₂ (DenotesEntry words) values values') :
    (dict values).Denotes words (.dict (Entries.ofList values')) := by
  obtain ⟨tokens, closed, derives⟩ := closed_entries (c := '\x7d') rfl rfl (fun _ => rfl) rfl denote []
  refine denotes_atom _ (fun rest more _ next => ?_) (.dict derives)
  exact tokenizes_symbol rfl (Or.inr rfl) (closed _ _ next)

theorem denotesCall_call (denote : List.Forall₂ (DenotesEntry words) values values')
    {space name : String} (isSpace : isIdentifier space = true)
    (isName : isIdentifier name = true) : DenotesCall words (call space name values)
      { operand := none, space, name, arguments := Entries.ofList values' } := by
  obtain ⟨tokens, closed, derives⟩ := closed_entries (c := ')') rfl rfl (fun _ => rfl) rfl denote []
  refine ⟨_, ?_, .call (key?_wordToken space) (key?_wordToken name) derives⟩
  intro rest more next
  have «open» := tokenizes_symbol (c := '(') rfl (Or.inr rfl) (closed _ _ next)
  have point := tokenizes_symbol (c := '.') rfl (Or.inr rfl) (spells_word isName _ _ rfl «open»)
  simpa [call] using spells_word isSpace _ _ (apart_point isName _) point

theorem closed_steps {texts : List (List Char)} {calls : List Call}
    (denote : List.Forall₂ (DenotesCall words) texts calls) : ∃ tokens,
      Closed (texts.flatMap fun step => ' ' :: '|' :: ' ' :: step)
        (tokens.map (Token.worded words)) ∧
      Derives (.steps calls) tokens := by
  induction denote with
  | nil => exact ⟨[], fun _ _ next => next, .stepsNil⟩
  | cons denotes _ ih =>
    obtain ⟨first, closed, derives⟩ := denotes
    obtain ⟨second, closed', derives'⟩ := ih
    refine ⟨_, ?_, .stepsCons derives derives'⟩
    intro rest more next
    have step : Tokenizes (' ' :: _) _ := .blank rfl (closed _ _ (closed' _ _ next))
    have pipe := tokenizes_symbol (c := '|') rfl (Or.inr rfl) step
    simpa using Tokenizes.blank (c := ' ') rfl pipe

variable {base condition thenDo elseDo : Fragment} {base' condition' thenDo' elseDo' : Expr}

theorem denotes_pipeline (base'' : base.Denotes words base') {texts : List (List Char)}
    {calls : List Call} (denote : List.Forall₂ (DenotesCall words) texts calls) :
    (pipeline base texts).Denotes words (base'.piped calls) := by
  obtain ⟨first, spells, derives⟩ := base''.wrapped Operator.or.precedence
    (decide (base.precedence ≤ Operator.pipelinePrecedence)) (by decide) (by decide)
    fun bare => Nat.lt_of_not_le (of_decide_eq_false bare)
  obtain ⟨second, closed, derives'⟩ := closed_steps denote
  refine ⟨show Operator.pipelinePrecedence ≤ _ by decide, ?_⟩
  cases denote with
  | nil => exact ⟨first, by simpa [pipeline] using spells, .plain derives⟩
  | cons =>
    refine ⟨_, ?_, .pipeline derives derives'⟩
    intro rest more _ next
    have steps := closed _ _ next
    simpa [pipeline] using spells _ _ rfl steps

theorem denotes_conditional (condition'' : condition.Denotes words condition')
    (thenDo'' : thenDo.Denotes words thenDo') (elseDo'' : elseDo.Denotes words elseDo') :
    (conditional condition thenDo elseDo).Denotes words (.conditional condition' thenDo' elseDo') := by
  obtain ⟨first, spellsCondition, derivesCondition⟩ := condition''.expression
  obtain ⟨second, spellsThen, derivesThen⟩ := thenDo''.expression
  obtain ⟨third, spellsElse, derivesElse⟩ := elseDo''.expression
  refine ⟨show Operator.conditionalPrecedence ≤ _ by decide, _, ?_,
    .conditional derivesCondition derivesThen derivesElse⟩
  intro rest more apart next
  have elseText := spells_keyword .elseWord _ _ rfl
    (.blank (c := ' ') rfl (spellsElse _ _ apart next))
  have thenText := spells_keyword .thenWord _ _ rfl
    (.blank (c := ' ') rfl (spellsThen _ _ rfl (.blank (c := ' ') rfl elseText)))
  have ifText := spells_keyword .ifWord _ _ rfl
    (.blank (c := ' ') rfl (spellsCondition _ _ rfl (.blank (c := ' ') rfl thenText)))
  -- Lean is slow to make an equation for a definition with texts in it.
  have text : (conditional condition thenDo elseDo).text = "if ".toList ++ condition.text ++
      " then ".toList ++ thenDo.text ++ " else ".toList ++ elseDo.text := rfl
  simpa [text, Keyword.text] using ifText

theorem denotes_table {inner : Fragment} {inner' : Expr} (denotes : inner.Denotes words inner') :
    (table inner).Denotes words (.table inner') := by
  obtain ⟨tokens, spells, derives⟩ := denotes.expression
  refine denotes_atom _ (fun rest more _ next => ?_) (.table derives)
  have close := tokenizes_symbol (c := ')') rfl (Or.inr rfl) next
  have «open» := tokenizes_symbol (c := '(') rfl (Or.inr rfl) (spells _ _ rfl close)
  simpa [Keyword.text] using spells_keyword .tableWord _ _ rfl «open»

theorem denotes_reference {name : String} (isName : isIdentifier name = true) :
    (reference name).Denotes words (.reference name) :=
  denotes_atom [.reference name] (by simpa using spells_reference isName) (.reference name)

theorem denotes_placeholder : (atom ['@']).Denotes words .placeholder := by
  have closed : Closed ['@'] [.placeholder] := closed_symbol rfl rfl
  exact denotes_atom [.placeholder] (by simpa using closed.spells) .placeholder

theorem denotes_constant {constant : Constant} (finite : constant.isFinite = true) :
    (atom constant.text).Denotes noWords (.atom constant) :=
  denotes_atom _ (by simpa using constant.spells_text finite) constant.derives_tokens

end Fragment

theorem Fragment.denoteEntries_map {words : Words} {pairs : Entries NodeId}
    {value : NodeId → Fragment} {value' : NodeId → Expr}
    (isKey : ∀ key ∈ pairs.keys, isIdentifier key = true)
    (denote : ∀ id ∈ pairs.map (·.2), (value id).Denotes words (value' id)) :
    List.Forall₂ (DenotesEntry words) (pairs.map fun pair => (pair.1, value pair.2))
      (pairs.map fun pair => (pair.1, value' pair.2)) :=
  List.forall₂_map_map fun pair member => ⟨rfl, isKey pair.1 (List.mem_map_of_mem member),
    denote pair.2 (List.mem_map_of_mem member)⟩

open Fragment in
/-- The text of a node is read as the tree of the node, but for pipelines without steps, if this
holds of the operands and the number is known that a word stands for. -/
theorem Backend.text_agrees_trimmed {words : Words} {kind : NodeKind} (spelled : kind.Spelled)
    (known : ∀ constant, kind = .constant constant →
      (atom constant.text).Denotes words (.atom constant)) :
    Backend.text.Agree Backend.trimmed (Denotes words) (DenotesCall words) kind := by
  constructor
  · intro isValue value value' call call' values calls
    cases kind with
    | constant constant => exact known constant rfl
    | binary left op right =>
      have left' := values left (by simp [NodeKind.valueOperands, NodeKind.operands])
      have right' := values right (by simp [NodeKind.valueOperands, NodeKind.operands])
      by_cases written : op = .index
      · subst written
        exact denotes_index left' right'
      · exact denotes_binary written left' right'
    | lookup on key =>
      exact denotes_lookup (values on (by simp [NodeKind.valueOperands, NodeKind.operands]))
        (spelled.words key (by simp [NodeKind.words]))
    | list ids => exact denotes_list (List.forall₂_map_map values)
    | dict pairs => exact denotes_dict (denoteEntries_map spelled.words values)
    | table inner =>
      exact denotes_table (values inner (by simp [NodeKind.valueOperands, NodeKind.operands]))
    | «variable» name =>
      exact denotes_reference (isIdentifier_of_isName (spelled.names name rfl))
    | placeholder => exact denotes_placeholder
    | call => cases isValue
    | pipeline base steps =>
      exact denotes_pipeline (values base (by simp [NodeKind.valueOperands]))
        (List.forall₂_map_map calls)
    | conditional condition thenDo elseDo =>
      exact denotes_conditional
        (values condition (by simp [NodeKind.valueOperands, NodeKind.operands]))
        (values thenDo (by simp [NodeKind.valueOperands, NodeKind.operands]))
        (values elseDo (by simp [NodeKind.valueOperands, NodeKind.operands]))
  · intro isCall value value' values
    cases kind with
    | call space name arguments =>
      refine denotesCall_call (denoteEntries_map ?_ values) ?_ ?_
      · exact fun key member => spelled.words key (by simp [NodeKind.words, member])
      · exact spelled.words space (by simp [NodeKind.words])
      · exact spelled.words name (by simp [NodeKind.words])
    | _ => cases isCall

/-- Whether a node can be spelled: a pipeline has a step, and a number is finite. -/
def NodeKind.isPrintable : NodeKind → Bool
  | .constant value => value.isFinite
  | .pipeline _ steps => !steps.isEmpty
  | _ => true

theorem Backend.trimmed_valueOf {kind : NodeKind} (steps : ∀ base, kind ≠ .pipeline base [])
    (value : NodeId → Expr) (call : NodeId → Call) :
    Backend.trimmed.valueOf value call kind = Backend.tree.valueOf value call kind := by
  cases kind with
  | pipeline base ids =>
    cases ids with
    | nil => exact absurd rfl (steps base)
    | cons => rfl
  | _ => rfl

theorem Backend.text_agrees_tree {kind : NodeKind} (spelled : kind.Spelled)
    (printable : kind.isPrintable = true) : Backend.text.Agree Backend.tree
      (Fragment.Denotes noWords) (Fragment.DenotesCall noWords) kind := by
  have agree : Backend.text.Agree Backend.trimmed (Fragment.Denotes noWords)
      (Fragment.DenotesCall noWords) kind :=
    text_agrees_trimmed spelled fun constant same =>
      Fragment.denotes_constant (by rwa [same] at printable)
  have steps : ∀ base, kind ≠ .pipeline base [] := by
    rintro base rfl
    cases printable
  refine ⟨fun isValue value value' call call' values calls => ?_, agree.call⟩
  rw [← trimmed_valueOf steps]
  exact agree.value isValue value value' call call' values calls

end QueryGraph
