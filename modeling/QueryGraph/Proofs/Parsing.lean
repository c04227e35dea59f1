import QueryGraph.Proofs.Grammar
import QueryGraph.Proofs.Outcome

namespace QueryGraph

open QueryGraph.Parser

/-- Whether a cursor is at some tokens, behind which another one stands. -/
inductive Parser.Cursor.Reads : Cursor → List Token → Cursor → Prop where
  | nil (c : Cursor) : Reads c [] c
  | cons {c next c' : Cursor} {tokens : List Token} (advances : c.advance = .ok next)
      (rest : Reads next tokens c') : Reads c (c.token :: tokens) c'

namespace Parser.Cursor

variable {c c' : Cursor} {token : Token} {tokens first second : List Token}

theorem reads_nil : c.Reads [] c' ↔ c = c' := by
  constructor
  · intro reads
    cases reads
    rfl
  · rintro rfl
    exact .nil c

theorem reads_cons : c.Reads (token :: tokens) c' ↔
    c.token = token ∧ ∃ next, c.advance = .ok next ∧ next.Reads tokens c' := by
  constructor
  · intro reads
    cases reads with
    | cons advances rest => exact ⟨rfl, _, advances, rest⟩
  · rintro ⟨rfl, next, advances, rest⟩
    exact .cons advances rest

theorem reads_append :
    c.Reads (first ++ second) c' ↔ ∃ middle, c.Reads first middle ∧ middle.Reads second c' := by
  induction first generalizing c with
  | nil => simp [reads_nil]
  | cons token rest ih =>
    simp only [List.cons_append, reads_cons, ih]
    constructor
    · rintro ⟨same, next, advances, middle, reads, reads'⟩
      exact ⟨middle, ⟨same, next, advances, reads⟩, reads'⟩
    · rintro ⟨middle, ⟨same, next, advances, reads⟩, reads'⟩
      exact ⟨same, next, advances, middle, reads, reads'⟩

theorem consume_eq {next : Cursor} (advances : c.advance = .ok next) : c.consume = .ok next := by
  unfold consume
  unfold advance at advances ⊢
  cases rest : c.rest <;> simp_all

theorem expect_eq {next : Cursor} {description : String} (ahead : c.token = token)
    (advances : c.advance = .ok next) : c.expect token description = .ok next := by
  rw [expect, if_pos ahead, advances]

end Parser.Cursor

/-- Whether no operator outside brackets that a token begins binds as strongly as a level says. -/
def Token.Stops (level : Nat) (token : Token) : Prop :=
  (∀ op, token = .operator op → op.precedence < level) ∧
    (level ≤ Operator.postfixPrecedence → token ≠ .dot ∧ token ≠ .leftBracket)

/-- Whether no expression goes on with a token. -/
def Token.Ends (token : Token) : Prop :=
  token.Stops Operator.or.precedence ∧ token ≠ .pipe

namespace Parser

/-- The parser of one level of operators. -/
def operandAt (inner : Parser Expr) (rounds : Nat) (level : Nat) : Parser Expr :=
  let product := chain Operator.multiply.precedence (access inner rounds) rounds
  let sum := chain Operator.add.precedence product rounds
  let conjunction := chain Operator.and.precedence (comparison sum) rounds
  match level with
  | 9 => primary inner rounds
  | 8 => access inner rounds
  | 7 => product
  | 6 => sum
  | 5 => comparison sum
  | 4 => conjunction
  | _ => chain Operator.or.precedence conjunction rounds

theorem operandAt_chain {inner : Parser Expr} {rounds level : Nat}
    (chains : level ∈ chainLevels) : operandAt inner rounds level =
      chain level (operandAt inner rounds (level + 1)) rounds := by
  simp only [chainLevels, List.mem_cons, List.not_mem_nil, or_false] at chains
  rcases chains with rfl | rfl | rfl | rfl <;> rfl

theorem operation_eq (inner : Parser Expr) (rounds : Nat) :
    operation inner rounds = operandAt inner rounds Operator.or.precedence :=
  rfl

/-- Whether the parser of a phrase reads some tokens as that phrase, wherever they are, within a
depth that is not less than their number. -/
def Parses (phrase : Phrase) (tokens : List Token) : Prop :=
  ∀ (depth : Nat) (c c' : Cursor), tokens.length ≤ depth → c.Reads tokens c' →
    match phrase with
    | .expression expr => c'.token.Ends → expressionAt (depth + 1) c = .ok (expr, c')
    | .operand level expr => c'.token.Stops level →
      operandAt (expressionAt depth) (depth + 1) level c = .ok (expr, c')
    | .links level left expr => c'.token.Stops level → ∀ rounds, tokens.length < rounds →
      links level (operandAt (expressionAt depth) (depth + 1) (level + 1)) rounds left c =
        .ok (expr, c')
    | .accesses on expr => c'.token.Stops Operator.postfixPrecedence →
      ∀ rounds, tokens.length < rounds →
        accesses (expressionAt depth) rounds on c = .ok (expr, c')
    | .steps calls => c'.token ≠ .pipe → ∀ rounds sofar, tokens.length < rounds →
      steps (call (expressionAt depth) (depth + 1)) rounds sofar c =
        .ok (sofar.reverse ++ calls, c')
    | .call step => call (expressionAt depth) (depth + 1) c = .ok (step, c')
    | .values items => ∀ rounds sofar, tokens.length < rounds →
      values (expressionAt depth) rounds sofar c = .ok (sofar.reverse ++ items, c')
    | .entries close sofar result => (close = .rightParen ∨ close = .rightBrace) →
      ∀ rounds expected, tokens.length < rounds →
        entries (expressionAt depth) close expected rounds sofar c = .ok (result, c')

variable {c c' : Cursor} {token : Token} {first second tokens : List Token}

theorem Parses.inner {expr : Expr} (parses : Parses (.expression expr) tokens) (depth : Nat)
    (less : tokens.length < depth) (reads : c.Reads tokens c') (ends : c'.token.Ends) :
    expressionAt depth c = .ok (expr, c') := by
  cases depth with
  | zero => cases less
  | succ depth => exact parses depth c c' (Nat.le_of_lt_succ less) reads ends

theorem key_eq {name : String} {next : Cursor} (isKey : c.token.key? = some name)
    (advances : c.advance = .ok next) : key c = .ok (name, next) := by
  simp [key, isKey, advances]

theorem ends_of {token : Token}
    (h : token ∈ [.rightParen, .rightBracket, .rightBrace, .comma, .semicolon, .endOfInput,
      .keyword .thenWord, .keyword .elseWord]) : token.Ends := by
  simp only [List.mem_cons, List.not_mem_nil, or_false] at h
  rcases h with rfl | rfl | rfl | rfl | rfl | rfl | rfl | rfl <;>
    simp [Token.Ends, Token.Stops]

theorem parses_conditional {condition thenDo elseDo : Expr} {first second third : List Token}
    (condition' : Parses (.expression condition) first)
    (thenDo' : Parses (.expression thenDo) second)
    (elseDo' : Parses (.expression elseDo) third) :
    Parses (.expression (.conditional condition thenDo elseDo))
      (.keyword .ifWord :: (first ++ .keyword .thenWord ::
        (second ++ .keyword .elseWord :: third))) := by
  intro depth c c' bound reads ends
  simp only [List.length_cons, List.length_append] at bound
  obtain ⟨isIf, c₁, advances, reads⟩ := Cursor.reads_cons.1 reads
  obtain ⟨c₂, readsFirst, reads⟩ := Cursor.reads_append.1 reads
  obtain ⟨isThen, c₃, advances', reads⟩ := Cursor.reads_cons.1 reads
  obtain ⟨c₄, readsSecond, reads⟩ := Cursor.reads_append.1 reads
  obtain ⟨isElse, c₅, advances'', readsThird⟩ := Cursor.reads_cons.1 reads
  have first' := condition'.inner depth (by omega) readsFirst (ends_of (by simp [isThen]))
  have second' := thenDo'.inner depth (by omega) readsSecond (ends_of (by simp [isElse]))
  have third' := elseDo'.inner depth (by omega) readsThird ends
  simp [expressionAt, expressionWith, isIf, advances, first', Cursor.expect_eq isThen advances',
    second', Cursor.expect_eq isElse advances'', third']

theorem parses_plain {expr : Expr} (derives : Derives (.operand Operator.or.precedence expr) tokens)
    (base : Parses (.operand Operator.or.precedence expr) tokens) :
    Parses (.expression expr) tokens := by
  intro depth c c' bound reads ends
  have noIf : c.token ≠ .keyword .ifWord := by
    obtain ⟨token, rest, rfl, begins⟩ := derives.operand_begins
    rw [(Cursor.reads_cons.1 reads).1]
    rintro rfl
    cases begins
  have base' := base depth c c' bound reads ends.1
  simp [expressionAt, expressionWith, noIf, operation_eq, base', steps, ends.2]

theorem parses_pipeline {base : Expr} {step : Call} {calls : List Call}
    (derives : Derives (.operand Operator.or.precedence base) first)
    (base' : Parses (.operand Operator.or.precedence base) first)
    (stepsDerive : Derives (.steps (step :: calls)) second)
    (steps' : Parses (.steps (step :: calls)) second) :
    Parses (.expression (.pipeline base (step :: calls))) (first ++ second) := by
  intro depth c c' bound reads ends
  rw [List.length_append] at bound
  obtain ⟨middle, readsFirst, readsSecond⟩ := Cursor.reads_append.1 reads
  have noIf : c.token ≠ .keyword .ifWord := by
    obtain ⟨token, rest, rfl, begins⟩ := derives.operand_begins
    rw [(Cursor.reads_cons.1 readsFirst).1]
    rintro rfl
    cases begins
  have isPipe : middle.token = .pipe := by
    cases stepsDerive
    exact (Cursor.reads_cons.1 readsSecond).1
  have stops : middle.token.Stops Operator.or.precedence := by
    simp [isPipe, Token.Stops]
  have first' := base' depth c middle (by omega) readsFirst stops
  have second' := steps' depth middle c' (by omega) readsSecond ends.2 (depth + 1) []
    (by omega)
  simp [expressionAt, expressionWith, noIf, operation_eq, first', second']

theorem parses_stepsCons {step : Call} {calls : List Call} (step' : Parses (.call step) first)
    (rest : Parses (.steps calls) second) :
    Parses (.steps (step :: calls)) (.pipe :: (first ++ second)) := by
  intro depth c c' bound reads ends rounds sofar enough
  simp only [List.length_cons, List.length_append] at bound enough
  obtain ⟨isPipe, c₁, advances, reads⟩ := Cursor.reads_cons.1 reads
  obtain ⟨c₂, readsFirst, readsSecond⟩ := Cursor.reads_append.1 reads
  have first' := step' depth c₁ c₂ (by omega) readsFirst
  cases rounds with
  | zero => cases enough
  | succ rounds =>
    have second' := rest depth c₂ c' (by omega) readsSecond ends rounds (step :: sofar) (by omega)
    simpa [steps, isPipe, advances, first'] using second'

theorem parses_call {space name : String} {spaceToken nameToken : Token}
    {arguments : Entries Expr} (spaceKey : spaceToken.key? = some space)
    (nameKey : nameToken.key? = some name)
    (entries' : Parses (.entries .rightParen [] arguments) tokens) :
    Parses (.call { operand := none, space, name, arguments })
      (spaceToken :: .dot :: nameToken :: .leftParen :: tokens) := by
  intro depth c c' bound reads
  simp only [List.length_cons] at bound
  obtain ⟨rfl, c₁, advances₁, reads⟩ := Cursor.reads_cons.1 reads
  obtain ⟨isDot, c₂, advances₂, reads⟩ := Cursor.reads_cons.1 reads
  obtain ⟨rfl, c₃, advances₃, reads⟩ := Cursor.reads_cons.1 reads
  obtain ⟨isParen, c₄, advances₄, reads⟩ := Cursor.reads_cons.1 reads
  have arguments' := entries' depth c₄ c' (by omega) reads (Or.inl rfl) (depth + 1) "')'"
    (by omega)
  simp [call, key_eq spaceKey advances₁, Cursor.expect_eq isDot advances₂,
    key_eq nameKey advances₃, Cursor.expect_eq isParen advances₄, arguments']

theorem parses_entriesNil {close : Token} {sofar : Entries Expr} :
    Parses (.entries close sofar sofar) [close] := by
  intro depth c c' _ reads isClose rounds expected enough
  obtain ⟨ahead, c₁, advances, reads⟩ := Cursor.reads_cons.1 reads
  cases Cursor.reads_nil.1 reads
  cases rounds with
  | zero => cases enough
  | succ rounds => simp [entries, ahead, advances]

theorem key_ne_close {close : Token} (isClose : close = .rightParen ∨ close = .rightBrace)
    {key : String} (isKey : token.key? = some key) : token ≠ close := by
  rintro rfl
  rcases isClose with rfl | rfl <;> simp [Token.key?, Token.word?] at isKey

theorem parses_entriesLast {close token : Token} {sofar : Entries Expr} {name : String}
    {value : Expr} (isKey : token.key? = some name) (value' : Parses (.expression value) tokens) :
    Parses (.entries close sofar (sofar.insert name value))
      (token :: .assign :: (tokens ++ [close])) := by
  intro depth c c' bound reads isClose rounds expected enough
  simp only [List.length_cons, List.length_append] at bound enough
  have noClose := key_ne_close isClose isKey
  have noComma : close ≠ .comma := by
    rintro rfl
    simp at isClose
  obtain ⟨rfl, c₁, advances₁, reads⟩ := Cursor.reads_cons.1 reads
  obtain ⟨isAssign, c₂, advances₂, reads⟩ := Cursor.reads_cons.1 reads
  obtain ⟨c₃, readsValue, reads⟩ := Cursor.reads_append.1 reads
  obtain ⟨ahead, c₄, advances₃, reads⟩ := Cursor.reads_cons.1 reads
  cases Cursor.reads_nil.1 reads
  have value'' := value'.inner depth (by omega) readsValue
    (ends_of (by rcases isClose with rfl | rfl <;> simp [ahead]))
  cases rounds with
  | zero => cases enough
  | succ rounds =>
    simp [entries, noClose, key_eq isKey advances₁, Cursor.expect_eq isAssign advances₂, value'',
      ahead, noComma, advances₃]

theorem parses_entriesCons {close token : Token} {sofar result : Entries Expr} {name : String}
    {value : Expr} (isKey : token.key? = some name) (value' : Parses (.expression value) first)
    (rest : Parses (.entries close (sofar.insert name value) result) second) :
    Parses (.entries close sofar result) (token :: .assign :: (first ++ .comma :: second)) := by
  intro depth c c' bound reads isClose rounds expected enough
  simp only [List.length_cons, List.length_append] at bound enough
  have noClose := key_ne_close isClose isKey
  obtain ⟨rfl, c₁, advances₁, reads⟩ := Cursor.reads_cons.1 reads
  obtain ⟨isAssign, c₂, advances₂, reads⟩ := Cursor.reads_cons.1 reads
  obtain ⟨c₃, readsValue, reads⟩ := Cursor.reads_append.1 reads
  obtain ⟨isComma, c₄, advances₃, reads⟩ := Cursor.reads_cons.1 reads
  have value'' := value'.inner depth (by omega) readsValue (ends_of (by simp [isComma]))
  cases rounds with
  | zero => cases enough
  | succ rounds =>
    have rest' := rest depth c₄ c' (by omega) reads isClose rounds expected (by omega)
    simpa [entries, noClose, key_eq isKey advances₁, Cursor.expect_eq isAssign advances₂, value'',
      isComma, advances₃] using rest'

theorem parses_valuesNil : Parses (.values []) [.rightBracket] := by
  intro depth c c' _ reads rounds sofar enough
  obtain ⟨ahead, c₁, advances, reads⟩ := Cursor.reads_cons.1 reads
  cases Cursor.reads_nil.1 reads
  cases rounds with
  | zero => cases enough
  | succ rounds => simp [values, ahead, advances]

theorem expression_ne_close {expr : Expr} (derives : Derives (.expression expr) tokens)
    (reads : c.Reads tokens c') : c.token ≠ .rightBracket := by
  obtain ⟨token, rest, rfl, begins⟩ := derives.expression_begins
  rw [(Cursor.reads_cons.1 reads).1]
  rintro rfl
  rcases begins with begins | begins <;> cases begins

theorem parses_valuesLast {value : Expr} (derives : Derives (.expression value) tokens)
    (value' : Parses (.expression value) tokens) :
    Parses (.values [value]) (tokens ++ [.rightBracket]) := by
  intro depth c c' bound reads rounds sofar enough
  simp only [List.length_cons, List.length_append] at bound enough
  obtain ⟨c₁, readsValue, reads⟩ := Cursor.reads_append.1 reads
  obtain ⟨ahead, c₂, advances, reads⟩ := Cursor.reads_cons.1 reads
  cases Cursor.reads_nil.1 reads
  have noClose := expression_ne_close derives readsValue
  have value'' := value'.inner depth (by omega) readsValue (ends_of (by simp [ahead]))
  cases rounds with
  | zero => cases enough
  | succ rounds => simp [values, noClose, value'', ahead, advances]

theorem parses_valuesCons {value : Expr} {items : List Expr}
    (derives : Derives (.expression value) first) (value' : Parses (.expression value) first)
    (rest : Parses (.values items) second) :
    Parses (.values (value :: items)) (first ++ .comma :: second) := by
  intro depth c c' bound reads rounds sofar enough
  simp only [List.length_cons, List.length_append] at bound enough
  obtain ⟨c₁, readsValue, reads⟩ := Cursor.reads_append.1 reads
  obtain ⟨ahead, c₂, advances, reads⟩ := Cursor.reads_cons.1 reads
  have noClose := expression_ne_close derives readsValue
  have value'' := value'.inner depth (by omega) readsValue (ends_of (by simp [ahead]))
  cases rounds with
  | zero => cases enough
  | succ rounds =>
    have rest' := rest depth c₂ c' (by omega) reads rounds (value :: sofar) (by omega)
    simpa [values, noClose, value'', ahead, advances] using rest'

theorem stops_succ {level : Nat} {token : Token} (stops : token.Stops level) :
    token.Stops (level + 1) :=
  ⟨fun op isOp => Nat.lt_succ_of_lt (stops.1 op isOp),
    fun atMost => stops.2 (Nat.le_of_succ_le atMost)⟩

theorem stops_operator {op : Operator} {level : Nat} (binds : op.precedence < level) :
    (Token.operator op).Stops level := by
  refine ⟨?_, fun _ => ⟨nofun, nofun⟩⟩
  intro other same
  cases same
  exact binds

theorem stops_atom (token : Token) : token.Stops Operator.atomPrecedence := by
  refine ⟨?_, ?_⟩
  · intro op _
    cases op <;> decide
  · intro atMost
    exact absurd atMost (by decide)

theorem operatorAt_stop {level : Nat} {token : Token} (stops : token.Stops level) :
    operatorAt level token = none := by
  cases token with
  | operator op => simp [operatorAt, Nat.ne_of_lt (stops.1 op rfl)]
  | _ => rfl

theorem stops_of_links {level : Nat} {left expr : Expr}
    (derives : Derives (.links level left expr) tokens) (reads : c.Reads tokens c')
    (stops : c'.token.Stops level) : c.token.Stops (level + 1) := by
  cases derives with
  | linksNil =>
    cases Cursor.reads_nil.1 reads
    exact stops_succ stops
  | linksCons binds _ _ =>
    rw [(Cursor.reads_cons.1 reads).1]
    exact stops_operator (by omega)

theorem parses_chain {level : Nat} {left expr : Expr} (chains : level ∈ chainLevels)
    (left' : Parses (.operand (level + 1) left) first)
    (derives : Derives (.links level left expr) second)
    (rest : Parses (.links level left expr) second) :
    Parses (.operand level expr) (first ++ second) := by
  intro depth c c' bound reads stops
  rw [List.length_append] at bound
  obtain ⟨middle, readsFirst, readsSecond⟩ := Cursor.reads_append.1 reads
  have first' := left' depth c middle (by omega) readsFirst
    (stops_of_links derives readsSecond stops)
  have second' := rest depth middle c' (by omega) readsSecond stops (depth + 1) (by omega)
  simp [operandAt_chain chains, chain, first', second']

theorem parses_linksNil {level : Nat} {left : Expr} : Parses (.links level left left) [] := by
  intro depth c c' _ reads stops rounds enough
  cases Cursor.reads_nil.1 reads
  cases rounds with
  | zero => cases enough
  | succ rounds => simp [links, operatorAt_stop stops]

theorem parses_linksCons {level : Nat} {left right expr : Expr} {op : Operator}
    (binds : op.precedence = level) (right' : Parses (.operand (level + 1) right) first)
    (derives : Derives (.links level (.ofOperator left op right) expr) second)
    (rest : Parses (.links level (.ofOperator left op right) expr) second) :
    Parses (.links level left expr) (.operator op :: (first ++ second)) := by
  intro depth c c' bound reads stops rounds enough
  simp only [List.length_cons, List.length_append] at bound enough
  obtain ⟨isOperator, c₁, advances, reads⟩ := Cursor.reads_cons.1 reads
  obtain ⟨c₂, readsFirst, readsSecond⟩ := Cursor.reads_append.1 reads
  have first' := right' depth c₁ c₂ (by omega) readsFirst
    (stops_of_links derives readsSecond stops)
  cases rounds with
  | zero => cases enough
  | succ rounds =>
    have second' := rest depth c₂ c' (by omega) readsSecond stops rounds (by omega)
    simp [links, isOperator, operatorAt, binds, advances, first', second']

theorem parses_single {expr : Expr}
    (operand : Parses (.operand Operator.add.precedence expr) tokens) :
    Parses (.operand Operator.equal.precedence expr) tokens := by
  intro depth c c' bound reads stops
  have operand' := operand depth c c' bound reads (stops_succ stops)
  show comparison (operandAt _ _ Operator.add.precedence) c = _
  simp [comparison, operand', operatorAt_stop stops]

theorem parses_comparison {left right : Expr} {op : Operator} (compares : op.isComparison = true)
    (left' : Parses (.operand Operator.add.precedence left) first)
    (right' : Parses (.operand Operator.add.precedence right) second) :
    Parses (.operand Operator.equal.precedence (.ofOperator left op right))
      (first ++ .operator op :: second) := by
  intro depth c c' bound reads stops
  simp only [List.length_append, List.length_cons] at bound
  have binds : op.precedence = Operator.equal.precedence := by
    simpa [Operator.isComparison] using compares
  obtain ⟨c₁, readsFirst, reads⟩ := Cursor.reads_append.1 reads
  obtain ⟨isOperator, c₂, advances, readsSecond⟩ := Cursor.reads_cons.1 reads
  have less : op.precedence < Operator.add.precedence := by
    rw [binds]
    decide
  have first' := left' depth c c₁ (by omega) readsFirst (isOperator ▸ stops_operator less)
  have second' := right' depth c₂ c' (by omega) readsSecond (stops_succ stops)
  show comparison (operandAt _ _ Operator.add.precedence) c = _
  simp [comparison, first', isOperator, operatorAt, binds, advances, second']

theorem parses_access {on expr : Expr}
    (on' : Parses (.operand Operator.atomPrecedence on) first)
    (rest : Parses (.accesses on expr) second) :
    Parses (.operand Operator.postfixPrecedence expr) (first ++ second) := by
  intro depth c c' bound reads stops
  rw [List.length_append] at bound
  obtain ⟨middle, readsFirst, readsSecond⟩ := Cursor.reads_append.1 reads
  have first' := on' depth c middle (by omega) readsFirst (stops_atom _)
  have second' := rest depth middle c' (by omega) readsSecond stops (depth + 1) (by omega)
  show access _ _ c = _
  have primary' : primary (expressionAt depth) (depth + 1) c = .ok (on, middle) := first'
  simp [access, primary', second']

theorem parses_accessesNil {on : Expr} : Parses (.accesses on on) [] := by
  intro depth c c' _ reads stops rounds enough
  cases Cursor.reads_nil.1 reads
  obtain ⟨noDot, noBracket⟩ := stops.2 (Nat.le_refl _)
  cases rounds with
  | zero => cases enough
  | succ rounds =>
    unfold accesses
    split
    · contradiction
    · contradiction
    · rfl

theorem parses_accessesLookup {on expr : Expr} {name : String} (isKey : token.key? = some name)
    (rest : Parses (.accesses (.lookup on name) expr) tokens) :
    Parses (.accesses on expr) (.dot :: token :: tokens) := by
  intro depth c c' bound reads stops rounds enough
  simp only [List.length_cons] at bound enough
  obtain ⟨isDot, c₁, advances, reads⟩ := Cursor.reads_cons.1 reads
  obtain ⟨rfl, c₂, advances', reads⟩ := Cursor.reads_cons.1 reads
  cases rounds with
  | zero => cases enough
  | succ rounds =>
    have rest' := rest depth c₂ c' (by omega) reads stops rounds (by omega)
    simp [accesses, isDot, advances, key_eq isKey advances', rest']

theorem parses_accessesIndex {on index expr : Expr} (index' : Parses (.expression index) first)
    (rest : Parses (.accesses (.ofOperator on .index index) expr) second) :
    Parses (.accesses on expr) (.leftBracket :: (first ++ .rightBracket :: second)) := by
  intro depth c c' bound reads stops rounds enough
  simp only [List.length_cons, List.length_append] at bound enough
  obtain ⟨isOpen, c₁, advances, reads⟩ := Cursor.reads_cons.1 reads
  obtain ⟨c₂, readsIndex, reads⟩ := Cursor.reads_append.1 reads
  obtain ⟨isClose, c₃, advances', reads⟩ := Cursor.reads_cons.1 reads
  have index'' := index'.inner depth (by omega) readsIndex (ends_of (by simp [isClose]))
  cases rounds with
  | zero => cases enough
  | succ rounds =>
    have rest' := rest depth c₃ c' (by omega) reads stops rounds (by omega)
    simp [accesses, isOpen, advances, index'', Cursor.expect_eq isClose advances', rest']

theorem parses_atom {expr : Expr}
    (h : ∀ inner rounds c next, c.token = token → c.consume = .ok next →
      primary inner rounds c = .ok (expr, next)) :
    Parses (.operand Operator.atomPrecedence expr) [token] := by
  intro depth c c' _ reads _
  obtain ⟨ahead, next, advances, reads⟩ := Cursor.reads_cons.1 reads
  cases Cursor.reads_nil.1 reads
  exact h _ _ c c' ahead (Cursor.consume_eq advances)

theorem parses_negative {expr : Expr}
    (h : ∀ start c next, c.token = token → c.advance = .ok next →
      negative start c = .ok (expr, next)) :
    Parses (.operand Operator.atomPrecedence expr) [.operator .subtract, token] := by
  intro depth c c' _ reads _
  obtain ⟨isMinus, c₁, advances, reads⟩ := Cursor.reads_cons.1 reads
  obtain ⟨ahead, c₂, advances', reads⟩ := Cursor.reads_cons.1 reads
  cases Cursor.reads_nil.1 reads
  show primary _ _ c = _
  simp [primary, isMinus, Cursor.consume_eq advances, h _ c₁ c' ahead advances']

theorem parses_parens {expr : Expr} (inner : Parses (.expression expr) tokens) :
    Parses (.operand Operator.atomPrecedence expr)
      (.leftParen :: (tokens ++ [.rightParen])) := by
  intro depth c c' bound reads _
  simp only [List.length_cons, List.length_append] at bound
  obtain ⟨isOpen, c₁, advances, reads⟩ := Cursor.reads_cons.1 reads
  obtain ⟨c₂, readsInner, reads⟩ := Cursor.reads_append.1 reads
  obtain ⟨isClose, c₃, advances', reads⟩ := Cursor.reads_cons.1 reads
  cases Cursor.reads_nil.1 reads
  have inner' := inner.inner depth (by omega) readsInner (ends_of (by simp [isClose]))
  show primary _ _ c = _
  simp [primary, isOpen, Cursor.consume_eq advances, inner', Cursor.expect_eq isClose advances']

theorem parses_list {items : List Expr} (values' : Parses (.values items) tokens) :
    Parses (.operand Operator.atomPrecedence (.list items)) (.leftBracket :: tokens) := by
  intro depth c c' bound reads _
  rw [List.length_cons] at bound
  obtain ⟨isOpen, c₁, advances, reads⟩ := Cursor.reads_cons.1 reads
  have items' := values' depth c₁ c' (by omega) reads (depth + 1) [] (by omega)
  show primary _ _ c = _
  simp [primary, isOpen, Cursor.consume_eq advances, items']

theorem parses_dict {result : Entries Expr}
    (entries' : Parses (.entries .rightBrace [] result) tokens) :
    Parses (.operand Operator.atomPrecedence (.dict result)) (.leftBrace :: tokens) := by
  intro depth c c' bound reads _
  rw [List.length_cons] at bound
  obtain ⟨isOpen, c₁, advances, reads⟩ := Cursor.reads_cons.1 reads
  have items' := entries' depth c₁ c' (by omega) reads (Or.inr rfl) (depth + 1) "',' or '\x7d'"
    (by omega)
  show primary _ _ c = _
  simp [primary, isOpen, Cursor.consume_eq advances, items']

theorem parses_table {expr : Expr} (inner : Parses (.expression expr) tokens) :
    Parses (.operand Operator.atomPrecedence (.table expr))
      (.keyword .tableWord :: .leftParen :: (tokens ++ [.rightParen])) := by
  intro depth c c' bound reads _
  simp only [List.length_cons, List.length_append] at bound
  obtain ⟨isTable, c₁, advances₁, reads⟩ := Cursor.reads_cons.1 reads
  obtain ⟨isOpen, c₂, advances₂, reads⟩ := Cursor.reads_cons.1 reads
  obtain ⟨c₃, readsInner, reads⟩ := Cursor.reads_append.1 reads
  obtain ⟨isClose, c₄, advances₃, reads⟩ := Cursor.reads_cons.1 reads
  cases Cursor.reads_nil.1 reads
  have inner' := inner.inner depth (by omega) readsInner (ends_of (by simp [isClose]))
  show primary _ _ c = _
  simp [primary, isTable, Cursor.consume_eq advances₁, Cursor.expect_eq isOpen advances₂, inner',
    Cursor.expect_eq isClose advances₃]

theorem integer_eq {digits : Nat} (fits : digits < 2 ^ 63) :
    integer false digits = some (.atom (.int (Int64.ofInt digits))) :=
  if_pos fits

theorem integer_eq_neg {digits : Nat} (fits : digits ≤ 2 ^ 63) :
    integer true digits = some (.atom (.int (Int64.ofInt (-digits)))) :=
  if_pos fits

theorem parses_of_derives {phrase : Phrase} (derives : Derives phrase tokens) :
    Parses phrase tokens := by
  induction derives with
  | conditional _ _ _ condition' thenDo' elseDo' =>
    exact parses_conditional condition' thenDo' elseDo'
  | plain base ih => exact parses_plain base ih
  | pipeline base steps ih ih' => exact parses_pipeline base ih steps ih'
  | stepsNil =>
    intro depth c c' _ reads ends rounds sofar enough
    cases Cursor.reads_nil.1 reads
    cases rounds with
    | zero => cases enough
    | succ rounds => simp [steps, ends]
  | stepsCons _ _ ih ih' => exact parses_stepsCons ih ih'
  | call spaceKey nameKey _ ih => exact parses_call spaceKey nameKey ih
  | entriesNil => exact parses_entriesNil
  | entriesLast isKey _ ih => exact parses_entriesLast isKey ih
  | entriesCons isKey _ _ ih ih' => exact parses_entriesCons isKey ih ih'
  | valuesNil => exact parses_valuesNil
  | valuesLast value ih => exact parses_valuesLast value ih
  | valuesCons value _ ih ih' => exact parses_valuesCons value ih ih'
  | chain chains _ rest ih ih' => exact parses_chain chains ih rest ih'
  | linksNil => exact parses_linksNil
  | linksCons binds _ rest ih ih' => exact parses_linksCons binds ih rest ih'
  | single _ ih => exact parses_single ih
  | comparison compares _ _ ih ih' => exact parses_comparison compares ih ih'
  | access _ _ ih ih' => exact parses_access ih ih'
  | accessesNil => exact parses_accessesNil
  | accessesLookup isKey _ ih => exact parses_accessesLookup isKey ih
  | accessesIndex _ _ ih ih' => exact parses_accessesIndex ih ih'
  | integer fits =>
    refine parses_atom fun inner rounds c next ahead consumes => ?_
    have within := integer_eq fits
    simp [primary, ahead, consumes, within]
  | negativeInteger fits =>
    refine parses_negative fun start c next ahead advances => ?_
    have within := integer_eq_neg fits
    simp only [negative, ahead, advances, within, Outcome.ok_bind]
    rfl
  | float value =>
    refine parses_atom fun inner rounds c next ahead consumes => ?_
    simp [primary, ahead, consumes]
  | negativeFloat value =>
    refine parses_negative fun start c next ahead advances => ?_
    simp [negative, ahead, advances]
  | string value | boolean value | reference value | placeholder =>
    refine parses_atom fun inner rounds c next ahead consumes => ?_
    simp [primary, ahead, consumes]
  | parens _ ih => exact parses_parens ih
  | list _ ih => exact parses_list ih
  | dict _ ih => exact parses_dict ih
  | table _ ih => exact parses_table ih

theorem statements_eq {items : List (Statement Expr)} (derives : DerivesStatements items tokens)
    (depth rounds : Nat) (deep : tokens.length < depth) (enough : tokens.length < rounds)
    (reads : c.Reads tokens c') (ends : ∀ name, c'.token ≠ .identifier name)
    (sofar : List (Statement Expr)) :
    statements (expressionAt depth) rounds sofar c = .ok (sofar.reverse ++ items, c') := by
  induction derives generalizing rounds c sofar with
  | nil =>
    cases Cursor.reads_nil.1 reads
    cases rounds with
    | zero => cases enough
    | succ rounds =>
      unfold statements
      split
      · rename_i name isName
        exact absurd isName (ends name)
      · simp
  | @cons statement items first second body _ ih =>
    simp only [List.length_cons, List.length_append] at deep enough
    obtain ⟨isName, c₁, advances₁, reads⟩ := Cursor.reads_cons.1 reads
    obtain ⟨isAssign, c₂, advances₂, reads⟩ := Cursor.reads_cons.1 reads
    obtain ⟨c₃, readsBody, reads⟩ := Cursor.reads_append.1 reads
    obtain ⟨isEnd, c₄, advances₃, reads⟩ := Cursor.reads_cons.1 reads
    have body' := (parses_of_derives body).inner depth (by omega) readsBody
      (ends_of (by simp [isEnd]))
    cases rounds with
    | zero => cases enough
    | succ rounds =>
      have rest := ih rounds (by omega) (by omega) reads (statement :: sofar)
      simpa [statements, isName, advances₁, Cursor.expect_eq isAssign advances₂, body',
        Cursor.expect_eq isEnd advances₃] using rest

theorem query_eq {q : Query} (derives : q.Derives tokens) (reads : c.Reads tokens c')
    (isEnd : c'.token = .endOfInput) {c'' : Cursor} (advances : c'.advance = .ok c'')
    (bound : tokens.length < c.bound) : query c = .ok (q, c'') := by
  obtain ⟨statements', final⟩ := derives
  rw [List.length_append] at bound
  obtain ⟨middle, readsFirst, readsSecond⟩ := Cursor.reads_append.1 reads
  have noName : ∀ name, middle.token ≠ .identifier name := by
    intro name isName
    obtain ⟨token, rest, rfl, begins⟩ := final.expression_begins
    rw [(Cursor.reads_cons.1 readsSecond).1] at isName
    subst isName
    rcases begins with begins | begins <;> cases begins
  have first' := statements_eq statements' c.bound c.bound (by omega)
    (by omega) readsFirst noName []
  have second' := (parses_of_derives final).inner c.bound (by omega) readsSecond
    (ends_of (by simp [isEnd]))
  simp [query, first', whole, second', Cursor.expect_eq isEnd advances]

end Parser

/-- Whether a feed hands over some tokens, then the end of the text. -/
inductive Feed.Holds : Feed → List Token → Prop where
  | finish (position : Text.Position) : Holds (.finish position) []
  | token {token : Token} {start : Text.Position} {next : Feed} {tokens : List Token}
      (rest : Holds next tokens) : Holds (.token token start next) (token :: tokens)

namespace Feed.Holds

variable {feed : Feed} {tokens : List Token}

theorem length_eq (holds : feed.Holds tokens) : feed.length = tokens.length := by
  induction holds with
  | finish => rfl
  | token _ ih => simp [Feed.length, ih]

theorem unique (holds : feed.Holds tokens) {tokens' : List Token} (holds' : feed.Holds tokens') :
    tokens = tokens' := by
  induction holds generalizing tokens' with
  | finish =>
    cases holds'
    rfl
  | token _ ih =>
    cases holds' with
    | token rest => rw [ih rest]

theorem reads (holds : feed.Holds tokens) (token : Token) (position : Text.Position) :
    ∃ c' next, Parser.Cursor.Reads ⟨token, position, feed⟩ (token :: tokens) c' ∧
      c'.token = .endOfInput ∧ c'.advance = .ok next := by
  induction holds generalizing token position with
  | finish start => exact ⟨_, _, .cons rfl (.nil _), rfl, rfl⟩
  | token _ ih =>
    obtain ⟨c', next, reads, isEnd, advances⟩ := ih _ _
    exact ⟨c', next, .cons rfl reads, isEnd, advances⟩

theorem exists_cursor (holds : feed.Holds tokens) : ∃ c c' next : Parser.Cursor,
    c.Reads tokens c' ∧ c'.token = .endOfInput ∧ c'.advance = .ok next ∧
      tokens.length < c.bound ∧
      ∀ text, Feed.ofText text = feed → Parser.Cursor.ofText text = .ok c := by
  cases holds with
  | finish start =>
    exact ⟨⟨.endOfInput, start, .finish start⟩, _, _, .nil _, rfl, rfl,
      by simp [Parser.Cursor.bound], fun text same => by simp [Parser.Cursor.ofText, same]⟩
  | @token token position next tokens rest =>
    obtain ⟨c', next', reads, isEnd, advances⟩ := rest.reads token position
    exact ⟨⟨token, position, next⟩, c', next', reads, isEnd, advances,
      by simp [Parser.Cursor.bound, rest.length_eq],
      fun text same => by simp [Parser.Cursor.ofText, same]⟩

end Feed.Holds

theorem Feed.exists_holds (tokens : List Token) : ∃ feed : Feed, feed.Holds tokens := by
  induction tokens with
  | nil => exact ⟨_, .finish .start⟩
  | cons token rest ih =>
    obtain ⟨feed, holds⟩ := ih
    exact ⟨.token token .start feed, .token holds⟩

theorem Query.parse_eq {text : String} {query : Query} {tokens : List Token}
    (holds : (Feed.ofText text).Holds tokens) (derives : query.Derives tokens) :
    Query.parse text = .ok query := by
  obtain ⟨c, c', next, reads, isEnd, advances, bound, start⟩ := holds.exists_cursor
  have began : Parser.Cursor.ofText text = .ok c := start text rfl
  simp [Query.parse, Parser.run, began, Parser.query_eq derives reads isEnd advances bound]

/-- Tokens denote one query at most. -/
theorem Query.Derives.unique {query query' : Query} {tokens : List Token}
    (derives : query.Derives tokens) (derives' : query'.Derives tokens) : query = query' := by
  obtain ⟨feed, holds⟩ := Feed.exists_holds tokens
  obtain ⟨c, c', next, reads, isEnd, advances, bound, _⟩ := holds.exists_cursor
  have parses := Parser.query_eq derives reads isEnd advances bound
  rw [Parser.query_eq derives' reads isEnd advances bound] at parses
  cases parses
  rfl

end QueryGraph
