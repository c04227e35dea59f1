import QueryGraph.Proofs.TokenStream
import QueryGraph.Proofs.Unambiguity

namespace QueryGraph

open QueryGraph.Grammar QueryGraph.Parser

namespace Parser

variable {c c' : Cursor} {token : Token} {tokens : List Token}

theorem Cursor.consume_ok (h : c.consume = .ok c') : c.advance = .ok c' := by
  unfold consume at h
  unfold advance at h ⊢
  cases rest : c.rest <;> simp_all

theorem Cursor.expect_ok {description : String} (h : c.expect token description = .ok c') :
    c.token = token ∧ c.advance = .ok c' := by
  unfold expect at h
  split at h
  · exact ⟨‹_›, h⟩
  · cases h

theorem Cursor.Reads.step {next : Cursor} (ahead : c.token = token)
    (advances : c.advance = .ok next) (rest : next.Reads tokens c') :
    c.Reads (token :: tokens) c' :=
  reads_cons.2 ⟨ahead, next, advances, rest⟩

theorem Cursor.Reads.one {next : Cursor} (ahead : c.token = token)
    (advances : c.advance = .ok next) : c.Reads [token] next :=
  .step ahead advances (.nil next)

theorem Cursor.Reads.append {middle : Cursor} {first second : List Token}
    (reads : c.Reads first middle) (reads' : middle.Reads second c') :
    c.Reads (first ++ second) c' :=
  reads_append.2 ⟨middle, reads, reads'⟩

theorem key_ok {name : String} (h : key c = .ok (name, c')) :
    ∃ key : Key, key.token = c.token ∧ key.name = name ∧ c.advance = .ok c' := by
  unfold key at h
  split at h
  · rename_i isKey
    obtain ⟨next, advances, h⟩ := Outcome.bind_eq_ok.1 h
    cases h
    exact ⟨⟨c.token, name, isKey⟩, rfl, rfl, advances⟩
  · cases h

/-- Whether there is a derivation behind all that a parser reads. What it comes to may depend on
what is read already. -/
def Accepts {α : Type} (parser : Parser α) (category : Category)
    (result : category.Meaning → α) : Prop :=
  ∀ c value c', parser c = .ok (value, c') →
    ∃ tree : Derivation category, c.Reads tree.tokens c' ∧ result tree.meaning = value

theorem reverse_append_cons {α : Type} (sofar : List α) (a : α) (items : List α) :
    sofar.reverse ++ a :: items = (a :: sofar).reverse ++ items := by
  simp

variable {inner : Parser Expr}

theorem accepts_entries (inner' : Accepts inner .expression id) (close : Token)
    (expected : String) (rounds : Nat) (sofar : Entries Expr) :
    Accepts (entries inner close expected rounds sofar) (.entries close)
      (fun result => result sofar) := by
  induction rounds generalizing sofar with
  | zero => intro c value c' h; cases h
  | succ rounds ih =>
    intro c value c' h
    unfold entries at h
    split at h
    · rename_i isClose
      obtain ⟨c₁, advances, h⟩ := Outcome.bind_eq_ok.1 h
      cases h
      exact ⟨.entriesNil, .one isClose advances, rfl⟩
    · obtain ⟨⟨name, c₁⟩, isKey, h⟩ := Outcome.bind_eq_ok.1 h
      obtain ⟨key, isToken, rfl, advances⟩ := key_ok isKey
      obtain ⟨c₂, isAssign, h⟩ := Outcome.bind_eq_ok.1 h
      obtain ⟨⟨expr, c₃⟩, isValue, h⟩ := Outcome.bind_eq_ok.1 h
      obtain ⟨valueTree, reads, rfl⟩ := inner' _ _ _ isValue
      obtain ⟨isAssign, advances'⟩ := Cursor.expect_ok isAssign
      dsimp only at h
      split at h
      · rename_i isComma
        obtain ⟨c₄, advances'', h⟩ := Outcome.bind_eq_ok.1 h
        obtain ⟨tree, reads', rfl⟩ := ih _ _ _ _ h
        exact ⟨.entriesCons key valueTree tree, .step isToken.symm advances
          (.step isAssign advances' (reads.append (.step isComma advances'' reads'))), rfl⟩
      · split at h
        · rename_i isClose
          obtain ⟨c₄, advances'', h⟩ := Outcome.bind_eq_ok.1 h
          cases h
          exact ⟨.entriesLast key valueTree, .step isToken.symm advances
            (.step isAssign advances' (reads.append (.one isClose advances''))), rfl⟩
        · cases h

theorem accepts_values (inner' : Accepts inner .expression id) (rounds : Nat)
    (sofar : List Expr) :
    Accepts (values inner rounds sofar) .values (fun items : List Expr => sofar.reverse ++ items) := by
  induction rounds generalizing sofar with
  | zero => intro c value c' h; cases h
  | succ rounds ih =>
    intro c value c' h
    unfold values at h
    split at h
    · rename_i isClose
      obtain ⟨c₁, advances, h⟩ := Outcome.bind_eq_ok.1 h
      cases h
      exact ⟨.valuesNil, .one isClose advances, List.append_nil _⟩
    · obtain ⟨⟨expr, c₁⟩, isValue, h⟩ := Outcome.bind_eq_ok.1 h
      obtain ⟨valueTree, reads, rfl⟩ := inner' _ _ _ isValue
      dsimp only at h
      split at h
      · rename_i isComma
        obtain ⟨c₂, advances, h⟩ := Outcome.bind_eq_ok.1 h
        obtain ⟨tree, reads', rfl⟩ := ih _ _ _ _ h
        refine ⟨.valuesCons valueTree tree, reads.append (.step isComma advances reads'), ?_⟩
        exact reverse_append_cons ..
      · split at h
        · rename_i isClose
          obtain ⟨c₂, advances, h⟩ := Outcome.bind_eq_ok.1 h
          cases h
          refine ⟨.valuesLast valueTree, reads.append (.one isClose advances), ?_⟩
          exact List.reverse_cons.symm
        · cases h

theorem accepts_call (inner' : Accepts inner .expression id) (rounds : Nat) :
    Accepts (call inner rounds) .call id := by
  intro c value c' h
  obtain ⟨⟨space, c₁⟩, isSpace, h⟩ := Outcome.bind_eq_ok.1 h
  obtain ⟨c₂, isDot, h⟩ := Outcome.bind_eq_ok.1 h
  obtain ⟨⟨name, c₃⟩, isName, h⟩ := Outcome.bind_eq_ok.1 h
  obtain ⟨c₄, isOpen, h⟩ := Outcome.bind_eq_ok.1 h
  obtain ⟨⟨arguments, c₅⟩, isArguments, h⟩ := Outcome.bind_eq_ok.1 h
  cases h
  obtain ⟨space, isToken, rfl, advances⟩ := key_ok isSpace
  obtain ⟨isDot, advances'⟩ := Cursor.expect_ok isDot
  obtain ⟨name, isToken', rfl, advances''⟩ := key_ok isName
  obtain ⟨isOpen, advances'''⟩ := Cursor.expect_ok isOpen
  obtain ⟨tree, reads, rfl⟩ := accepts_entries inner' _ _ _ _ _ _ _ isArguments
  exact ⟨.call space name tree, .step isToken.symm advances (.step isDot advances'
    (.step isToken'.symm advances'' (.step isOpen advances''' reads))), rfl⟩

theorem integer_some {digits : Nat} {expr : Expr} (h : integer false digits = some expr) :
    ∃ fits : digits < 2 ^ 63, (Atom.integer digits fits).expr = expr := by
  unfold integer at h
  split at h
  · contradiction
  · split at h
    · rename_i fits
      exact ⟨fits, Option.some.inj h⟩
    · cases h

theorem integer_some_neg {digits : Nat} {expr : Expr} (h : integer true digits = some expr) :
    ∃ fits : digits ≤ 2 ^ 63, (Atom.negativeInteger digits fits).expr = expr := by
  unfold integer at h
  split at h
  · split at h
    · rename_i fits
      exact ⟨fits, Option.some.inj h⟩
    · cases h
  · contradiction

theorem negative_ok {start : Text.Position} {expr : Expr} (h : negative start c = .ok (expr, c')) :
    ∃ (atom : Atom) (token : Token), atom.tokens = [.operator .subtract, token] ∧
      c.Reads [token] c' ∧ atom.expr = expr := by
  unfold negative at h
  split at h
  · rename_i digits isInteger
    obtain ⟨c₁, advances, h⟩ := Outcome.bind_eq_ok.1 h
    split at h
    · rename_i within
      cases h
      obtain ⟨fits, rfl⟩ := integer_some_neg within
      exact ⟨.negativeInteger digits fits, _, rfl, .one isInteger advances, rfl⟩
    · cases h
  · rename_i number isFloat
    obtain ⟨c₁, advances, h⟩ := Outcome.bind_eq_ok.1 h
    cases h
    exact ⟨.negativeFloat number, _, rfl, .one isFloat advances, rfl⟩
  · cases h

theorem reads_atom (atom : Atom) {expr : Expr} (single : atom.tokens = [c.token])
    (h : (do
      let c ← c.consume
      return (atom.expr, c)) = .ok (expr, c')) :
    ∃ tree : Derivation (.operand .primary), c.Reads tree.tokens c' ∧ id tree.meaning = expr := by
  obtain ⟨c₁, consumes, h⟩ := Outcome.bind_eq_ok.1 h
  cases h
  refine ⟨.atom atom, ?_, rfl⟩
  rw [Derivation.tokens, single]
  exact .one rfl (Cursor.consume_ok consumes)

theorem reads_enclosed (inner' : Accepts inner .expression id) {f : Expr → Expr} {expr : Expr}
    {description : String}
    (h : (do
      let (expr, c) ← inner c
      let c ← c.expect .rightParen description
      return (f expr, c)) = .ok (expr, c')) :
    ∃ tree : Derivation .expression, c.Reads (tree.tokens ++ [.rightParen]) c' ∧
      f tree.meaning = expr := by
  obtain ⟨⟨expr, c₁⟩, isInner, h⟩ := Outcome.bind_eq_ok.1 h
  obtain ⟨c₂, isClose, h⟩ := Outcome.bind_eq_ok.1 h
  cases h
  obtain ⟨tree, reads, rfl⟩ := inner' _ _ _ isInner
  obtain ⟨isClose, advances⟩ := Cursor.expect_ok isClose
  exact ⟨tree, reads.append (.one isClose advances), rfl⟩

theorem accepts_primary (inner' : Accepts inner .expression id) (rounds : Nat) :
    Accepts (primary inner rounds) (.operand .primary) id := by
  intro c value c' h
  unfold primary at h
  dsimp only at h
  split at h
  · rename_i digits isInteger
    obtain ⟨c₁, consumes, h⟩ := Outcome.bind_eq_ok.1 h
    split at h
    · rename_i within
      cases h
      obtain ⟨fits, rfl⟩ := integer_some within
      exact ⟨.atom (.integer digits fits), .one isInteger (Cursor.consume_ok consumes), rfl⟩
    · cases h
  · rename_i number isFloat
    exact reads_atom (.float number) (isFloat ▸ rfl) h
  · rename_i text isString
    exact reads_atom (.string text) (isString ▸ rfl) h
  · rename_i truth isBoolean
    exact reads_atom (.boolean truth) (isBoolean ▸ rfl) h
  · rename_i isMinus
    obtain ⟨c₁, consumes, h⟩ := Outcome.bind_eq_ok.1 h
    obtain ⟨atom, token, tokens, reads, rfl⟩ := negative_ok h
    refine ⟨.atom atom, ?_, rfl⟩
    rw [Derivation.tokens, tokens]
    exact .step isMinus (Cursor.consume_ok consumes) reads
  · rename_i name isReference
    exact reads_atom (.reference name) (isReference ▸ rfl) h
  · rename_i isPlaceholder
    exact reads_atom .placeholder (isPlaceholder ▸ rfl) h
  · rename_i isOpen
    obtain ⟨c₁, consumes, h⟩ := Outcome.bind_eq_ok.1 h
    obtain ⟨tree, reads, rfl⟩ := reads_enclosed inner' (f := id) h
    exact ⟨.parens tree, .step isOpen (Cursor.consume_ok consumes) reads, rfl⟩
  · rename_i isOpen
    obtain ⟨c₁, consumes, h⟩ := Outcome.bind_eq_ok.1 h
    obtain ⟨⟨items, c₂⟩, isItems, h⟩ := Outcome.bind_eq_ok.1 h
    cases h
    obtain ⟨tree, reads, rfl⟩ := accepts_values inner' _ _ _ _ _ isItems
    exact ⟨.list tree, .step isOpen (Cursor.consume_ok consumes) reads, rfl⟩
  · rename_i isOpen
    obtain ⟨c₁, consumes, h⟩ := Outcome.bind_eq_ok.1 h
    obtain ⟨⟨items, c₂⟩, isItems, h⟩ := Outcome.bind_eq_ok.1 h
    cases h
    obtain ⟨tree, reads, rfl⟩ := accepts_entries inner' _ _ _ _ _ _ _ isItems
    exact ⟨.dict tree, .step isOpen (Cursor.consume_ok consumes) reads, rfl⟩
  · rename_i isTable
    obtain ⟨c₁, consumes, h⟩ := Outcome.bind_eq_ok.1 h
    obtain ⟨c₂, isOpen, h⟩ := Outcome.bind_eq_ok.1 h
    obtain ⟨isOpen, advances⟩ := Cursor.expect_ok isOpen
    obtain ⟨tree, reads, rfl⟩ := reads_enclosed inner' (f := .table) h
    exact ⟨.table tree, .step isTable (Cursor.consume_ok consumes)
      (.step isOpen advances reads), rfl⟩
  · cases h

theorem accepts_accesses (inner' : Accepts inner .expression id) (rounds : Nat) (on : Expr) :
    Accepts (accesses inner rounds on) .accesses (fun result : Expr → Expr => result on) := by
  induction rounds generalizing on with
  | zero => intro c value c' h; cases h
  | succ rounds ih =>
    intro c value c' h
    unfold accesses at h
    split at h
    · rename_i isDot
      obtain ⟨c₁, advances, h⟩ := Outcome.bind_eq_ok.1 h
      obtain ⟨⟨name, c₂⟩, isKey, h⟩ := Outcome.bind_eq_ok.1 h
      obtain ⟨key, isToken, rfl, advances'⟩ := key_ok isKey
      obtain ⟨tree, reads, rfl⟩ := ih _ _ _ _ h
      exact ⟨.accessesLookup key tree,
        .step isDot advances (.step isToken.symm advances' reads), rfl⟩
    · rename_i isOpen
      obtain ⟨c₁, advances, h⟩ := Outcome.bind_eq_ok.1 h
      obtain ⟨⟨index, c₂⟩, isIndex, h⟩ := Outcome.bind_eq_ok.1 h
      obtain ⟨c₃, isClose, h⟩ := Outcome.bind_eq_ok.1 h
      obtain ⟨indexTree, reads, rfl⟩ := inner' _ _ _ isIndex
      obtain ⟨isClose, advances'⟩ := Cursor.expect_ok isClose
      obtain ⟨tree, reads', rfl⟩ := ih _ _ _ _ h
      exact ⟨.accessesIndex indexTree tree, .step isOpen advances
        (reads.append (.step isClose advances' reads')), rfl⟩
    · cases h
      exact ⟨.accessesNil, .nil _, rfl⟩

theorem accepts_access (inner' : Accepts inner .expression id) (rounds : Nat) :
    Accepts (access inner rounds) (.operand .access) id := by
  intro c value c' h
  obtain ⟨⟨on, c₁⟩, isOn, h⟩ := Outcome.bind_eq_ok.1 h
  obtain ⟨onTree, reads, rfl⟩ := accepts_primary inner' _ _ _ _ isOn
  obtain ⟨tree, reads', rfl⟩ := accepts_accesses inner' _ _ _ _ _ h
  exact ⟨.access onTree tree, reads.append reads', rfl⟩

theorem operatorAt_some {level : Nat} {op : Operator} (h : operatorAt level token = some op) :
    token = .operator op ∧ op.precedence = level := by
  cases token with
  | operator other =>
    simp only [operatorAt] at h
    split at h
    · rename_i binds
      cases h
      exact ⟨rfl, binds⟩
    · cases h
  | _ => cases h

variable {level : ChainLevel} {operand : Parser Expr}

theorem accepts_links (operand' : Accepts operand (.operand level.operand) id) (rounds : Nat)
    (left : Expr) : Accepts (links level.precedence operand rounds left) (.links level)
      (fun result : Expr → Expr => result left) := by
  induction rounds generalizing left with
  | zero => intro c value c' h; cases h
  | succ rounds ih =>
    intro c value c' h
    unfold links at h
    split at h
    · rename_i op isOperator
      obtain ⟨c₁, advances, h⟩ := Outcome.bind_eq_ok.1 h
      obtain ⟨⟨right, c₂⟩, isRight, h⟩ := Outcome.bind_eq_ok.1 h
      obtain ⟨isOperator, binds⟩ := operatorAt_some isOperator
      obtain ⟨rightTree, reads, rfl⟩ := operand' _ _ _ isRight
      obtain ⟨tree, reads', rfl⟩ := ih _ _ _ _ h
      exact ⟨.linksCons op binds rightTree tree,
        .step isOperator advances (reads.append reads'), rfl⟩
    · cases h
      exact ⟨.linksNil, .nil _, rfl⟩

theorem accepts_chain (operand' : Accepts operand (.operand level.operand) id) (rounds : Nat) :
    Accepts (chain level.precedence operand rounds) (.operand (.chain level)) id := by
  intro c value c' h
  obtain ⟨⟨left, c₁⟩, isLeft, h⟩ := Outcome.bind_eq_ok.1 h
  obtain ⟨leftTree, reads, rfl⟩ := operand' _ _ _ isLeft
  obtain ⟨tree, reads', rfl⟩ := accepts_links operand' _ _ _ _ _ h
  exact ⟨.chain leftTree tree, reads.append reads', rfl⟩

theorem accepts_comparison (operand' : Accepts operand (.operand (.chain .sum)) id) :
    Accepts (comparison operand) (.operand .comparison) id := by
  intro c value c' h
  obtain ⟨⟨left, c₁⟩, isLeft, h⟩ := Outcome.bind_eq_ok.1 h
  obtain ⟨leftTree, reads, rfl⟩ := operand' _ _ _ isLeft
  dsimp only at h
  split at h
  · rename_i op isOperator
    obtain ⟨c₂, advances, h⟩ := Outcome.bind_eq_ok.1 h
    obtain ⟨⟨right, c₃⟩, isRight, h⟩ := Outcome.bind_eq_ok.1 h
    cases h
    obtain ⟨isOperator, binds⟩ := operatorAt_some isOperator
    obtain ⟨rightTree, reads', rfl⟩ := operand' _ _ _ isRight
    have compares : op.isComparison = true := by simp [Operator.isComparison, binds]
    exact ⟨.comparison op compares leftTree rightTree,
      reads.append (.step isOperator advances reads'), rfl⟩
  · cases h
    exact ⟨.single leftTree, reads, rfl⟩

theorem accepts_operation (inner' : Accepts inner .expression id) (rounds : Nat) :
    Accepts (operation inner rounds) (.operand (.chain .disjunction)) id := by
  have product : Accepts _ (.operand (.chain .product)) id :=
    accepts_chain (accepts_access inner' rounds) rounds
  have sum : Accepts _ (.operand (.chain .sum)) id := accepts_chain product rounds
  have conjunction : Accepts _ (.operand (.chain .conjunction)) id :=
    accepts_chain (accepts_comparison sum) rounds
  have disjunction : Accepts _ (.operand (.chain .disjunction)) id :=
    accepts_chain conjunction rounds
  exact disjunction

theorem accepts_steps {step : Parser Call} (step' : Accepts step .call id) (rounds : Nat)
    (sofar : List Call) :
    Accepts (steps step rounds sofar) .steps (fun calls : List Call => sofar.reverse ++ calls) := by
  induction rounds generalizing sofar with
  | zero => intro c value c' h; cases h
  | succ rounds ih =>
    intro c value c' h
    unfold steps at h
    split at h
    · rename_i isPipe
      obtain ⟨c₁, advances, h⟩ := Outcome.bind_eq_ok.1 h
      obtain ⟨⟨call, c₂⟩, isCall, h⟩ := Outcome.bind_eq_ok.1 h
      obtain ⟨callTree, reads, rfl⟩ := step' _ _ _ isCall
      obtain ⟨tree, reads', rfl⟩ := ih _ _ _ _ h
      refine ⟨.stepsCons callTree tree, .step isPipe advances (reads.append reads'), ?_⟩
      exact reverse_append_cons ..
    · cases h
      exact ⟨.stepsNil, .nil _, List.append_nil _⟩

theorem accepts_expressionWith (inner' : Accepts inner .expression id) (rounds : Nat) :
    Accepts (expressionWith inner rounds) .expression id := by
  intro c value c' h
  unfold expressionWith at h
  split at h
  · rename_i isIf
    obtain ⟨c₁, advances, h⟩ := Outcome.bind_eq_ok.1 h
    obtain ⟨⟨condition, c₂⟩, isCondition, h⟩ := Outcome.bind_eq_ok.1 h
    obtain ⟨c₃, isThen, h⟩ := Outcome.bind_eq_ok.1 h
    obtain ⟨⟨thenDo, c₄⟩, isThenDo, h⟩ := Outcome.bind_eq_ok.1 h
    obtain ⟨c₅, isElse, h⟩ := Outcome.bind_eq_ok.1 h
    obtain ⟨⟨elseDo, c₆⟩, isElseDo, h⟩ := Outcome.bind_eq_ok.1 h
    cases h
    obtain ⟨first, reads, rfl⟩ := inner' _ _ _ isCondition
    obtain ⟨isThen, advances'⟩ := Cursor.expect_ok isThen
    obtain ⟨second, reads', rfl⟩ := inner' _ _ _ isThenDo
    obtain ⟨isElse, advances''⟩ := Cursor.expect_ok isElse
    obtain ⟨third, reads'', rfl⟩ := inner' _ _ _ isElseDo
    exact ⟨.conditional first second third, .step isIf advances (reads.append
      (.step isThen advances' (reads'.append (.step isElse advances'' reads'')))), rfl⟩
  · obtain ⟨⟨base, c₁⟩, isBase, h⟩ := Outcome.bind_eq_ok.1 h
    obtain ⟨⟨calls, c₂⟩, isSteps, h⟩ := Outcome.bind_eq_ok.1 h
    cases h
    obtain ⟨baseTree, reads, rfl⟩ := accepts_operation inner' _ _ _ _ isBase
    obtain ⟨tree, reads', rfl⟩ := accepts_steps (accepts_call inner' _) _ _ _ _ _ isSteps
    refine ⟨.piped baseTree tree, reads.append reads', ?_⟩
    cases tree with
    | stepsNil => rfl
    | stepsCons => rfl

theorem accepts_expressionAt (depth : Nat) : Accepts (expressionAt depth) .expression id := by
  induction depth with
  | zero => intro c value c' h; cases h
  | succ depth ih => exact accepts_expressionWith ih (depth + 1)

theorem accepts_statements {expression : Parser Expr}
    (expression' : Accepts expression .expression id) {rounds : Nat}
    {sofar result : List (Statement Expr)}
    (h : statements expression rounds sofar c = .ok (result, c')) :
    ∃ trees : List StatementDerivation, c.Reads (trees.flatMap StatementDerivation.tokens) c' ∧
      result = sofar.reverse ++ trees.map StatementDerivation.statement := by
  induction rounds generalizing sofar c with
  | zero => cases h
  | succ rounds ih =>
    unfold statements at h
    split at h
    · rename_i name isName
      obtain ⟨c₁, advances, h⟩ := Outcome.bind_eq_ok.1 h
      obtain ⟨c₂, isAssign, h⟩ := Outcome.bind_eq_ok.1 h
      obtain ⟨⟨body, c₃⟩, isBody, h⟩ := Outcome.bind_eq_ok.1 h
      obtain ⟨c₄, isEnd, h⟩ := Outcome.bind_eq_ok.1 h
      obtain ⟨isAssign, advances'⟩ := Cursor.expect_ok isAssign
      obtain ⟨tree, reads, rfl⟩ := expression' _ _ _ isBody
      obtain ⟨isEnd, advances''⟩ := Cursor.expect_ok isEnd
      obtain ⟨trees, reads', rfl⟩ := ih h
      refine ⟨⟨name, tree⟩ :: trees, ?_, (reverse_append_cons ..).symm⟩
      have first : c.Reads (StatementDerivation.tokens ⟨name, tree⟩) c₄ :=
        .step isName advances (.step isAssign advances' (reads.append (.one isEnd advances'')))
      exact first.append reads'
    · cases h
      exact ⟨[], .nil _, (List.append_nil _).symm⟩

theorem accepts_query {result : Query} {c'' : Cursor} (h : query c = .ok (result, c'')) :
    ∃ (tree : QueryDerivation) (c' : Cursor), c.Reads tree.tokens c' ∧ tree.query = result ∧
      c'.token = .endOfInput := by
  obtain ⟨⟨items, c₁⟩, isItems, h⟩ := Outcome.bind_eq_ok.1 h
  obtain ⟨⟨final, c₂⟩, isFinal, h⟩ := Outcome.bind_eq_ok.1 h
  cases h
  obtain ⟨⟨final, c₃⟩, isFinal, h⟩ := Outcome.bind_eq_ok.1 isFinal
  obtain ⟨c₄, isEnd, h⟩ := Outcome.bind_eq_ok.1 h
  cases h
  obtain ⟨trees, reads, rfl⟩ := accepts_statements (accepts_expressionAt _) isItems
  obtain ⟨tree, reads', rfl⟩ := accepts_expressionAt _ _ _ _ isFinal
  exact ⟨⟨trees, tree⟩, c₃, reads.append reads', rfl, (Cursor.expect_ok isEnd).1⟩

theorem Cursor.Reads.holds (reads : c.Reads tokens c') (proper : c.rest.Proper)
    (isEnd : c'.token = .endOfInput) (noEnd : .endOfInput ∉ tokens) :
    (tokens = [] ∧ c.token = .endOfInput) ∨
      ∃ rest, tokens = c.token :: rest ∧ c.rest.Holds rest := by
  induction reads with
  | nil c => exact Or.inl ⟨rfl, isEnd⟩
  | @cons c next c' tokens advances _ ih =>
    -- At the end of the feed the cursor goes on to the end of the text again and again, which only
    -- tokens that are the end of the text themselves would follow.
    rw [List.mem_cons, not_or] at noEnd
    refine Or.inr ⟨tokens, rfl, ?_⟩
    unfold advance at advances
    cases more : c.rest with
    | token token start feed =>
      rw [more] at advances proper
      cases advances
      rcases ih proper.2 isEnd noEnd.2 with ⟨_, atEnd⟩ | ⟨rest, rfl, holds⟩
      · exact absurd atEnd proper.1
      · exact .token holds
    | finish position =>
      rw [more] at advances
      cases advances
      rcases ih trivial isEnd noEnd.2 with ⟨rfl, _⟩ | ⟨rest, rfl, _⟩
      · exact .finish position
      · exact absurd List.mem_cons_self noEnd.2
    | fault error feed =>
      rw [more] at advances
      cases advances
    | stuck error =>
      rw [more] at advances
      cases advances

theorem accepts_text {text : String} {result : Query} (h : Query.parse text = .ok result) :
    ∃ tree : QueryDerivation, (Feed.ofText text).Holds tree.tokens ∧ tree.query = result := by
  obtain ⟨c, start, h⟩ := Outcome.bind_eq_ok.1 h
  split at h
  · rename_i result' c' isQuery
    cases h
    obtain ⟨tree, c'', reads, rfl, isEnd⟩ := accepts_query isQuery
    refine ⟨tree, ?_, rfl⟩
    have proper : (Feed.ofText text).Proper := Feed.proper_ofLexer _ _
    unfold Cursor.ofText at start
    generalize Feed.ofText text = feed at start proper
    cases feed with
    | token token position next =>
      cases start
      rcases reads.holds proper.2 isEnd tree.endOfInput_not_mem with
        ⟨_, atEnd⟩ | ⟨rest, same, holds⟩
      · exact absurd atEnd proper.1
      · rw [same]
        exact .token holds
    | finish position =>
      cases start
      rcases reads.holds trivial isEnd tree.endOfInput_not_mem with ⟨same, _⟩ | ⟨rest, same, _⟩
      · rw [same]
        exact .finish position
      · have inside := tree.endOfInput_not_mem
        rw [same] at inside
        exact absurd List.mem_cons_self inside
    | fault => cases start
    | stuck => cases start
  · cases h

end Parser

/-- A text denotes a query if and only if it is read without a fault to its end, and its tokens are
those of a derivation of the query. No two derivations have the same tokens. -/
theorem Query.parse_eq_ok_iff (text : String) :
    (∀ query, Query.parse text = .ok query ↔ ∃ tree : QueryDerivation,
      (Lexer.ofText text).Lexes tree.tokens ∧ tree.query = query) ∧
    Function.Injective QueryDerivation.tokens := by
  refine ⟨fun query => ⟨fun parsed => ?_, ?_⟩, QueryDerivation.tokens_injective⟩
  · obtain ⟨tree, holds, rfl⟩ := Parser.accepts_text parsed
    exact ⟨tree, Feed.holds_ofText_iff.1 holds, rfl⟩
  · rintro ⟨tree, lexes, rfl⟩
    exact Query.parse_eq (Feed.holds_ofText_iff.2 lexes) tree.derives

end QueryGraph
