import Mathlib.Logic.Function.Iterate
import QueryGraph.Proofs.Consumption
import QueryGraph.Proofs.Size

namespace QueryGraph

open QueryGraph.Query.Binary

namespace Query.Binary

mutual

theorem exprSize_le : ∀ expr : Expr, expr.size ≤ expr.bytes.length
  | .atom _ | .reference _ | .placeholder => by simp [Expr.size]
  | .binary left _ right => by
    have leftLe := exprSize_le left
    have rightLe := exprSize_le right
    simp only [Expr.size, bytes_binary, List.length_cons, List.length_append]
    omega
  | .lookup on _ => by
    have onLe := exprSize_le on
    simp only [Expr.size, bytes_lookup, List.length_cons, List.length_append]
    omega
  | .list values => by
    have valuesLe := listSize_le values
    simp only [Expr.size, bytes_list, List.length_cons, List.length_append]
    omega
  | .dict entries => by
    have entriesLe := entriesSize_le entries
    simp only [Expr.size, bytes_dict, List.length_cons, List.length_append]
    omega
  | .table inner => by
    have innerLe := exprSize_le inner
    simp only [Expr.size, bytes_table, List.length_cons]
    omega
  | .call call => by
    have callLe := callSize_le call
    simp only [Expr.size, bytes_call, List.length_cons]
    omega
  | .pipeline base steps => by
    have baseLe := exprSize_le base
    have stepsLe := callsSize_le steps
    simp only [Expr.size, bytes_pipeline, List.length_cons, List.length_append]
    omega
  | .conditional condition thenDo elseDo => by
    have conditionLe := exprSize_le condition
    have thenLe := exprSize_le thenDo
    have elseLe := exprSize_le elseDo
    simp only [Expr.size, bytes_conditional, List.length_cons, List.length_append]
    omega

theorem listSize_le : ∀ values : List Expr, listSize values ≤ (values.flatMap Expr.bytes).length
  | [] => Nat.le_refl 0
  | value :: others => by
    have first := exprSize_le value
    have rest := listSize_le others
    simp only [listSize, List.flatMap_cons, List.length_append]
    omega

theorem entriesSize_le : ∀ entries : List (String × Expr),
    entriesSize entries ≤ (entries.flatMap entryBytes).length
  | [] => Nat.le_refl 0
  | (_, value) :: others => by
    have first := exprSize_le value
    have rest := entriesSize_le others
    simp only [entriesSize, List.flatMap_cons, entryBytes, List.length_append]
    omega

theorem operandSize_lt : ∀ operand : Option Expr,
    operandSize operand < (operandBytes operand).length
  | none => Nat.zero_lt_one
  | some value => by
    have valueLe := exprSize_le value
    simp only [operandSize, operandBytes, putOperand, List.length_cons]
    rw [← Expr.bytes]
    omega

theorem callSize_le : ∀ call : Call, call.size ≤ call.bytes.length
  | { operand, space, name, arguments } => by
    have operandLt := operandSize_lt operand
    have argumentsLe := entriesSize_le arguments
    simp only [Call.size, Call.bytes_eq, List.length_append]
    omega

theorem callsSize_le : ∀ calls : List Call, callsSize calls ≤ (calls.flatMap Call.bytes).length
  | [] => Nat.le_refl 0
  | call :: others => by
    have first := callSize_le call
    have rest := callsSize_le others
    simp only [callsSize, List.flatMap_cons, List.length_append]
    omega

end

end Query.Binary

theorem Query.size_le_bytes (query : Query) : query.size ≤ query.toBytes.length := by
  have bodies : (query.statements.map fun statement => statement.body.size).sum ≤
      (query.statements.flatMap statementBytes).length := by
    rw [List.length_flatMap]
    refine List.sum_le_sum fun statement member => ?_
    have body := exprSize_le statement.body
    rw [statementBytes, List.length_append]
    omega
  have final := exprSize_le query.final
  simp only [Query.size, Query.toBytes_eq, List.length_append]
  omega

namespace Query.Binary

variable {α β : Type}

/-- Whether two readers read the same off any bytes that are fewer than so many. -/
def AgreeBelow (limit : Nat) (read read' : Reader α) : Prop :=
  ∀ bytes, bytes.length < limit → read' bytes = read bytes

namespace AgreeBelow

variable {limit : Nat} {read read' : Reader α} {holds : α → Nat → Prop}
  {next next' : α × Bytes → Except DecodeError (β × Bytes)}

theorem refl (limit : Nat) (read : Reader α) : AgreeBelow limit read read :=
  fun _ _ => rfl

theorem bind (first : AgreeBelow limit read read') (takes : Takes read holds)
    (second : ∀ value, AgreeBelow limit (fun bytes => next (value, bytes)) fun bytes =>
      next' (value, bytes)) :
    AgreeBelow limit (fun bytes => read bytes >>= next) fun bytes => read' bytes >>= next' := by
  intro bytes fewer
  show (read' bytes >>= next') = (read bytes >>= next)
  rw [first bytes fewer]
  cases taken : read bytes with
  | error e => rfl
  | ok pair =>
    obtain ⟨used, total, -⟩ := takes bytes pair.1 pair.2 taken
    exact second pair.1 pair.2 (by omega)

/-- What does the same with what it is given need not be told how much is left. -/
theorem last (first : AgreeBelow limit read read') :
    AgreeBelow limit (fun bytes => read bytes >>= next) fun bytes => read' bytes >>= next := by
  intro bytes fewer
  show (read' bytes >>= next) = (read bytes >>= next)
  rw [first bytes fewer]

theorem behind (takes : Takes read fun _ used => 0 < used)
    (second : ∀ value, AgreeBelow limit (fun bytes => next (value, bytes)) fun bytes =>
      next' (value, bytes)) :
    AgreeBelow (limit + 1) (fun bytes => read bytes >>= next) fun bytes =>
      read bytes >>= next' := by
  intro bytes fewer
  show (read bytes >>= next') = (read bytes >>= next)
  cases taken : read bytes with
  | error e => rfl
  | ok pair =>
    obtain ⟨used, total, positive⟩ := takes bytes pair.1 pair.2 taken
    exact second pair.1 pair.2 (by omega)

end AgreeBelow

variable {limit : Nat} {item item' : Reader α} {holds : α → Nat → Prop} {read read' : Reader Expr}

theorem agree_many (agree : AgreeBelow limit item item') (takes : Takes item holds) (count : Nat) :
    AgreeBelow limit (readMany item count) (readMany item' count) := by
  induction count with
  | zero => exact .refl limit _
  | succ count ih =>
    show AgreeBelow limit (fun bytes => readMany item (count + 1) bytes) fun bytes =>
      readMany item' (count + 1) bytes
    unfold readMany
    apply agree.bind takes
    intro first
    exact ih.last

theorem agree_seq (agree : AgreeBelow limit item item') (takes : Takes item holds) :
    AgreeBelow limit (readSeq item) (readSeq item') := by
  unfold readSeq
  apply AgreeBelow.bind (.refl limit _) takes_number
  exact agree_many agree takes

section

variable (agree : AgreeBelow limit read read')
  (part : Takes read fun expr used => expr.Fits ∧ expr.bytes.length ≤ used)

include agree part

theorem agree_entries : AgreeBelow limit (readEntries read) (readEntries read') := by
  have entry : AgreeBelow limit (readEntry read) (readEntry read') := by
    unfold readEntry
    apply AgreeBelow.bind (.refl limit _) takes_text
    intro key
    exact agree.last
  unfold readEntries
  exact (agree_seq entry (takes_entry part)).last

omit part in
theorem agree_operand : AgreeBelow limit (readOperand read) (readOperand read') := by
  unfold readOperand
  apply AgreeBelow.bind (.refl limit _) takes_byte
  intro byte
  by_cases no : byte = 0
  · simp only [if_pos no]
    exact .refl limit _
  · by_cases yes : byte = 1
    · simp only [if_neg no, if_pos yes]
      exact agree.last
    · simp only [if_neg no, if_neg yes]
      exact .refl limit _

theorem agree_call : AgreeBelow limit (readCall read) (readCall read') := by
  unfold readCall
  apply (agree_operand agree).bind (takes_operand part)
  intro operand
  apply AgreeBelow.bind (.refl limit _) takes_text
  intro space
  apply AgreeBelow.bind (.refl limit _) takes_text
  intro name
  exact (agree_entries agree part).last

/-- The kind of an expression takes up a byte, so its parts are read from one byte fewer. -/
theorem agree_exprWith : AgreeBelow (limit + 1) (readExprWith read) (readExprWith read') := by
  unfold readExprWith
  apply AgreeBelow.behind takes_kind
  intro kind
  match kind with
  | 0 => exact (AgreeBelow.refl limit readConstant).last
  | 6 => exact (AgreeBelow.refl limit readText).last
  | 7 => exact .refl limit fun bytes => .ok (Expr.placeholder, bytes)
  | 1 =>
    apply agree.bind part
    intro left
    apply AgreeBelow.bind (.refl limit _) takes_text
    intro op
    exact agree.last
  | 2 => exact agree.last
  | 3 => exact (agree_seq agree part).last
  | 4 => exact (agree_entries agree part).last
  | 5 => exact agree.last
  | 8 => exact (agree_call agree part).last
  | 9 =>
    apply agree.bind part
    intro base
    exact (agree_seq (agree_call agree part) (takes_call part)).last
  | 10 =>
    apply agree.bind part
    intro condition
    apply agree.bind part
    intro thenDo
    exact agree.last
  | _ + 11 => exact .refl limit fun _ => .error .unknownKind

theorem agree_queryWith : AgreeBelow limit (readQueryWith read) (readQueryWith read') := by
  have statement : AgreeBelow limit (readStatement read) (readStatement read') := by
    unfold readStatement
    apply AgreeBelow.bind (.refl limit _) takes_text
    intro name
    exact agree.last
  unfold readQueryWith
  apply (agree_seq statement (takes_statement part)).bind (takes_seq (takes_statement part))
  intro statements
  exact agree.last

end

theorem agree_iterate {limit depth : Nat} (enough : limit ≤ depth) (deeper : Reader Expr) :
    AgreeBelow limit (readExpr limit) (readExprWith^[depth] deeper) := by
  induction limit generalizing depth with
  | zero =>
    intro bytes fewer
    exact absurd fewer (Nat.not_lt_zero _)
  | succ limit ih =>
    obtain ⟨depth, rfl⟩ := Nat.exists_eq_add_one.2 (Nat.zero_lt_of_lt enough)
    rw [Function.iterate_succ_apply']
    exact agree_exprWith (ih (Nat.le_of_succ_le_succ enough)) (takes_expr limit)

theorem agree_min (takes : Takes item fun _ used => 0 < used) (count limit : Nat) :
    AgreeBelow limit (readMany item (min count limit)) (readMany item count) := by
  induction count generalizing limit with
  | zero =>
    rw [Nat.zero_min]
    exact .refl limit _
  | succ count ih =>
    cases limit with
    | zero =>
      intro bytes fewer
      exact absurd fewer (Nat.not_lt_zero _)
    | succ limit =>
      rw [Nat.add_min_add_right]
      show AgreeBelow (limit + 1) (fun bytes => readMany item (min count limit + 1) bytes)
        fun bytes => readMany item (count + 1) bytes
      unfold readMany
      apply AgreeBelow.behind takes
      intro first
      exact (ih limit).last

/-- Whether reading any number of values one behind the other comes to reading no more of them than
there are bytes, and one that is missed. -/
def StopsAtEnd (item : Reader α) : Prop :=
  ∀ count bytes, readMany item count bytes = readMany item (min count (bytes.length + 1)) bytes

theorem stopsAtEnd (takes : Takes item fun _ used => 0 < used) : StopsAtEnd item :=
  fun count bytes => agree_min takes count (bytes.length + 1) bytes (Nat.lt_succ_self _)

theorem bytes_pos (expr : Expr) : 0 < expr.bytes.length := by
  cases expr <;> simp

variable (depth : Nat)

theorem stopsAtEnd_expr : StopsAtEnd (readExpr depth) :=
  stopsAtEnd ((takes_expr depth).mono fun expr _ held => (bytes_pos expr).trans_le held.2)

theorem stopsAtEnd_entry : StopsAtEnd (readEntry (readExpr depth)) := by
  apply stopsAtEnd
  apply (takes_entry (takes_expr depth)).mono
  rintro entry used ⟨_, room⟩
  have value := bytes_pos entry.2
  rw [entryBytes, List.length_append] at room
  omega

theorem stopsAtEnd_call : StopsAtEnd (readCall (readExpr depth)) := by
  apply stopsAtEnd
  apply (takes_call (takes_expr depth)).mono
  rintro call used ⟨_, room⟩
  have operand := operandSize_lt call.operand
  rw [Call.bytes_eq, List.length_append] at room
  omega

theorem stopsAtEnd_statement : StopsAtEnd (readStatement (readExpr depth)) := by
  apply stopsAtEnd
  apply (takes_statement (takes_expr depth)).mono
  rintro statement used ⟨_, room⟩
  have body := bytes_pos statement.body
  rw [statementBytes, List.length_append] at room
  omega

end Query.Binary

/-- What decoding some bytes comes to. -/
structure Query.DecodesWithin (bytes : Bytes) : Prop where
  /-- Expressions nested deeper than there are bytes are never read, whatever would read them. -/
  nesting : ∀ deeper depth, bytes.length < depth →
    (readQueryWith (readExprWith^[depth] deeper) bytes).map (·.1) = Query.ofBytes bytes
  /-- Of the values that a number promises no more are read than there are bytes, and one that is
  missed. -/
  counts : ∀ depth, StopsAtEnd (readExpr depth) ∧ StopsAtEnd (readEntry (readExpr depth)) ∧
    StopsAtEnd (readCall (readExpr depth)) ∧ StopsAtEnd (readStatement (readExpr depth))
  /-- Not even with the calls in pipelines there are more expressions than bytes. -/
  size : ∀ query, Query.ofBytes bytes = .ok query → query.size ≤ bytes.length
  /-- The keys of each dictionary are distinct, among others. -/
  fits : ∀ query, Query.ofBytes bytes = .ok query → query.Fits
  length : ∀ query, Query.ofBytes bytes = .ok query → query.toBytes.length ≤ bytes.length
  again : ∀ query, Query.ofBytes bytes = .ok query → Query.ofBytes query.toBytes = .ok query

theorem Query.ofBytes_within (bytes : Bytes) : Query.DecodesWithin bytes where
  nesting deeper depth enough := by
    have agree := agree_queryWith (agree_iterate enough deeper) (takes_expr _)
    rw [agree bytes (Nat.lt_succ_self _)]
    rfl
  counts depth :=
    ⟨stopsAtEnd_expr depth, stopsAtEnd_entry depth, stopsAtEnd_call depth,
      stopsAtEnd_statement depth⟩
  size query decoded := query.size_le_bytes.trans (Query.fits_of_ofBytes decoded).2
  fits query decoded := (Query.fits_of_ofBytes decoded).1
  length query decoded := (Query.fits_of_ofBytes decoded).2
  again query decoded := by
    have taken := reads_query (Query.fits_of_ofBytes decoded).1 []
    rw [List.append_nil] at taken
    rw [Query.ofBytes, taken, Outcome.map_ok]

/-- A number with a group that it does not need, a key that is there twice, and a byte too many. -/
theorem Query.sample_within :
    Query.ofBytes [128, 0, 4, 2, 1, 97, 7, 1, 97, 5, 7, 255] =
      .ok ⟨[], .dict [("a", .table .placeholder)]⟩ ∧
    Query.toBytes ⟨[], .dict [("a", .table .placeholder)]⟩ = [0, 4, 1, 1, 97, 5, 7] ∧
    Query.ofBytes [0, 4, 1, 1, 97, 5, 7] = .ok ⟨[], .dict [("a", .table .placeholder)]⟩ := by
  have decoded : Query.ofBytes [128, 0, 4, 2, 1, 97, 7, 1, 97, 5, 7, 255] =
      .ok ⟨[], .dict [("a", .table .placeholder)]⟩ := by
    rfl
  have bytes : Query.toBytes ⟨[], .dict [("a", .table .placeholder)]⟩ = [0, 4, 1, 1, 97, 5, 7] := by
    rfl
  have again := (Query.ofBytes_within _).again _ decoded
  rw [bytes] at again
  exact ⟨decoded, bytes, again⟩

end QueryGraph
