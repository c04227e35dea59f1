import QueryGraph.Proofs.Codec

namespace QueryGraph

open QueryGraph.Number QueryGraph.Query.Binary

namespace Query.Binary

variable {α β : Type}

/-- Whether a reader of the bytes of a value, of which it is given no more than the first ones and
perhaps something behind them, either asks for more or has all of them. -/
def Awaits (read : Reader α) (bytes : Bytes) (value : α) : Prop :=
  ∀ given more, given <+: bytes ++ more →
    read given = .error .endOfBytes ∨ ∃ rest, given = bytes ++ rest ∧ read given = .ok (value, rest)

namespace Awaits

variable {read : Reader α} {bytes : Bytes} {value : α}

theorem done (value : α) : Awaits (fun bytes => .ok (value, bytes)) [] value := by
  intro given more isPrefix
  exact Or.inr ⟨given, rfl, rfl⟩

theorem cons {byte : UInt8} (empty : read [] = .error .endOfBytes)
    (others : Awaits (fun bytes => read (byte :: bytes)) bytes value) :
    Awaits read (byte :: bytes) value := by
  intro given more isPrefix
  rcases List.prefix_cons_iff.1 isPrefix with rfl | ⟨given, rfl, within⟩
  · exact Or.inl empty
  · rcases others given more within with short | ⟨rest, rfl, taken⟩
    · exact Or.inl short
    · exact Or.inr ⟨rest, rfl, taken⟩

theorem bind {next : α × Bytes → Except DecodeError (β × Bytes)} {others : Bytes} {result : β}
    (first : Awaits read bytes value)
    (second : Awaits (fun bytes => next (value, bytes)) others result) :
    Awaits (fun bytes => read bytes >>= next) (bytes ++ others) result := by
  intro given more isPrefix
  rw [List.append_assoc] at isPrefix
  rcases first given _ isPrefix with short | ⟨rest, rfl, taken⟩
  · exact Or.inl (by simp only [short, Outcome.error_bind])
  · simp only [taken, Outcome.ok_bind]
    rcases second rest more ((List.prefix_append_right_inj bytes).1 isPrefix) with
      short | ⟨rest, rfl, taken⟩
    · exact Or.inl short
    · exact Or.inr ⟨rest, (List.append_assoc ..).symm, taken⟩

theorem map (f : α → β) (first : Awaits read bytes value) :
    Awaits (fun bytes => do
      let (value, bytes) ← read bytes
      return (f value, bytes)) bytes (f value) := by
  have mapped : Awaits (fun bytes => do
      let (value, bytes) ← read bytes
      return (f value, bytes)) (bytes ++ []) (f value) := first.bind (done (f value))
  rwa [List.append_nil] at mapped

theorem cut_short (awaits : Awaits read bytes value) {given : Bytes} (isPrefix : given <+: bytes)
    (strict : given ≠ bytes) : read given = .error .endOfBytes := by
  rcases awaits given [] (by rwa [List.append_nil]) with short | ⟨rest, rfl, -⟩
  · exact short
  · have complete : bytes ++ rest = bytes :=
      isPrefix.eq_of_length_le (by rw [List.length_append]; omega)
    exact absurd complete strict

end Awaits

theorem awaits_groups {last groups more n : Nat} (small : last < 128)
    (fits : n < 128 ^ groups * (last + 1)) (enough : n ≤ more) :
    Awaits (readGroups last (groups + 1)) (putGroups more n) n := by
  induction groups generalizing n more with
  | zero =>
    rw [Nat.pow_zero, Nat.one_mul] at fits
    rw [putGroups_small (by omega)]
    refine .cons rfl ?_
    have value : n % 256 = n := by omega
    have single : n < 128 := by omega
    have within : ¬ last < n := by omega
    simpa [readGroups, value, single, within] using Awaits.done n
  | succ groups ih =>
    by_cases single : n < 128
    · rw [putGroups_small single]
      refine .cons rfl ?_
      have value : n % 256 = n := by omega
      simpa [readGroups, value, single] using Awaits.done n
    · cases more with
      | zero => omega
      | succ more =>
        have high : n / 128 < 128 ^ groups * (last + 1) := by
          rw [Nat.div_lt_iff_lt_mul (by omega), Nat.mul_right_comm, ← Nat.pow_succ]
          exact fits
        have low : (UInt8.ofNat (n % 128 + 128)).toNat = n % 128 + 128 := by
          rw [UInt8.toNat_ofNat', Nat.mod_eq_of_lt (by omega)]
        have enough' : n / 128 ≤ more := by omega
        have others := (ih high enough').map fun high => n % 128 + 128 - 128 + 128 * high
        rw [show n % 128 + 128 - 128 + 128 * (n / 128) = n by omega] at others
        rw [putGroups, if_neg single]
        refine .cons rfl ?_
        have large : ¬ n % 128 + 128 < 128 := by omega
        simpa only [readGroups, low, if_neg large] using others

theorem awaits_number {n : Nat} (fits : n < 2 ^ 64) : Awaits readNumber (putNumber n) n :=
  awaits_groups (by decide) fits (Nat.le_refl n)

theorem awaits_kind (kind : UInt8) (small : kind.toNat < 128) :
    Awaits readKind [kind] kind.toNat := by
  refine .cons rfl ?_
  simp only [readKind_cons kind small]
  exact .done _

theorem awaits_byte (byte : UInt8) : Awaits readByte [byte] byte :=
  .cons rfl (.done byte)

theorem awaits_bytes (bytes : Bytes) : Awaits (readBytes bytes.length) bytes bytes := by
  induction bytes with
  | nil => exact .done []
  | cons byte bytes ih => exact .cons rfl (ih.map (byte :: ·))

theorem awaits_text {text : String} (short : text.utf8ByteSize < 2 ^ 64) :
    Awaits readText (putText text) text := by
  have decoded : String.fromUTF8? ⟨text.toUTF8.data.toList.toArray⟩ = some text := by
    simp [String.fromUTF8?, String.toUTF8, text.isValidUTF8, String.fromUTF8]
  have bytes := awaits_bytes text.toUTF8.data.toList
  unfold readText putText
  apply Awaits.bind (awaits_number short)
  rw [← List.append_nil text.toUTF8.data.toList]
  apply Awaits.bind bytes
  simp only [decoded]
  exact .done text

theorem awaits_bool (value : Bool) : Awaits readBool (putBool value) value := by
  unfold readBool
  cases value with
  | false => exact (awaits_byte 0).bind (.done false)
  | true => exact (awaits_byte 1).bind (.done true)

theorem awaits_constant {value : Constant} (fits : value.Fits) :
    Awaits readConstant (putConstant value) value := by
  unfold readConstant
  cases value with
  | int value =>
    have number := (awaits_number (zigzag_lt value.le_toInt value.toInt_lt)).map fun z =>
      Constant.int (Int64.ofInt (unzigzag z))
    rw [unzigzag_zigzag, Int64.ofInt_toInt] at number
    apply Awaits.bind (awaits_kind 0 (by decide))
    exact number
  | double value =>
    have fixed := (awaits_bytes (putFixed 8 value.bits.toNat)).map fun fixed =>
      Constant.double ⟨UInt64.ofNat (ofFixed fixed)⟩
    rw [length_putFixed, ofFixed_putFixed value.bits.toNat_lt, UInt64.ofNat_toNat] at fixed
    apply Awaits.bind (awaits_kind 1 (by decide))
    exact fixed
  | bool value =>
    apply Awaits.bind (awaits_kind 2 (by decide))
    exact (awaits_bool value).map Constant.bool
  | string value =>
    apply Awaits.bind (awaits_kind 3 (by decide))
    exact (awaits_text fits).map Constant.string

theorem awaits_many {read : Reader α} {put : α → Bytes} {items : List α}
    (each : ∀ item ∈ items, Awaits read (put item) item) :
    Awaits (readMany read items.length) (items.flatMap put) items := by
  induction items with
  | nil => exact .done []
  | cons item items ih =>
    have others := ih fun item member => each item (List.mem_cons_of_mem _ member)
    show Awaits (fun bytes => readMany read (items.length + 1) bytes) _ _
    unfold readMany
    apply Awaits.bind (each item List.mem_cons_self)
    exact others.map (item :: ·)

theorem awaits_seq {read : Reader α} {put : α → Bytes} {items : List α}
    (short : items.length < 2 ^ 64) (each : ∀ item ∈ items, Awaits read (put item) item) :
    Awaits (readSeq read) (putNumber items.length ++ items.flatMap put) items := by
  unfold readSeq
  exact (awaits_number short).bind (awaits_many each)

variable {read : Reader Expr}

theorem awaits_entry {entry : String × Expr} (key : ShortText entry.1)
    (value : Awaits read entry.2.bytes entry.2) :
    Awaits (fun bytes => do
      let (key, bytes) ← readText bytes
      let (value, bytes) ← read bytes
      return ((key, value), bytes)) (entryBytes entry) entry := by
  unfold entryBytes
  apply Awaits.bind (awaits_text key)
  exact value.map (Prod.mk entry.1)

theorem awaits_entries {entries : List (String × Expr)} (fits : EntriesFit entries)
    (each : ∀ entry ∈ entries, Awaits read entry.2.bytes entry.2) :
    Awaits (readEntries read) (putNumber entries.length ++ entries.flatMap entryBytes) entries := by
  have pairs := awaits_seq fits.short fun entry member =>
    awaits_entry (fits.keys entry member) (each entry member)
  have merged := pairs.map Entries.ofList
  rwa [Entries.ofList_of_distinct fits.distinct] at merged

theorem awaits_operand {operand : Option Expr}
    (each : ∀ value ∈ operand, Awaits read value.bytes value) :
    Awaits (readOperand read) (operandBytes operand) operand := by
  unfold readOperand
  cases operand with
  | none => exact (awaits_byte 0).bind (.done none)
  | some value =>
    apply Awaits.bind (awaits_byte 1)
    exact (each value rfl).map some

theorem awaits_call {call : Call} (fits : call.Fits)
    (each : ∀ part ∈ call.parts, Awaits read part.bytes part) :
    Awaits (readCall read) call.bytes call := by
  have operand := awaits_operand fun value given =>
    each value (List.mem_append_left _ (Option.mem_toList.2 given))
  have arguments := awaits_entries fits.arguments fun entry member =>
    each entry.2 (List.mem_append_right _ (List.mem_map_of_mem member))
  rw [Call.bytes_eq]
  unfold readCall
  apply Awaits.bind operand
  apply Awaits.bind (awaits_text fits.space)
  apply Awaits.bind (awaits_text fits.name)
  have built := arguments.map (Call.mk call.operand call.space call.name)
  cases call
  exact built

theorem awaits_exprWith {expr : Expr} (alone : expr.FitsAlone)
    (each : ∀ part ∈ expr.parts, Awaits read part.bytes part) :
    Awaits (readExprWith read) expr.bytes expr := by
  unfold readExprWith
  cases expr with
  | atom value =>
    rw [bytes_atom]
    apply Awaits.bind (awaits_kind 0 (by decide))
    exact (awaits_constant alone).map Expr.atom
  | reference name =>
    rw [bytes_reference]
    apply Awaits.bind (awaits_kind 6 (by decide))
    exact (awaits_text alone).map Expr.reference
  | placeholder =>
    apply Awaits.bind (awaits_kind 7 (by decide))
    exact .done Expr.placeholder
  | table inner =>
    have inner' := each inner (by simp [Expr.parts])
    rw [bytes_table]
    apply Awaits.bind (awaits_kind 5 (by decide))
    exact inner'.map Expr.table
  | lookup on property =>
    have on' := each on (by simp [Expr.parts])
    rw [bytes_lookup]
    apply Awaits.bind (awaits_kind 2 (by decide))
    apply Awaits.bind on'
    exact (awaits_text alone).map (Expr.lookup on)
  | binary left op right =>
    have left' := each left (by simp [Expr.parts])
    have right' := each right (by simp [Expr.parts])
    rw [bytes_binary]
    apply Awaits.bind (awaits_kind 1 (by decide))
    apply Awaits.bind left'
    apply Awaits.bind (awaits_text alone)
    exact right'.map (Expr.binary left op)
  | conditional condition thenDo elseDo =>
    have condition' := each condition (by simp [Expr.parts])
    have thenDo' := each thenDo (by simp [Expr.parts])
    have elseDo' := each elseDo (by simp [Expr.parts])
    rw [bytes_conditional]
    apply Awaits.bind (awaits_kind 10 (by decide))
    apply Awaits.bind condition'
    apply Awaits.bind thenDo'
    exact elseDo'.map (Expr.conditional condition thenDo)
  | list values =>
    rw [bytes_list]
    apply Awaits.bind (awaits_kind 3 (by decide))
    exact (awaits_seq alone each).map Expr.list
  | dict entries =>
    have entries' := awaits_entries alone fun entry member =>
      each entry.2 (List.mem_map_of_mem member)
    rw [bytes_dict]
    apply Awaits.bind (awaits_kind 4 (by decide))
    exact entries'.map Expr.dict
  | call call =>
    apply Awaits.bind (awaits_kind 8 (by decide))
    exact (awaits_call alone each).map Expr.call
  | pipeline base steps =>
    have base' := each base List.mem_cons_self
    have steps' := awaits_seq alone.1 fun step member => awaits_call (alone.2 step member)
      fun part isPart => each part
        (List.mem_cons_of_mem _ (List.mem_flatMap.2 ⟨step, member, isPart⟩))
    rw [bytes_pipeline]
    apply Awaits.bind (awaits_kind 9 (by decide))
    apply Awaits.bind base'
    exact steps'.map (Expr.pipeline base)

/-- A depth that is used up also asks for more, so it need not be enough for the expression. -/
theorem awaits_expr {expr : Expr} (fits : expr.Fits) (depth : Nat) :
    Awaits (readExpr depth) expr.bytes expr := by
  induction fits generalizing depth with
  | @intro expr alone _ partsAwait =>
    cases depth with
    | zero =>
      intro given more isPrefix
      exact Or.inl rfl
    | succ depth => exact awaits_exprWith alone fun part isPart => partsAwait part isPart depth

theorem awaits_statement {statement : Statement Expr} (name : ShortText statement.name)
    (body : Awaits read statement.body.bytes statement.body) :
    Awaits (readStatement read) (statementBytes statement) statement := by
  unfold readStatement
  apply Awaits.bind (awaits_text name)
  exact body.map (Statement.mk statement.name)

theorem awaits_query {query : Query} (fits : query.Fits) :
    Awaits readQuery query.toBytes query := by
  intro given more isPrefix
  rw [Query.toBytes_eq, ← List.append_assoc (putNumber _)] at isPrefix ⊢
  have statements := awaits_seq fits.short fun statement member =>
    awaits_statement (fits.names statement member)
      (awaits_expr (fits.bodies statement member) (given.length + 1))
  have final := (awaits_expr fits.final (given.length + 1)).map (Query.mk query.statements)
  exact (statements.bind final) given more isPrefix

end Query.Binary

/-- A query cut short anywhere is no query, and nothing but its end is found wrong with it. -/
theorem Query.ofBytes_cut_short {query : Query} (fits : query.Fits) {bytes : Bytes}
    (isPrefix : bytes <+: query.toBytes) (strict : bytes ≠ query.toBytes) :
    Query.ofBytes bytes = .error .endOfBytes ∧ DecodeError.message .endOfBytes =
      "failed to decode query: Hit the end of buffer, expected more data" := by
  have short := (awaits_query fits).cut_short isPrefix strict
  refine ⟨?_, by decide⟩
  rw [Query.ofBytes, short, Outcome.map_error]

/-- Cut in the middle of a character. -/
theorem Query.sample_cut_short : sample.toBytes.take 5 = [1, 7, 103, 114, 195] ∧
    Query.ofBytes [1, 7, 103, 114, 195] = .error .endOfBytes := by
  have cut : sample.toBytes.take 5 = [1, 7, 103, 114, 195] := by decide +kernel
  have isPrefix : [1, 7, 103, 114, 195] <+: sample.toBytes := cut ▸ List.take_prefix ..
  refine ⟨cut, (Query.ofBytes_cut_short fits_sample isPrefix ?_).1⟩
  decide +kernel

end QueryGraph
