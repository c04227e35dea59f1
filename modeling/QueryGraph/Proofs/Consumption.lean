import Mathlib.Algebra.GroupWithZero.Nat
import QueryGraph.Proofs.Codec

namespace QueryGraph

open QueryGraph.Number QueryGraph.Query.Binary

namespace Query.Binary

variable {α β : Type}

/-- Whether whatever a reader reads has some relation to the number of bytes that it takes off for
it. -/
def Takes (read : Reader α) (holds : α → Nat → Prop) : Prop :=
  ∀ bytes value rest, read bytes = .ok (value, rest) →
    ∃ used, used + rest.length = bytes.length ∧ holds value used

namespace Takes

variable {read : Reader α} {holds : α → Nat → Prop} {holds' : β → Nat → Prop}

theorem done {value : α} (nothing : holds value 0) :
    Takes (fun bytes => .ok (value, bytes)) holds := by
  rintro bytes _ _ ⟨⟩
  exact ⟨0, Nat.zero_add _, nothing⟩

theorem fail (e : DecodeError) : Takes (fun _ => .error e) holds := by
  intro bytes value rest taken
  cases taken

theorem cons (empty : ∀ taken, read [] ≠ .ok taken)
    (others : ∀ byte, Takes (fun bytes => read (byte :: bytes)) fun value used =>
      holds value (used + 1)) : Takes read holds := by
  intro bytes value rest taken
  cases bytes with
  | nil => exact absurd taken (empty _)
  | cons byte bytes =>
    obtain ⟨used, total, related⟩ := others byte bytes value rest taken
    refine ⟨used + 1, ?_, related⟩
    rw [List.length_cons]
    omega

theorem bind {next : α × Bytes → Except DecodeError (β × Bytes)} (first : Takes read holds)
    (second : ∀ value used, holds value used →
      Takes (fun bytes => next (value, bytes)) fun result more => holds' result (used + more)) :
    Takes (fun bytes => read bytes >>= next) holds' := by
  intro bytes result rest taken
  obtain ⟨⟨value, middle⟩, taken, taken'⟩ := Outcome.bind_eq_ok.1 taken
  obtain ⟨used, total, related⟩ := first bytes value middle taken
  obtain ⟨more, total', related'⟩ := second value used related middle result rest taken'
  exact ⟨used + more, by omega, related'⟩

theorem mono {holds' : α → Nat → Prop} (takes : Takes read holds)
    (weaker : ∀ value used, holds value used → holds' value used) : Takes read holds' := by
  intro bytes value rest taken
  obtain ⟨used, total, related⟩ := takes bytes value rest taken
  exact ⟨used, total, weaker value used related⟩

theorem map {f : α → β} (takes : Takes read holds)
    (related : ∀ value used, holds value used → holds' (f value) used) :
    Takes (fun bytes => do
      let (value, bytes) ← read bytes
      return (f value, bytes)) holds' :=
  takes.bind fun value used held => .done (related value used held)

end Takes

theorem takes_groups (last groups : Nat) :
    Takes (readGroups last (groups + 1)) fun n used =>
      n < 128 ^ groups * (last + 1) ∧ 0 < used ∧ n < 128 ^ used := by
  induction groups with
  | zero =>
    refine .cons (by simp [readGroups]) fun byte => ?_
    by_cases single : byte.toNat < 128
    · by_cases within : last < byte.toNat
      · simpa [readGroups, single, within] using Takes.fail .badNumber
      · simp only [readGroups, if_pos single, true_and, if_neg within]
        exact .done ⟨by omega, by omega, by omega⟩
    · simpa [readGroups, single] using Takes.fail .badNumber
  | succ groups ih =>
    refine .cons (by simp [readGroups]) fun byte => ?_
    have below := byte.toNat_lt
    by_cases single : byte.toNat < 128
    · have positive : 0 < 128 ^ groups * (last + 1) :=
        Nat.mul_pos (Nat.pow_pos (by decide)) (Nat.succ_pos last)
      simp only [readGroups, if_pos single, Nat.succ_ne_zero, false_and, if_false]
      exact .done ⟨by rw [Nat.pow_succ, Nat.mul_right_comm]; omega, by omega, by omega⟩
    · simp only [readGroups, if_neg single]
      apply ih.map (f := fun high => byte.toNat - 128 + 128 * high)
      rintro high used ⟨fits, _, bounded⟩
      rw [Nat.pow_succ, Nat.pow_succ, Nat.mul_right_comm]
      exact ⟨by omega, by omega, by omega⟩

theorem length_putGroups_le {k n : Nat} (fits : n < 128 ^ (k + 1)) (more : Nat) :
    (putGroups more n).length ≤ k + 1 := by
  induction k generalizing n more with
  | zero => simp [putGroups_small fits]
  | succ k ih =>
    cases more with
    | zero => simp [putGroups]
    | succ more =>
      have high : n / 128 < 128 ^ (k + 1) := by
        rw [Nat.div_lt_iff_lt_mul (by omega), ← Nat.pow_succ]
        exact fits
      by_cases single : n < 128
      · simp [putGroups, single]
      · simpa [putGroups, single] using ih high more

/-- Groups that carry nothing are not written again. Nor does a smaller number take more. -/
theorem takes_number : Takes readNumber fun n used =>
    n < 2 ^ 64 ∧ ∀ m ≤ n, (putNumber m).length ≤ used := by
  apply (takes_groups 1 9).mono
  rintro n used ⟨fits, positive, bounded⟩
  refine ⟨fits, fun m le => ?_⟩
  obtain ⟨k, rfl⟩ := Nat.exists_eq_add_one.2 positive
  exact length_putGroups_le (Nat.lt_of_le_of_lt le bounded) m

theorem takes_kind : Takes readKind fun _ used => 0 < used :=
  (takes_groups 15 4).mono fun _ _ held => held.2.1

theorem takes_byte : Takes readByte fun _ used => used = 1 :=
  .cons nofun fun _ => .done rfl

theorem takes_bytes (count : Nat) : Takes (readBytes count) fun bytes used =>
    bytes.length = count ∧ used = count := by
  induction count with
  | zero => exact .done ⟨rfl, rfl⟩
  | succ count ih =>
    refine .cons nofun fun byte => ?_
    apply ih.map
    rintro bytes used ⟨length, exactly⟩
    exact ⟨by rw [List.length_cons, length], by rw [exactly]⟩

theorem toUTF8_of_fromUTF8 {bytes : Bytes} {text : String}
    (decoded : String.fromUTF8? ⟨bytes.toArray⟩ = some text) : text.toUTF8.data.toList = bytes := by
  unfold String.fromUTF8? at decoded
  split at decoded
  · cases decoded
    rfl
  · cases decoded

theorem takes_text : Takes readText fun text used =>
    ShortText text ∧ (putText text).length ≤ used := by
  unfold readText
  apply takes_number.bind
  rintro length used ⟨short, room⟩
  apply (takes_bytes length).bind
  rintro bytes _ ⟨rfl, rfl⟩
  cases decoded : String.fromUTF8? ⟨bytes.toArray⟩ with
  | none =>
    simp only [decoded]
    exact .fail .badText
  | some text =>
    simp only [decoded]
    have same := toUTF8_of_fromUTF8 decoded
    have size : text.utf8ByteSize = bytes.length := congrArg List.length same
    refine .done ⟨by rwa [ShortText, size], ?_⟩
    have number := room _ (Nat.le_refl _)
    rw [putText, same, List.length_append]
    omega

theorem takes_bool : Takes readBool fun value used => (putBool value).length ≤ used := by
  unfold readBool
  apply takes_byte.bind
  rintro byte _ rfl
  by_cases no : byte = 0
  · simp only [if_pos no]
    exact .done (Nat.le_refl _)
  · by_cases yes : byte = 1
    · simp only [if_neg no, if_pos yes]
      exact .done (Nat.le_refl _)
    · simp only [if_neg no, if_neg yes]
      exact .fail .badBool

theorem zigzag_unzigzag (z : Nat) : zigzag (unzigzag z) = z := by
  by_cases even : z % 2 = 0
  · simp only [unzigzag, if_pos even, zigzag]
    omega
  · simp only [unzigzag, if_neg even, zigzag]
    omega

theorem toInt_unzigzag {z : Nat} (fits : z < 2 ^ 64) :
    (Int64.ofInt (unzigzag z)).toInt = unzigzag z := by
  apply Int64.toInt_ofInt_of_le
  · unfold unzigzag
    split <;> simp only [Int.ofNat_eq_natCast, Int.negSucc_eq] <;> omega
  · unfold unzigzag
    split <;> simp only [Int.ofNat_eq_natCast, Int.negSucc_eq] <;> omega

theorem takes_constant : Takes readConstant fun value used =>
    value.Fits ∧ (putConstant value).length ≤ used := by
  unfold readConstant
  apply takes_kind.bind
  intro kind one positive
  match kind with
  | 0 =>
    apply takes_number.map (f := fun z => Constant.int (Int64.ofInt (unzigzag z)))
    rintro z used ⟨fits, room⟩
    have number := room z (Nat.le_refl z)
    refine ⟨trivial, ?_⟩
    rw [putConstant, toInt_unzigzag fits, zigzag_unzigzag, List.length_cons]
    omega
  | 1 =>
    apply (takes_bytes 8).map (f := fun fixed => Constant.double ⟨UInt64.ofNat (ofFixed fixed)⟩)
    rintro fixed _ ⟨-, rfl⟩
    refine ⟨trivial, ?_⟩
    rw [putConstant, List.length_cons, length_putFixed]
    omega
  | 2 =>
    apply takes_bool.map
    intro value used room
    refine ⟨trivial, ?_⟩
    rw [putConstant, List.length_cons]
    omega
  | 3 =>
    apply takes_text.map
    rintro text used ⟨short, room⟩
    refine ⟨short, ?_⟩
    rw [putConstant, List.length_cons]
    omega
  | _ + 4 => exact .fail .unknownKind

section

variable {item : Reader α} {fits : α → Prop} {put : α → Bytes}

theorem takes_many (each : Takes item fun value used => fits value ∧ (put value).length ≤ used)
    (count : Nat) : Takes (readMany item count) fun values used =>
      values.length = count ∧ (∀ value ∈ values, fits value) ∧
        (values.flatMap put).length ≤ used := by
  induction count with
  | zero => exact .done ⟨rfl, by simp, Nat.zero_le _⟩
  | succ count ih =>
    show Takes (fun bytes => readMany item (count + 1) bytes) _
    unfold readMany
    apply each.bind
    rintro first one ⟨firstFits, firstRoom⟩
    apply ih.map
    rintro others used ⟨length, othersFit, room⟩
    refine ⟨by rw [List.length_cons, length], List.forall_mem_cons.2 ⟨firstFits, othersFit⟩, ?_⟩
    rw [List.flatMap_cons, List.length_append]
    omega

theorem takes_seq (each : Takes item fun value used => fits value ∧ (put value).length ≤ used) :
    Takes (readSeq item) fun values used =>
      values.length < 2 ^ 64 ∧ (∀ value ∈ values, fits value) ∧
        ∀ m ≤ values.length, (putNumber m).length + (values.flatMap put).length ≤ used := by
  unfold readSeq
  apply takes_number.bind
  rintro count one ⟨short, countRoom⟩
  apply (takes_many each count).mono
  rintro values used ⟨rfl, valuesFit, room⟩
  refine ⟨short, valuesFit, fun m le => ?_⟩
  have number := countRoom m le
  omega

end

end Query.Binary

namespace Entries

variable {α : Type} (weight : String × α → Nat)

theorem sum_insert_le (key : String) (value : α) (entries : Entries α) :
    ((insert key value entries).map weight).sum ≤
      (entries.map weight).sum + weight (key, value) := by
  induction entries with
  | nil => simp [insert]
  | cons entry rest ih =>
    unfold insert
    split_ifs with same
    · simp only [List.map_cons, List.sum_cons]
      omega
    · simp only [List.map_cons, List.sum_cons]
      omega

theorem sum_ofList_le (pairs : List (String × α)) :
    ((ofList pairs).map weight).sum ≤ (pairs.map weight).sum := by
  have grown (sofar : Entries α) :
      ((insertAll sofar pairs).map weight).sum ≤
        (sofar.map weight).sum + (pairs.map weight).sum := by
    induction pairs generalizing sofar with
    | nil => exact Nat.le_refl _
    | cons pair rest ih =>
      have one : _ ≤ _ + weight pair := sum_insert_le weight pair.1 pair.2 sofar
      have others := ih (insert pair.1 pair.2 sofar)
      rw [List.map_cons, List.sum_cons]
      exact Nat.le_trans others (by omega)
  have all := grown []
  rwa [List.map_nil, List.sum_nil, Nat.zero_add] at all

theorem length_ofList_le (pairs : List (String × α)) : (ofList pairs).length ≤ pairs.length := by
  simpa using sum_ofList_le (fun _ => 1) pairs

end Entries

namespace Query.Binary

variable {read : Reader Expr}

/-- One entry of a dictionary. -/
def readEntry (expr : Reader Expr) : Reader (String × Expr) := fun bytes => do
  let (key, bytes) ← readText bytes
  let (value, bytes) ← expr bytes
  return ((key, value), bytes)

theorem takes_entry (part : Takes read fun expr used => expr.Fits ∧ expr.bytes.length ≤ used) :
    Takes (readEntry read) fun entry used =>
      (ShortText entry.1 ∧ entry.2.Fits) ∧ (entryBytes entry).length ≤ used := by
  unfold readEntry
  apply takes_text.bind
  rintro key one ⟨short, keyRoom⟩
  apply part.map
  rintro value used ⟨fits, room⟩
  refine ⟨⟨short, fits⟩, ?_⟩
  simp only [entryBytes, List.length_append]
  omega

theorem takes_entries (part : Takes read fun expr used => expr.Fits ∧ expr.bytes.length ≤ used) :
    Takes (readEntries read) fun entries used =>
      EntriesFit entries ∧ (∀ entry ∈ entries, entry.2.Fits) ∧
        (putNumber entries.length).length + (entries.flatMap entryBytes).length ≤ used := by
  unfold readEntries
  apply (takes_seq (takes_entry part)).map
  rintro pairs used ⟨short, each, room⟩
  have fewer := Entries.length_ofList_le pairs
  have smaller := Entries.sum_ofList_le (fun entry => (entryBytes entry).length) pairs
  have number := room _ fewer
  rw [← List.length_flatMap, ← List.length_flatMap] at smaller
  refine ⟨⟨by omega, ?_, Entries.nodup_keys_ofList pairs⟩, ?_, by omega⟩
  · intro entry member
    exact (each entry (Entries.mem_of_mem_ofList member)).1
  · intro entry member
    exact (each entry (Entries.mem_of_mem_ofList member)).2

theorem takes_operand (part : Takes read fun expr used => expr.Fits ∧ expr.bytes.length ≤ used) :
    Takes (readOperand read) fun operand used =>
      (∀ value ∈ operand, value.Fits) ∧ (operandBytes operand).length ≤ used := by
  unfold readOperand
  apply takes_byte.bind
  rintro byte _ rfl
  by_cases no : byte = 0
  · simp only [if_pos no]
    exact .done ⟨nofun, Nat.le_refl _⟩
  · by_cases yes : byte = 1
    · simp only [if_neg no, if_pos yes]
      apply part.map
      rintro value used ⟨fits, room⟩
      refine ⟨by rintro _ ⟨⟩; exact fits, ?_⟩
      rw [operandBytes, putOperand, List.length_cons, ← Expr.bytes]
      omega
    · simp only [if_neg no, if_neg yes]
      exact .fail .badOption

theorem takes_call (part : Takes read fun expr used => expr.Fits ∧ expr.bytes.length ≤ used) :
    Takes (readCall read) fun call used =>
      (call.Fits ∧ ∀ value ∈ call.parts, value.Fits) ∧ call.bytes.length ≤ used := by
  unfold readCall
  apply (takes_operand part).bind
  rintro operand one ⟨operandFits, operandRoom⟩
  apply takes_text.bind
  rintro space two ⟨spaceShort, spaceRoom⟩
  apply takes_text.bind
  rintro name three ⟨nameShort, nameRoom⟩
  apply (takes_entries part).map
  rintro arguments used ⟨argumentsFit, valuesFit, room⟩
  refine ⟨⟨⟨spaceShort, nameShort, argumentsFit⟩, List.forall_mem_append.2 ⟨?_, ?_⟩⟩, ?_⟩
  · intro value given
    exact operandFits value (Option.mem_toList.1 given)
  · intro value isArgument
    obtain ⟨entry, member, rfl⟩ := List.mem_map.1 isArgument
    exact valuesFit entry member
  · simp only [Call.bytes_eq, List.length_append]
    omega

theorem takes_exprWith (part : Takes read fun expr used => expr.Fits ∧ expr.bytes.length ≤ used) :
    Takes (readExprWith read) fun expr used => expr.Fits ∧ expr.bytes.length ≤ used := by
  unfold readExprWith
  apply takes_kind.bind
  intro kind one positive
  match kind with
  | 0 =>
    apply takes_constant.map
    rintro value used ⟨fits, room⟩
    refine ⟨.intro fits nofun, ?_⟩
    rw [bytes_atom, List.length_cons]
    omega
  | 1 =>
    apply part.bind
    rintro left two ⟨leftFits, leftRoom⟩
    apply takes_text.bind
    rintro op three ⟨short, opRoom⟩
    apply part.map
    rintro right used ⟨rightFits, room⟩
    refine ⟨.intro short (List.forall_mem_cons.2
      ⟨leftFits, List.forall_mem_singleton.2 rightFits⟩), ?_⟩
    simp only [bytes_binary, List.length_cons, List.length_append]
    omega
  | 2 =>
    apply part.bind
    rintro on two ⟨onFits, onRoom⟩
    apply takes_text.map
    rintro property used ⟨short, room⟩
    refine ⟨.intro short (List.forall_mem_singleton.2 onFits), ?_⟩
    simp only [bytes_lookup, List.length_cons, List.length_append]
    omega
  | 3 =>
    apply (takes_seq part).map
    rintro values used ⟨short, valuesFit, room⟩
    have number := room _ (Nat.le_refl _)
    refine ⟨.intro short valuesFit, ?_⟩
    simp only [bytes_list, List.length_cons, List.length_append]
    omega
  | 4 =>
    apply (takes_entries part).map
    rintro entries used ⟨entriesFit, valuesFit, room⟩
    refine ⟨.intro entriesFit (List.forall_mem_map.2 valuesFit), ?_⟩
    simp only [bytes_dict, List.length_cons, List.length_append]
    omega
  | 5 =>
    apply part.map
    rintro inner used ⟨fits, room⟩
    refine ⟨.intro trivial (List.forall_mem_singleton.2 fits), ?_⟩
    rw [bytes_table, List.length_cons]
    omega
  | 6 =>
    apply takes_text.map
    rintro name used ⟨short, room⟩
    refine ⟨.intro short nofun, ?_⟩
    rw [bytes_reference, List.length_cons]
    omega
  | 7 => exact .done ⟨.intro trivial nofun, positive⟩
  | 8 =>
    apply (takes_call part).map
    rintro call used ⟨⟨fits, partsFit⟩, room⟩
    refine ⟨.intro fits partsFit, ?_⟩
    rw [bytes_call, List.length_cons]
    omega
  | 9 =>
    apply part.bind
    rintro base two ⟨baseFits, baseRoom⟩
    apply (takes_seq (takes_call part)).map
    rintro steps used ⟨short, stepsFit, room⟩
    have number := room _ (Nat.le_refl _)
    refine ⟨.intro ⟨short, fun step member => (stepsFit step member).1⟩
      (List.forall_mem_cons.2 ⟨baseFits, ?_⟩), ?_⟩
    · intro value isPart
      obtain ⟨step, member, isPart⟩ := List.mem_flatMap.1 isPart
      exact (stepsFit step member).2 value isPart
    · simp only [bytes_pipeline, List.length_cons, List.length_append]
      omega
  | 10 =>
    apply part.bind
    rintro condition two ⟨conditionFits, conditionRoom⟩
    apply part.bind
    rintro thenDo three ⟨thenFits, thenRoom⟩
    apply part.map
    rintro elseDo used ⟨elseFits, room⟩
    refine ⟨.intro trivial (List.forall_mem_cons.2 ⟨conditionFits,
      List.forall_mem_cons.2 ⟨thenFits, List.forall_mem_singleton.2 elseFits⟩⟩), ?_⟩
    simp only [bytes_conditional, List.length_cons, List.length_append]
    omega
  | _ + 11 => exact .fail .unknownKind

theorem takes_expr (depth : Nat) :
    Takes (readExpr depth) fun expr used => expr.Fits ∧ expr.bytes.length ≤ used := by
  induction depth with
  | zero => exact .fail .endOfBytes
  | succ depth ih => exact takes_exprWith ih

theorem takes_statement (part : Takes read fun expr used => expr.Fits ∧ expr.bytes.length ≤ used) :
    Takes (readStatement read) fun statement used =>
      (ShortText statement.name ∧ statement.body.Fits) ∧
        (statementBytes statement).length ≤ used := by
  unfold readStatement
  apply takes_text.bind
  rintro name one ⟨short, nameRoom⟩
  apply part.map
  rintro body used ⟨fits, room⟩
  refine ⟨⟨short, fits⟩, ?_⟩
  simp only [statementBytes, List.length_append]
  omega

/-- A query, given the reader of its expressions. -/
def readQueryWith (expr : Reader Expr) : Reader Query := fun bytes => do
  let (statements, bytes) ← readSeq (readStatement expr) bytes
  let (final, bytes) ← expr bytes
  return (⟨statements, final⟩, bytes)

theorem takes_queryWith (part : Takes read fun expr used => expr.Fits ∧ expr.bytes.length ≤ used) :
    Takes (readQueryWith read) fun query used => query.Fits ∧ query.toBytes.length ≤ used := by
  unfold readQueryWith
  apply (takes_seq (takes_statement part)).bind
  rintro statements one ⟨short, each, statementsRoom⟩
  apply part.map
  rintro final used ⟨fits, room⟩
  have number := statementsRoom _ (Nat.le_refl _)
  refine ⟨⟨short, fun statement member => (each statement member).1,
    fun statement member => (each statement member).2, fits⟩, ?_⟩
  simp only [Query.toBytes_eq, List.length_append]
  omega

end Query.Binary

/-- What is read can be written, and is not written any longer than it was. -/
theorem Query.fits_of_ofBytes {bytes : Bytes} {query : Query}
    (decoded : Query.ofBytes bytes = .ok query) :
    query.Fits ∧ query.toBytes.length ≤ bytes.length := by
  obtain ⟨⟨_, rest⟩, taken, rfl⟩ := Outcome.map_eq_ok.1 decoded
  obtain ⟨used, total, fits, room⟩ := takes_queryWith (takes_expr _) bytes _ rest taken
  exact ⟨fits, Nat.le_trans room (by omega)⟩

end QueryGraph
