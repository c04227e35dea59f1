import Mathlib.Algebra.Group.Int.Defs
import Mathlib.Algebra.Group.Nat.Defs
import QueryGraph.Proofs.Parts
import QueryGraph.Proofs.WellFormed
import QueryGraph.Query.Binary

namespace QueryGraph

open QueryGraph.Number QueryGraph.Query.Binary

namespace Query.Binary

/-- Whether a reader takes some bytes for a value, whatever stands behind them. -/
def Reads {α : Type} (read : Reader α) (bytes : Bytes) (value : α) : Prop :=
  ∀ rest, read (bytes ++ rest) = .ok (value, rest)

theorem putGroups_small {n : Nat} (small : n < 128) (more : Nat) :
    putGroups more n = [UInt8.ofNat n] := by
  cases more with
  | zero => rfl
  | succ more => simp only [putGroups, if_pos small]

theorem reads_groups {last groups more n : Nat} (small : last < 128)
    (fits : n < 128 ^ groups * (last + 1)) (enough : n ≤ more) :
    Reads (readGroups last (groups + 1)) (putGroups more n) n := by
  intro rest
  induction groups generalizing n more with
  | zero =>
    rw [Nat.pow_zero, Nat.one_mul] at fits
    have value : n % 256 = n := by omega
    have single : n < 128 := by omega
    have within : ¬ last < n := by omega
    rw [putGroups_small single]
    simp [readGroups, value, single, within]
  | succ groups ih =>
    by_cases single : n < 128
    · have value : n % 256 = n := by omega
      rw [putGroups_small single]
      simp [readGroups, value, single]
    · cases more with
      | zero => omega
      | succ more =>
        have high : n / 128 < 128 ^ groups * (last + 1) := by
          rw [Nat.div_lt_iff_lt_mul (by omega), Nat.mul_right_comm, ← Nat.pow_succ]
          exact fits
        have low : (UInt8.ofNat (n % 128 + 128)).toNat = n % 128 + 128 := by
          rw [UInt8.toNat_ofNat', Nat.mod_eq_of_lt (by omega)]
        have enough' : n / 128 ≤ more := by omega
        have others := ih high enough'
        simp only [putGroups, if_neg single, List.cons_append, readGroups, low, others,
          Outcome.ok_bind, Outcome.pure_eq]
        rw [if_neg (by omega)]
        congr 2
        omega

theorem reads_number {n : Nat} (fits : n < 2 ^ 64) : Reads readNumber (putNumber n) n :=
  reads_groups (by decide) fits (Nat.le_refl n)

theorem readKind_cons (kind : UInt8) (small : kind.toNat < 128) (rest : Bytes) :
    readKind (kind :: rest) = .ok (kind.toNat, rest) := by
  simp [readKind, readGroups, small]

theorem reads_bytes (bytes : Bytes) : Reads (readBytes bytes.length) bytes bytes := by
  intro rest
  induction bytes with
  | nil => rfl
  | cons byte bytes ih => simp [readBytes, ih]

theorem length_putFixed (count n : Nat) : (putFixed count n).length = count := by
  induction count generalizing n with
  | zero => rfl
  | succ count ih => simp [putFixed, ih]

theorem ofFixed_putFixed {count n : Nat} (fits : n < 256 ^ count) :
    ofFixed (putFixed count n) = n := by
  induction count generalizing n with
  | zero => simpa [putFixed, ofFixed, eq_comm] using fits
  | succ count ih =>
    have high : n / 256 < 256 ^ count := by
      rw [Nat.div_lt_iff_lt_mul (by omega), ← Nat.pow_succ]
      exact fits
    simp only [putFixed, ofFixed, ih high, UInt8.toNat_ofNat', Nat.reducePow]
    omega

theorem reads_text {text : String} (short : text.utf8ByteSize < 2 ^ 64) :
    Reads readText (putText text) text := by
  intro rest
  have length : text.toUTF8.data.toList.length = text.utf8ByteSize := rfl
  have decoded : String.fromUTF8? ⟨text.toUTF8.data.toList.toArray⟩ = some text := by
    simp [String.fromUTF8?, String.toUTF8, text.isValidUTF8, String.fromUTF8]
  simp only [readText, putText, List.append_assoc, reads_number (length ▸ short) _,
    reads_bytes _ _, Outcome.ok_bind, decoded, Outcome.pure_eq]

theorem reads_bool (value : Bool) : Reads readBool (putBool value) value := by
  intro rest
  cases value <;> rfl

theorem zigzag_lt {n : Int} (least : -2 ^ 63 ≤ n) (most : n < 2 ^ 63) : zigzag n < 2 ^ 64 := by
  cases n with
  | ofNat k =>
    simp only [zigzag, Int.ofNat_eq_natCast] at most ⊢
    omega
  | negSucc k =>
    simp only [zigzag] at least ⊢
    omega

end Query.Binary

/-- Whether the length of a text can be written. -/
def ShortText (text : String) : Prop :=
  text.utf8ByteSize < 2 ^ 64

instance (text : String) : Decidable (ShortText text) :=
  inferInstanceAs (Decidable (text.utf8ByteSize < 2 ^ 64))

def Constant.Fits : Constant → Prop
  | .string value => ShortText value
  | _ => True

namespace Query.Binary

theorem reads_constant {value : Constant} (fits : value.Fits) :
    Reads readConstant (putConstant value) value := by
  intro rest
  cases value with
  | int value =>
    have number := reads_number (zigzag_lt value.le_toInt value.toInt_lt) rest
    simp only [readConstant, putConstant, List.cons_append, readKind_cons 0 (by decide),
      number, Outcome.ok_bind]
    simp [unzigzag_zigzag]
  | double value =>
    have eight := length_putFixed 8 value.bits.toNat
    have bytes := reads_bytes (putFixed 8 value.bits.toNat) rest
    rw [eight] at bytes
    have bits : ofFixed (putFixed 8 value.bits.toNat) = value.bits.toNat :=
      ofFixed_putFixed value.bits.toNat_lt
    simp only [readConstant, putConstant, List.cons_append, readKind_cons 1 (by decide),
      Outcome.ok_bind]
    simp [bytes, bits]
  | bool value =>
    simp only [readConstant, putConstant, List.cons_append, readKind_cons 2 (by decide),
      Outcome.ok_bind]
    simp [reads_bool value rest]
  | string value =>
    simp only [readConstant, putConstant, List.cons_append, readKind_cons 3 (by decide),
      Outcome.ok_bind]
    simp [reads_text fits rest]

theorem reads_many {α : Type} {read : Reader α} {put : α → Bytes} {items : List α}
    (each : ∀ item ∈ items, Reads read (put item) item) :
    Reads (readMany read items.length) (items.flatMap put) items := by
  intro rest
  induction items with
  | nil => rfl
  | cons item items ih =>
    have first := each item List.mem_cons_self (items.flatMap put ++ rest)
    have others := ih fun item member => each item (List.mem_cons_of_mem _ member)
    simp [readMany, first, others]

theorem reads_seq {α : Type} {read : Reader α} {put : α → Bytes} {items : List α}
    (short : items.length < 2 ^ 64) (each : ∀ item ∈ items, Reads read (put item) item) :
    Reads (readSeq read) (putNumber items.length ++ items.flatMap put) items := by
  intro rest
  simp only [readSeq, List.append_assoc, reads_number short _, Outcome.ok_bind]
  exact reads_many each rest

end Query.Binary

def Expr.bytes (expr : Expr) : Bytes :=
  putExpr expr []

def Call.bytes (call : Call) : Bytes :=
  putCall call []

def entryBytes (entry : String × Expr) : Bytes :=
  putText entry.1 ++ entry.2.bytes

def statementBytes (statement : Statement Expr) : Bytes :=
  putText statement.name ++ statement.body.bytes

def operandBytes (operand : Option Expr) : Bytes :=
  putOperand operand []

namespace Query.Binary

mutual

theorem putExpr_eq : ∀ (expr : Expr) (rest : Bytes), putExpr expr rest = expr.bytes ++ rest
  | .atom _, _ | .reference _, _ | .placeholder, _ => by simp [Expr.bytes, putExpr]
  | .binary left op right, rest => by
    rw [Expr.bytes]
    simp [putExpr, putExpr_eq left, putExpr_eq right]
  | .lookup on property, rest => by
    rw [Expr.bytes]
    simp [putExpr, putExpr_eq on]
  | .list values, rest => by
    rw [Expr.bytes]
    simp [putExpr, putList_eq values]
  | .dict values, rest => by
    rw [Expr.bytes]
    simp [putExpr, putEntries_eq values]
  | .table inner, rest => by
    rw [Expr.bytes]
    simp [putExpr, putExpr_eq inner]
  | .call call, rest => by
    rw [Expr.bytes]
    simp [putExpr, putCall_eq call]
  | .pipeline base steps, rest => by
    rw [Expr.bytes]
    simp [putExpr, putExpr_eq base, putCalls_eq steps]
  | .conditional condition thenDo elseDo, rest => by
    rw [Expr.bytes]
    simp [putExpr, putExpr_eq condition, putExpr_eq thenDo, putExpr_eq elseDo]

theorem putList_eq : ∀ (values : List Expr) (rest : Bytes),
    putList values rest = values.flatMap Expr.bytes ++ rest
  | [], _ => rfl
  | value :: others, rest => by simp [putList, putExpr_eq value, putList_eq others]

theorem putEntries_eq : ∀ (entries : List (String × Expr)) (rest : Bytes),
    putEntries entries rest = entries.flatMap entryBytes ++ rest
  | [], _ => rfl
  | (key, value) :: others, rest => by
    simp [putEntries, entryBytes, putExpr_eq value, putEntries_eq others]

theorem putOperand_eq : ∀ (operand : Option Expr) (rest : Bytes),
    putOperand operand rest = operandBytes operand ++ rest
  | none, _ => rfl
  | some value, rest => by
    rw [operandBytes]
    simp [putOperand, putExpr_eq value]

theorem putCall_eq : ∀ (call : Call) (rest : Bytes), putCall call rest = call.bytes ++ rest
  | { operand, space, name, arguments }, rest => by
    rw [Call.bytes]
    simp [putCall, putOperand_eq operand, putEntries_eq arguments]

theorem putCalls_eq : ∀ (calls : List Call) (rest : Bytes),
    putCalls calls rest = calls.flatMap Call.bytes ++ rest
  | [], _ => rfl
  | call :: others, rest => by simp [putCalls, putCall_eq call, putCalls_eq others]

end

theorem putStatements_eq (statements : List (Statement Expr)) (rest : Bytes) :
    statements.foldr putStatement rest = statements.flatMap statementBytes ++ rest := by
  induction statements with
  | nil => rfl
  | cons statement others ih => simp [putStatement, statementBytes, putExpr_eq, ih]

end Query.Binary

section

variable (left right on inner base condition thenDo elseDo : Expr) (values : List Expr)
  (entries : List (String × Expr)) (steps : List Call) (call : Call) (value : Constant)
  (op property name : String)

@[simp] theorem bytes_atom : (Expr.atom value).bytes = 0 :: putConstant value := by
  simp [Expr.bytes, putExpr]

@[simp] theorem bytes_binary :
    (Expr.binary left op right).bytes = 1 :: (left.bytes ++ (putText op ++ right.bytes)) := by
  rw [Expr.bytes, putExpr, putExpr_eq left, putExpr_eq right, List.append_nil]

@[simp] theorem bytes_lookup :
    (Expr.lookup on property).bytes = 2 :: (on.bytes ++ putText property) := by
  rw [Expr.bytes, putExpr, putExpr_eq on, List.append_nil]

@[simp] theorem bytes_list :
    (Expr.list values).bytes = 3 :: (putNumber values.length ++ values.flatMap Expr.bytes) := by
  rw [Expr.bytes, putExpr, putList_eq, List.append_nil]

@[simp] theorem bytes_dict :
    (Expr.dict entries).bytes = 4 :: (putNumber entries.length ++ entries.flatMap entryBytes) := by
  rw [Expr.bytes, putExpr, putEntries_eq, List.append_nil]

@[simp] theorem bytes_table : (Expr.table inner).bytes = 5 :: inner.bytes := by
  rw [Expr.bytes, putExpr, putExpr_eq inner, List.append_nil]

@[simp] theorem bytes_reference : (Expr.reference name).bytes = 6 :: putText name := by
  simp [Expr.bytes, putExpr]

@[simp] theorem bytes_placeholder : Expr.placeholder.bytes = [7] :=
  rfl

@[simp] theorem bytes_call : (Expr.call call).bytes = 8 :: call.bytes :=
  rfl

@[simp] theorem bytes_pipeline : (Expr.pipeline base steps).bytes =
    9 :: (base.bytes ++ (putNumber steps.length ++ steps.flatMap Call.bytes)) := by
  rw [Expr.bytes, putExpr, putExpr_eq base, putCalls_eq, List.append_nil]

@[simp] theorem bytes_conditional : (Expr.conditional condition thenDo elseDo).bytes =
    10 :: (condition.bytes ++ (thenDo.bytes ++ elseDo.bytes)) := by
  rw [Expr.bytes, putExpr, putExpr_eq condition, putExpr_eq thenDo, putExpr_eq elseDo,
    List.append_nil]

theorem Call.bytes_eq : call.bytes = operandBytes call.operand ++ (putText call.space ++
    (putText call.name ++
      (putNumber call.arguments.length ++ call.arguments.flatMap entryBytes))) := by
  cases call
  rw [Call.bytes, putCall, putOperand_eq, putEntries_eq, List.append_nil]

theorem Query.toBytes_eq (query : Query) : query.toBytes =
    putNumber query.statements.length ++
      (query.statements.flatMap statementBytes ++ query.final.bytes) := by
  rw [Query.toBytes, putQuery, putStatements_eq, putExpr_eq, List.append_nil]

end

/-- Whether a dictionary can be written: its keys are distinct, and all lengths fit. -/
structure EntriesFit (entries : List (String × Expr)) : Prop where
  short : entries.length < 2 ^ 64
  keys : ∀ entry ∈ entries, ShortText entry.1
  distinct : (Entries.keys entries).Nodup

/-- Whether an operator call can be written, but for the expressions that are part of it. -/
structure Call.Fits (call : Call) : Prop where
  space : ShortText call.space
  name : ShortText call.name
  arguments : EntriesFit call.arguments

/-- Whether an expression can be written, but for those that it is made of. -/
def Expr.FitsAlone : Expr → Prop
  | .atom value => value.Fits
  | .binary _ text _ | .lookup _ text | .reference text => ShortText text
  | .list values => values.length < 2 ^ 64
  | .dict entries => EntriesFit entries
  | .call step => step.Fits
  | .pipeline _ steps => steps.length < 2 ^ 64 ∧ ∀ step ∈ steps, step.Fits
  | .table _ | .placeholder | .conditional _ _ _ => True

/-- Whether an expression can be written: no length exceeds 64 bits, and no dictionary has a key
twice. -/
inductive Expr.Fits : Expr → Prop where
  | intro {expr : Expr} (alone : expr.FitsAlone) (parts : ∀ part ∈ expr.parts, Fits part) :
      Fits expr

structure Query.Fits (query : Query) : Prop where
  short : query.statements.length < 2 ^ 64
  names : ∀ statement ∈ query.statements, ShortText statement.name
  bodies : ∀ statement ∈ query.statements, statement.body.Fits
  final : query.final.Fits

namespace Query.Binary

variable {read : Reader Expr}

theorem reads_entry {entry : String × Expr} (key : ShortText entry.1)
    (value : Reads read entry.2.bytes entry.2) :
    Reads (fun bytes => do
      let (key, bytes) ← readText bytes
      let (value, bytes) ← read bytes
      return ((key, value), bytes)) (entryBytes entry) entry := by
  intro rest
  simp [entryBytes, reads_text key _, value rest]

theorem reads_entries {entries : List (String × Expr)} (fits : EntriesFit entries)
    (each : ∀ entry ∈ entries, Reads read entry.2.bytes entry.2) :
    Reads (readEntries read) (putNumber entries.length ++ entries.flatMap entryBytes)
      entries := by
  intro rest
  have pairs := reads_seq fits.short
    (fun entry member => reads_entry (fits.keys entry member) (each entry member)) rest
  rw [readEntries, pairs]
  simp [Entries.ofList_of_distinct fits.distinct]

theorem reads_operand {operand : Option Expr}
    (each : ∀ value ∈ operand, Reads read value.bytes value) :
    Reads (readOperand read) (operandBytes operand) operand := by
  intro rest
  cases operand with
  | none => rfl
  | some value => simp [readOperand, operandBytes, putOperand, putExpr_eq, readByte, each value rfl _]

theorem reads_call {call : Call} (fits : call.Fits)
    (each : ∀ part ∈ call.parts, Reads read part.bytes part) :
    Reads (readCall read) call.bytes call := by
  intro rest
  have operand := reads_operand fun value given =>
    each value (List.mem_append_left _ (Option.mem_toList.2 given))
  have arguments := reads_entries fits.arguments fun entry member =>
    each entry.2 (List.mem_append_right _ (List.mem_map_of_mem member))
  have arguments' := arguments rest
  rw [List.append_assoc] at arguments'
  simp only [Call.bytes_eq, readCall, List.append_assoc, operand _, reads_text fits.space _,
    reads_text fits.name _, arguments', Outcome.ok_bind, Outcome.pure_eq]
  cases call
  rfl

theorem length_le_of_mem {α : Type} (put : α → Bytes) {items : List α} {item : α}
    (member : item ∈ items) : (put item).length ≤ (items.flatMap put).length := by
  obtain ⟨before, after, rfl⟩ := List.append_of_mem member
  simp only [List.flatMap_append, List.flatMap_cons, List.length_append]
  omega

theorem length_le_of_entry {entries : List (String × Expr)} {entry : String × Expr}
    (member : entry ∈ entries) : entry.2.bytes.length ≤ (entries.flatMap entryBytes).length := by
  have within := length_le_of_mem entryBytes member
  rw [entryBytes, List.length_append] at within
  omega

theorem length_le_of_part {call : Call} {part : Expr} (isPart : part ∈ call.parts) :
    part.bytes.length ≤ call.bytes.length := by
  rw [Call.bytes_eq]
  simp only [List.length_append]
  rcases List.mem_append.1 isPart with isOperand | isArgument
  · have given := Option.mem_toList.1 isOperand
    rw [Option.mem_def.1 given]
    simp only [operandBytes, putOperand, List.length_cons]
    rw [← Expr.bytes]
    omega
  · obtain ⟨entry, member, rfl⟩ := List.mem_map.1 isArgument
    have within := length_le_of_entry member
    omega

theorem length_lt_of_part {expr part : Expr} (isPart : part ∈ expr.parts) :
    part.bytes.length < expr.bytes.length := by
  cases expr with
  | atom | reference | placeholder => cases isPart
  | table inner =>
    cases List.mem_singleton.1 isPart
    simp
  | lookup on =>
    cases List.mem_singleton.1 isPart
    simp only [bytes_lookup, List.length_cons, List.length_append]
    omega
  | binary left op right =>
    simp only [Expr.parts, List.mem_cons, List.not_mem_nil, or_false] at isPart
    simp only [bytes_binary, List.length_cons, List.length_append]
    rcases isPart with rfl | rfl <;> omega
  | conditional condition thenDo elseDo =>
    simp only [Expr.parts, List.mem_cons, List.not_mem_nil, or_false] at isPart
    simp only [bytes_conditional, List.length_cons, List.length_append]
    rcases isPart with rfl | rfl | rfl <;> omega
  | list values =>
    have member : part ∈ values := isPart
    have within := length_le_of_mem Expr.bytes member
    simp only [bytes_list, List.length_cons, List.length_append]
    omega
  | dict entries =>
    obtain ⟨entry, member, rfl⟩ := List.mem_map.1 isPart
    have within := length_le_of_entry member
    simp only [bytes_dict, List.length_cons, List.length_append]
    omega
  | call call =>
    have within := length_le_of_part isPart
    simp only [bytes_call, List.length_cons]
    omega
  | pipeline base steps =>
    simp only [bytes_pipeline, List.length_cons, List.length_append]
    rcases List.mem_cons.1 isPart with rfl | isPart
    · omega
    · obtain ⟨step, member, isPart⟩ := List.mem_flatMap.1 isPart
      have stepWithin := length_le_of_mem Call.bytes member
      have within := length_le_of_part isPart
      omega

theorem reads_exprWith {expr : Expr} (alone : expr.FitsAlone)
    (each : ∀ part ∈ expr.parts, Reads read part.bytes part) :
    Reads (readExprWith read) expr.bytes expr := by
  intro rest
  cases expr with
  | atom value => simp [readExprWith, readKind_cons, reads_constant alone rest]
  | reference name => simp [readExprWith, readKind_cons, reads_text alone rest]
  | placeholder => simp [readExprWith, readKind_cons]
  | table inner =>
    have inner' := each inner (by simp [Expr.parts])
    simp [readExprWith, readKind_cons, inner' rest]
  | lookup on property =>
    have on' := each on (by simp [Expr.parts])
    simp [readExprWith, readKind_cons, on' _, reads_text alone rest]
  | binary left op right =>
    have left' := each left (by simp [Expr.parts])
    have right' := each right (by simp [Expr.parts])
    simp [readExprWith, readKind_cons, left' _, reads_text alone _, right' rest]
  | conditional condition thenDo elseDo =>
    have condition' := each condition (by simp [Expr.parts])
    have thenDo' := each thenDo (by simp [Expr.parts])
    have elseDo' := each elseDo (by simp [Expr.parts])
    simp [readExprWith, readKind_cons, condition' _, thenDo' _, elseDo' rest]
  | list values =>
    have values' := reads_seq alone each rest
    rw [List.append_assoc] at values'
    simp [readExprWith, readKind_cons, values']
  | dict entries =>
    have entries' := reads_entries alone
      (fun entry member => each entry.2 (List.mem_map_of_mem member)) rest
    rw [List.append_assoc] at entries'
    simp [readExprWith, readKind_cons, entries']
  | call call => simp [readExprWith, readKind_cons, reads_call alone each rest]
  | pipeline base steps =>
    have base' := each base List.mem_cons_self
    have steps' := reads_seq alone.1 (fun step member => reads_call (alone.2 step member)
      fun part isPart => each part
        (List.mem_cons_of_mem _ (List.mem_flatMap.2 ⟨step, member, isPart⟩))) rest
    rw [List.append_assoc] at steps'
    simp [readExprWith, readKind_cons, base' _, steps']

/-- Each level of an expression takes up a byte, so the parts are read within one level less. -/
theorem reads_expr {expr : Expr} (fits : expr.Fits) {depth : Nat}
    (enough : expr.bytes.length ≤ depth) : Reads (readExpr depth) expr.bytes expr := by
  induction fits generalizing depth with
  | @intro expr alone _ partReads =>
    cases depth with
    | zero =>
      rw [Nat.le_zero, List.length_eq_zero_iff] at enough
      cases expr <;> simp at enough
    | succ depth =>
      exact reads_exprWith alone fun part isPart => partReads part isPart
        (Nat.le_of_lt_succ (Nat.lt_of_lt_of_le (length_lt_of_part isPart) enough))

theorem reads_statement {statement : Statement Expr} (name : ShortText statement.name)
    (body : Reads read statement.body.bytes statement.body) :
    Reads (readStatement read) (statementBytes statement) statement := by
  intro rest
  simp [readStatement, statementBytes, reads_text name _, body rest]

theorem reads_query {query : Query} (fits : query.Fits) :
    Reads readQuery query.toBytes query := by
  intro rest
  have enough {expr : Expr} (within : expr.bytes.length ≤ query.toBytes.length) :
      expr.bytes.length ≤ (query.toBytes ++ rest).length + 1 := by
    rw [List.length_append]
    omega
  rw [readQuery]
  generalize (query.toBytes ++ rest).length + 1 = depth at *
  rw [Query.toBytes_eq] at enough ⊢
  simp only [List.length_append] at enough
  have statements := reads_seq fits.short fun statement member =>
    reads_statement (fits.names statement member) (reads_expr (fits.bodies statement member)
      (enough (by
        have within := length_le_of_mem statementBytes member
        rw [statementBytes, List.length_append] at within
        omega)))
  have final := reads_expr fits.final (enough (by omega))
  have statements' := statements (query.final.bytes ++ rest)
  rw [List.append_assoc] at statements'
  simp [statements', final rest]

end Query.Binary

/-- Decoding takes back what encoding wrote, whatever stands behind it. So no two queries have the
same bytes. -/
theorem Query.ofBytes_toBytes_append {query : Query} (fits : query.Fits) :
    (∀ tail, Query.ofBytes (query.toBytes ++ tail) = .ok query) ∧
    ∀ other : Query, other.Fits → other.toBytes = query.toBytes → other = query := by
  have takesBack {query : Query} (fits : query.Fits) (tail : Bytes) :
      Query.ofBytes (query.toBytes ++ tail) = .ok query := by
    rw [Query.ofBytes, reads_query fits tail, Outcome.map_ok]
  refine ⟨takesBack fits, fun other otherFits same => ?_⟩
  have one := takesBack fits []
  have two := takesBack otherFits []
  rw [same, one] at two
  exact (Except.ok.inj two).symm

/-- A call with an operand inside a pipeline, the smallest integer, and a double that is not a
number. -/
def Query.sample : Query where
  statements := [⟨"größe", .atom (.int (Int64.ofInt (-2 ^ 63)))⟩]
  final := .pipeline (.reference "größe") [
    { operand := some (.atom (.double ⟨0x7FF8000000000001⟩)), space := "std", name := "take",
      arguments := [("n", .placeholder), ("by", .list [.placeholder])] }]

theorem Query.fits_sample : sample.Fits where
  short := by decide
  names := by
    simp only [sample, List.forall_mem_singleton]
    decide
  bodies := by
    simp only [sample, List.forall_mem_singleton]
    exact .intro trivial nofun
  final := by
    have leaf : Expr.placeholder.Fits := .intro trivial nofun
    have one : [Expr.placeholder].length < 2 ^ 64 := by decide
    have list : (Expr.list [.placeholder]).Fits := .intro one (List.forall_mem_singleton.2 leaf)
    refine .intro ⟨by decide, List.forall_mem_singleton.2 ⟨by decide, by decide, ?_⟩⟩ ?_
    · exact ⟨by decide, by decide, by decide⟩
    · show ∀ part ∈ [Expr.reference "größe", .atom (.double _), .placeholder, .list [.placeholder]],
        part.Fits
      simp only [List.forall_mem_cons]
      exact ⟨.intro (by decide : ShortText "größe") nofun, .intro trivial nofun, leaf, list, nofun⟩

theorem Query.sample_ofBytes_toBytes : sample.Fits ∧
    Query.ofBytes (sample.toBytes ++ [255, 1]) = .ok sample :=
  ⟨fits_sample, (Query.ofBytes_toBytes_append fits_sample).1 _⟩

end QueryGraph
