import QueryGraph.Query

/-!
The binary form of queries: numbers in groups of seven bits, lengths before contents, and a
number for each kind of expression.
-/

namespace QueryGraph.Query.Binary

open QueryGraph.Number

abbrev Bytes := List UInt8

/-- What can be wrong with bytes that should be a query. -/
inductive DecodeError where
  | endOfBytes
  /-- A number of too many groups, or too large for its type. -/
  | badNumber
  | badBool
  | badOption
  | badText
  /-- A kind of expression that does not exist. -/
  | unknownKind
  deriving DecidableEq, Repr

def DecodeError.message (e : DecodeError) : String :=
  "failed to decode query: " ++ match e with
    | endOfBytes => "Hit the end of buffer, expected more data"
    | badNumber =>
      "Found a varint that didn't terminate. Is the usize too big for this platform?"
    | badBool => "Found a bool that wasn't 0 or 1"
    | badOption => "Found an Option discriminant that wasn't 0 or 1"
    | badText => "Tried to parse invalid utf-8"
    | unknownKind => "Serde Deserialization Error"

/-- At most `more + 1` groups of seven bits, the lowest first; all but the last carry the high
bit. -/
def putGroups : Nat → Nat → Bytes
  | 0, n => [UInt8.ofNat n]
  | more + 1, n =>
    if n < 128 then [UInt8.ofNat n]
    else UInt8.ofNat (n % 128 + 128) :: putGroups more (n / 128)

/-- A number in groups of seven bits. It has no more groups than its value says. -/
def putNumber (n : Nat) : Bytes :=
  putGroups n n

/-- Signed numbers as natural ones: `0, -1, 1, -2, …` are `0, 1, 2, 3, …`. -/
def zigzag (n : Int) : Nat :=
  match n with
  | .ofNat k => 2 * k
  | .negSucc k => 2 * k + 1

def unzigzag (z : Nat) : Int :=
  if z % 2 = 0 then .ofNat (z / 2) else .negSucc (z / 2)

theorem unzigzag_zigzag (n : Int) : unzigzag (zigzag n) = n := by
  cases n with
  | ofNat k => simp [zigzag, unzigzag]
  | negSucc k =>
    have odd : (2 * k + 1) % 2 ≠ 0 := by omega
    have half : (2 * k + 1) / 2 = k := by omega
    simp [zigzag, unzigzag, half]

/-- The low `count` bytes of a number, the lowest first. -/
def putFixed : Nat → Nat → Bytes
  | 0, _ => []
  | count + 1, n => UInt8.ofNat (n % 256) :: putFixed count (n / 256)

def putText (text : String) : Bytes :=
  let bytes := text.toUTF8.data.toList
  putNumber bytes.length ++ bytes

def putBool (value : Bool) : Bytes :=
  [if value then 1 else 0]

def putConstant : Constant → Bytes
  | .int value => 0 :: putNumber (zigzag value.toInt)
  | .double value => 1 :: putFixed 8 value.bits.toNat
  | .bool value => 2 :: putBool value
  | .string value => 3 :: putText value

mutual

/-- Writes an expression in front of the bytes `rest`. The parts of an expression are written from
the last to the first, so that no byte is copied however deep the expression is nested. -/
def putExpr : Expr → Bytes → Bytes
  | .atom value, rest => 0 :: (putConstant value ++ rest)
  | .binary left op right, rest => 1 :: putExpr left (putText op ++ putExpr right rest)
  | .lookup on property, rest => 2 :: putExpr on (putText property ++ rest)
  | .list values, rest => 3 :: (putNumber values.length ++ putList values rest)
  | .dict values, rest => 4 :: (putNumber values.length ++ putEntries values rest)
  | .table inner, rest => 5 :: putExpr inner rest
  | .reference name, rest => 6 :: (putText name ++ rest)
  | .placeholder, rest => 7 :: rest
  | .call call, rest => 8 :: putCall call rest
  | .pipeline base steps, rest =>
    9 :: putExpr base (putNumber steps.length ++ putCalls steps rest)
  | .conditional condition thenDo elseDo, rest =>
    10 :: putExpr condition (putExpr thenDo (putExpr elseDo rest))

def putList : List Expr → Bytes → Bytes
  | [], rest => rest
  | expr :: others, rest => putExpr expr (putList others rest)

def putEntries : List (String × Expr) → Bytes → Bytes
  | [], rest => rest
  | (key, expr) :: others, rest => putText key ++ putExpr expr (putEntries others rest)

def putOperand : Option Expr → Bytes → Bytes
  | none, rest => 0 :: rest
  | some expr, rest => 1 :: putExpr expr rest

def putCall : Call → Bytes → Bytes
  | { operand, space, name, arguments }, rest =>
    putOperand operand (putText space ++ (putText name ++
      (putNumber arguments.length ++ putEntries arguments rest)))

def putCalls : List Call → Bytes → Bytes
  | [], rest => rest
  | call :: others, rest => putCall call (putCalls others rest)

end

def putStatement (statement : Statement Expr) (rest : Bytes) : Bytes :=
  putText statement.name ++ putExpr statement.body rest

/-- Writes a query in front of the bytes `rest`. -/
def putQuery (query : Query) (rest : Bytes) : Bytes :=
  putNumber query.statements.length ++
    query.statements.foldr putStatement (putExpr query.final rest)

/-- Reads a value off the front of the bytes. -/
abbrev Reader (α : Type) := Bytes → Except DecodeError (α × Bytes)

def readByte : Reader UInt8
  | [] => .error .endOfBytes
  | byte :: rest => .ok (byte, rest)

/-- A number of at most `groups` groups, the last of which is at most `last`. -/
def readGroups (last : Nat) : Nat → Reader Nat
  | 0, _ => .error .badNumber
  | _ + 1, [] => .error .endOfBytes
  | groups + 1, byte :: rest =>
    if byte.toNat < 128 then
      if groups = 0 ∧ last < byte.toNat then .error .badNumber else .ok (byte.toNat, rest)
    else do
      let (high, rest) ← readGroups last groups rest
      return (byte.toNat - 128 + 128 * high, rest)

/-- The number of a kind: below `2 ^ 32`. -/
def readKind : Reader Nat :=
  readGroups 15 5

/-- A length or an integer: below `2 ^ 64`. -/
def readNumber : Reader Nat :=
  readGroups 1 10

/-- Splits off `count` bytes. -/
def readBytes : Nat → Reader Bytes
  | 0, rest => .ok ([], rest)
  | _ + 1, [] => .error .endOfBytes
  | count + 1, byte :: rest => do
    let (bytes, rest) ← readBytes count rest
    return (byte :: bytes, rest)

def ofFixed : Bytes → Nat
  | [] => 0
  | byte :: rest => byte.toNat + 256 * ofFixed rest

def readText : Reader String := fun bytes => do
  let (length, bytes) ← readNumber bytes
  let (text, bytes) ← readBytes length bytes
  match String.fromUTF8? ⟨text.toArray⟩ with
  | some text => return (text, bytes)
  | none => throw .badText

def readBool : Reader Bool := fun bytes => do
  let (byte, bytes) ← readByte bytes
  if byte = 0 then return (false, bytes)
  else if byte = 1 then return (true, bytes)
  else throw .badBool

def readConstant : Reader Constant := fun bytes => do
  let (kind, bytes) ← readKind bytes
  match kind with
  | 0 =>
    let (z, bytes) ← readNumber bytes
    return (.int (Int64.ofInt (unzigzag z)), bytes)
  | 1 =>
    let (fixed, bytes) ← readBytes 8 bytes
    return (.double ⟨UInt64.ofNat (ofFixed fixed)⟩, bytes)
  | 2 =>
    let (value, bytes) ← readBool bytes
    return (.bool value, bytes)
  | 3 =>
    let (value, bytes) ← readText bytes
    return (.string value, bytes)
  | _ => throw .unknownKind

/-- As many values as `count` says, one after the other. -/
def readMany {α : Type} (item : Reader α) : Nat → Reader (List α)
  | 0, bytes => .ok ([], bytes)
  | count + 1, bytes => do
    let (first, bytes) ← item bytes
    let (others, bytes) ← readMany item count bytes
    return (first :: others, bytes)

def readSeq {α : Type} (item : Reader α) : Reader (List α) := fun bytes => do
  let (count, bytes) ← readNumber bytes
  readMany item count bytes

/-- A dictionary. A repeated key keeps its first place and its last value. -/
def readEntries (expr : Reader Expr) : Reader (List (String × Expr)) := fun bytes => do
  let (pairs, bytes) ← readSeq (fun bytes => do
    let (key, bytes) ← readText bytes
    let (value, bytes) ← expr bytes
    return ((key, value), bytes)) bytes
  return (Entries.ofList pairs, bytes)

def readOperand (expr : Reader Expr) : Reader (Option Expr) := fun bytes => do
  let (tag, bytes) ← readByte bytes
  if tag = 0 then return (none, bytes)
  else if tag = 1 then
    let (value, bytes) ← expr bytes
    return (some value, bytes)
  else throw .badOption

def readCall (expr : Reader Expr) : Reader Call := fun bytes => do
  let (operand, bytes) ← readOperand expr bytes
  let (space, bytes) ← readText bytes
  let (name, bytes) ← readText bytes
  let (arguments, bytes) ← readEntries expr bytes
  return ({ operand, space, name, arguments }, bytes)

/-- One expression, given the reader of its parts. -/
def readExprWith (expr : Reader Expr) : Reader Expr := fun bytes => do
  let (kind, bytes) ← readKind bytes
  match kind with
  | 0 =>
    let (value, bytes) ← readConstant bytes
    return (.atom value, bytes)
  | 1 =>
    let (left, bytes) ← expr bytes
    let (op, bytes) ← readText bytes
    let (right, bytes) ← expr bytes
    return (.binary left op right, bytes)
  | 2 =>
    let (on, bytes) ← expr bytes
    let (property, bytes) ← readText bytes
    return (.lookup on property, bytes)
  | 3 =>
    let (values, bytes) ← readSeq expr bytes
    return (.list values, bytes)
  | 4 =>
    let (values, bytes) ← readEntries expr bytes
    return (.dict values, bytes)
  | 5 =>
    let (inner, bytes) ← expr bytes
    return (.table inner, bytes)
  | 6 =>
    let (name, bytes) ← readText bytes
    return (.reference name, bytes)
  | 7 => return (.placeholder, bytes)
  | 8 =>
    let (call, bytes) ← readCall expr bytes
    return (.call call, bytes)
  | 9 =>
    let (base, bytes) ← expr bytes
    let (steps, bytes) ← readSeq (readCall expr) bytes
    return (.pipeline base steps, bytes)
  | 10 =>
    let (condition, bytes) ← expr bytes
    let (thenDo, bytes) ← expr bytes
    let (elseDo, bytes) ← expr bytes
    return (.conditional condition thenDo elseDo, bytes)
  | _ => throw .unknownKind

/-- An expression nested at most `depth` deep. Each level takes up a byte, so a depth beyond the
number of bytes is never exhausted before the bytes are. -/
def readExpr : Nat → Reader Expr
  | 0, _ => .error .endOfBytes
  | depth + 1, bytes => readExprWith (readExpr depth) bytes

def readStatement (expr : Reader Expr) : Reader (Statement Expr) := fun bytes => do
  let (name, bytes) ← readText bytes
  let (body, bytes) ← expr bytes
  return (⟨name, body⟩, bytes)

def readQuery : Reader Query := fun bytes => do
  let expr := readExpr (bytes.length + 1)
  let (statements, bytes) ← readSeq (readStatement expr) bytes
  let (final, bytes) ← expr bytes
  return (⟨statements, final⟩, bytes)

end QueryGraph.Query.Binary

namespace QueryGraph.Query

def toBytes (query : Query) : Binary.Bytes :=
  Binary.putQuery query []

/-- Reads a query off the front of the bytes; what stands behind it is not looked at. -/
def ofBytes (bytes : Binary.Bytes) : Except Binary.DecodeError Query :=
  (Binary.readQuery bytes).map (·.1)

end QueryGraph.Query
