import NobugDb.Storage.WalManager
import NobugDb.Core.Table

/-!
# Tuples as bytes

`serialize_tuple`, `measure_tuple_size` and `deserialize_tuple` (`src/storage/page_format.cc`)
with the encoding of single values (`src/types/type_converter.cc:48-132`). A buffer is the list
of its bytes, and the offset into it is what the reads so far have dropped; every one of those
reads is guarded by the source, but for the range of a string, which may leave the buffer.
-/

namespace NobugDb

open WalManager (leBytes leNat)

/-- A `Value` as it is stored: an `int64_t` and a `double` are their 64 bits, a `std::string`
    is its bytes. -/
inductive StoredValue where
  | null
  | int (bits : BitVec 64)
  | float (bits : BitVec 64)
  | string (bytes : Bytes)
  | bool (v : Bool)
  deriving DecidableEq

/-- A `Row` as it is stored. -/
structure StoredRow where
  xmin : BitVec 64
  xmax : BitVec 64
  values : List StoredValue
  deriving DecidableEq

namespace TypeConverter

/-- `TypeConverter::serialize_value` (`type_converter.cc:48-85`). -/
def serializeValue : StoredValue → Bytes
  | .null => [0xFF]
  | .int bits => 0x00 :: leBytes 8 bits.toNat
  | .float bits => 0x01 :: leBytes 8 bits.toNat
  | .string bytes => 0x02 :: (leBytes 4 bytes.length ++ bytes)
  | .bool v => [0x03, if v then 0x01 else 0x00]

/-- The length field of a serialized string. -/
def stringLength (blob : Bytes) : Nat := leNat ((blob.drop 1).take 4)

/-- `TypeConverter::deserialize_value` (`type_converter.cc:87-132`), which ignores the type. The
    guard of a string adds 5 to its length in 32 bits. -/
def deserializeValue (blob : Bytes) (_type : DataType) : Except Exn StoredValue :=
  let marker := blob.head?
  let word := BitVec.ofNat 64 (leNat ((blob.drop 1).take 8))
  if marker = none ∨ marker = some 0xFF then .ok .null
  else if marker = some 0x00 ∧ 9 ≤ blob.length then .ok (.int word)
  else if marker = some 0x01 ∧ 9 ≤ blob.length then .ok (.float word)
  else if marker = some 0x02 ∧ 5 ≤ blob.length ∧
      (5 + stringLength blob) % 2 ^ 32 ≤ blob.length then
    if 5 + stringLength blob ≤ blob.length then
      .ok (.string ((blob.drop 5).take (stringLength blob)))
    else .error ⟨.undefined, "string past the end of the buffer"⟩
  else if marker = some 0x03 ∧ 2 ≤ blob.length then .ok (.bool (blob[1]? ≠ some 0))
  else .error ⟨.type, "Invalid serialized value"⟩

end TypeConverter

open TypeConverter (serializeValue deserializeValue)

/-- A column of a tuple: the length of its payload, then the payload. -/
def serializeColumn (value : StoredValue) : Bytes :=
  leBytes 4 (serializeValue value).length ++ serializeValue value

/-- `serialize_tuple` (`page_format.cc:52-64`). -/
def serializeTuple (row : StoredRow) : Bytes :=
  leBytes 8 row.xmin.toNat ++ (leBytes 8 row.xmax.toNat ++ row.values.flatMap serializeColumn)

/-- `measure_tuple_size` (`page_format.cc:66-74`). -/
def measureTupleSize (row : StoredRow) : Nat :=
  row.values.foldl (fun size value => size + (4 + (serializeValue value).length)) 16

/-- `read_u32` and `read_u64` (`page_format.cc:24-48`): a number of `width` bytes, and what
    follows it. -/
def readUnsigned (width : Nat) (truncated : String) (bytes : Bytes) : Except Exn (Nat × Bytes) :=
  if bytes.length < width then .error ⟨.storage, truncated⟩
  else .ok (leNat (bytes.take width), bytes.drop width)

def readU32 : Bytes → Except Exn (Nat × Bytes) :=
  readUnsigned 4 "Truncated tuple while reading u32"

def readU64 : Bytes → Except Exn (Nat × Bytes) :=
  readUnsigned 8 "Truncated tuple while reading u64"

/-- The loop of `deserialize_tuple` over the columns (`page_format.cc:87-95`). -/
def readColumns : List DataType → Bytes → Except Exn (List StoredValue)
  | [], _ => .ok []
  | type :: types, bytes => do
    let (valueLen, bytes) ← readU32 bytes
    if bytes.length < valueLen then .error ⟨.storage, "Truncated tuple column payload"⟩
    else
      let value ← deserializeValue (bytes.take valueLen) type
      return value :: (← readColumns types (bytes.drop valueLen))

/-- `deserialize_tuple` (`page_format.cc:76-97`). -/
def deserializeTuple (bytes : Bytes) (columnTypes : List DataType) : Except Exn StoredRow := do
  let (xmin, bytes) ← readU64 bytes
  let (xmax, bytes) ← readU64 bytes
  return ⟨BitVec.ofNat 64 xmin, BitVec.ofNat 64 xmax, ← readColumns columnTypes bytes⟩

/-- The stored form of a row of the engine. -/
def Value.stored : Value → StoredValue
  | .null => .null
  | .int v => .int (BitVec.ofInt 64 v)
  | .float v => .float v.toBits.toBitVec
  | .string v => .string v.toUTF8.data.toList
  | .bool v => .bool v

def Row.stored (row : Row) : StoredRow :=
  ⟨BitVec.ofNat 64 row.xmin, BitVec.ofNat 64 row.xmax, row.values.map Value.stored⟩

end NobugDb
