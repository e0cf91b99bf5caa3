import NobugDb.Storage.PageFormat
import NobugDb.Storage.Proofs.WalRecords

/-!
# A tuple is read back as the row it was made from
-/

namespace NobugDb

open WalManager (leBytes leNat leNat_leBytes)
open TypeConverter (serializeValue deserializeValue stringLength)

/-- A number that fits its field is read back, and reading goes on behind it. -/
theorem readUnsigned_leBytes (width n : Nat) (truncated : String) (rest : Bytes)
    (fits : n < 256 ^ width) :
    readUnsigned width truncated (leBytes width n ++ rest) = .ok (n, rest) := by
  have size : (leBytes width n).length = width := WalManager.length_leBytes width n
  rw [readUnsigned, if_neg (by simp), List.take_left' size, List.drop_left' size,
    leNat_leBytes width n fits]

theorem word_leBytes (bits : BitVec 64) :
    BitVec.ofNat 64 (leNat ((leBytes 8 bits.toNat).take 8)) = bits := by
  rw [List.take_of_length_le (by simp), leNat_leBytes 8 _ (by simpa using bits.isLt),
    BitVec.ofNat_toNat, BitVec.setWidth_eq]

theorem TypeConverter.deserializeValue_serializeValue (value : StoredValue) (type : DataType)
    (fits : (serializeValue value).length < 2 ^ 32) :
    deserializeValue (serializeValue value) type = .ok value := by
  cases value with
  | null => rfl
  | int bits | float bits => simp [serializeValue, deserializeValue, word_leBytes]
  | string bytes =>
    have short : 5 + bytes.length < 2 ^ 32 := by
      simpa [serializeValue, Nat.add_assoc, Nat.add_comm, Nat.add_left_comm] using fits
    have field : stringLength (serializeValue (.string bytes)) = bytes.length := by
      simp only [stringLength, serializeValue, List.drop_succ_cons, List.drop_zero]
      rw [List.take_left' (by simp), leNat_leBytes 4 _ (by norm_num; omega)]
    have size : (serializeValue (.string bytes)).length = 5 + bytes.length := by
      simp [serializeValue]
      omega
    have body : (serializeValue (.string bytes)).drop 5 = bytes := by
      simp only [serializeValue, List.drop_succ_cons]
      rw [List.drop_left' (by simp)]
    simp only [deserializeValue, field, size, body, Nat.mod_eq_of_lt short]
    simp [serializeValue]
  | bool v => cases v <;> rfl

theorem readColumns_serializeColumn (values : List StoredValue) (types : List DataType)
    (eq : types.length = values.length)
    (fits : ∀ value ∈ values, (serializeValue value).length < 2 ^ 32) :
    readColumns types (values.flatMap serializeColumn) = .ok values := by
  induction values generalizing types with
  | nil =>
    rw [List.length_eq_zero_iff.mp eq]
    rfl
  | cons value values ih =>
    obtain _ | ⟨type, types⟩ := types
    · simp at eq
    · have short := fits value (by simp)
      have length := readUnsigned_leBytes 4 _ "Truncated tuple while reading u32"
        (serializeValue value ++ values.flatMap serializeColumn) (by simpa using short)
      have rest := ih types (by simpa using eq) (fun v mem => fits v (by simp [mem]))
      have payload := TypeConverter.deserializeValue_serializeValue value type short
      simp only [readColumns, List.flatMap_cons, serializeColumn, List.append_assoc, readU32,
        length, bind, Except.bind]
      rw [if_neg (by simp), List.take_left' rfl, List.drop_left' rfl, payload, rest]
      rfl

theorem length_serialize (row : StoredRow) :
    (serializeTuple row).length =
      16 + (row.values.map (fun value => 4 + (serializeValue value).length)).sum := by
  simp [serializeTuple, serializeColumn, List.length_flatMap]
  omega

theorem measureTupleSize_eq (row : StoredRow) :
    measureTupleSize row = (serializeTuple row).length := by
  have measured : ∀ (vals : List StoredValue) (size : Nat),
      vals.foldl (fun size value => size + (4 + (serializeValue value).length)) size =
        size + (vals.map (fun value => 4 + (serializeValue value).length)).sum := by
    intro vals
    induction vals with
    | nil => simp
    | cons value vals ih =>
      intro size
      rw [List.foldl_cons, ih, List.map_cons, List.sum_cons]
      omega
  rw [length_serialize, measureTupleSize, measured]

/-- The size that `Table.fits` bounds is that of the bytes. -/
theorem tupleSize_eq (row : Row) : (serializeTuple row.stored).length = Table.tupleSize row := by
  rw [length_serialize, Table.tupleSize, Row.stored, List.map_map]
  congr 3
  funext value
  cases value <;> simp [Value.stored, serializeValue, Table.valueSize]
  omega

/-- Every row that fits in a page is read back, whatever types its columns have, and is
    measured by the length of its bytes. -/
theorem deserializeTuple_serializeTuple (row : StoredRow) (types : List DataType)
    (same : types.length = row.values.length) (fits : (serializeTuple row).length ≤ 8192) :
    deserializeTuple (serializeTuple row) types = .ok row ∧
      measureTupleSize row = (serializeTuple row).length := by
  refine ⟨?_, measureTupleSize_eq row⟩
  have short : ∀ value ∈ row.values, (serializeValue value).length < 2 ^ 32 := by
    intro value mem
    have part := List.single_le_sum (by simp) _ (List.mem_map_of_mem (f := fun v => 4 + (serializeValue v).length) mem)
    rw [length_serialize] at fits
    omega
  have stamp (bits : BitVec 64) (rest : Bytes) :=
    readUnsigned_leBytes 8 bits.toNat "Truncated tuple while reading u64" rest
      (by simpa using bits.isLt)
  simp only [deserializeTuple, serializeTuple, readU64, stamp, bind, Except.bind,
    readColumns_serializeColumn row.values types same short]
  simp [pure, Except.pure]

theorem negative_row_read_back :
    deserializeTuple (serializeTuple ⟨7, 0, [.int (-1), .string [], .null, .bool true]⟩)
        [.int, .string, .float, .boolean] =
      .ok ⟨7, 0, [.int (-1), .string [], .null, .bool true]⟩ :=
  (deserializeTuple_serializeTuple _ _ rfl (by decide)).1

end NobugDb
