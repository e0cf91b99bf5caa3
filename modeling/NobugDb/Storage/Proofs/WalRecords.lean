import NobugDb.Storage.WalManager

/-!
# What recovery reads back from the log

Records are read back as they were appended, and a log of table blobs yields the blobs
exactly when a commit record follows them.
-/

namespace NobugDb.WalManager

@[simp] theorem length_leBytes (width n : Nat) : (leBytes width n).length = width := by
  induction width generalizing n with
  | zero => rfl
  | succ width ih => simp [leBytes, ih]

theorem leNat_leBytes (width n : Nat) (fits : n < 256 ^ width) : leNat (leBytes width n) = n := by
  induction width generalizing n with
  | zero =>
    have : n = 0 := by simpa using fits
    simp [leBytes, leNat, this]
  | succ width ih =>
    have quotient : n / 256 < 256 ^ width := by
      rw [Nat.div_lt_iff_lt_mul (by decide)]
      rwa [Nat.pow_succ] at fits
    simp only [leBytes, leNat]
    have byte : (UInt8.ofNat (n % 256)).toNat = n % 256 := by simp
    rw [ih _ quotient, byte]
    omega

/-- A record whose size fits its 32-bit length field is read back, and reading goes on
    behind it. -/
theorem readRecords_record (fuel : Nat) (type : UInt8) (payload rest : Bytes)
    (fits : payload.length < 2 ^ 32) :
    readRecords (fuel + 1) (record type payload ++ rest) =
      (type, payload) :: readRecords fuel rest := by
  have size : leNat (leBytes 4 payload.length) = payload.length :=
    leNat_leBytes 4 _ (by simpa using fits)
  have head : (leBytes 4 payload.length ++ (payload ++ rest)).take 4 =
      leBytes 4 payload.length := by
    rw [List.take_append_of_le_length (by simp), List.take_of_length_le (by simp)]
  have tail : (leBytes 4 payload.length ++ (payload ++ rest)).drop 4 = payload ++ rest := by
    rw [List.drop_append_of_le_length (by simp), List.drop_of_length_le (by simp), List.nil_append]
  simp only [record, List.cons_append, List.append_assoc, readRecords, head, tail, size]
  simp

theorem readRecords_records (recs : List (UInt8 × Bytes)) (fuel : Nat)
    (enough : recs.length ≤ fuel) (fits : ∀ r ∈ recs, r.2.length < 2 ^ 32) :
    readRecords fuel (recs.flatMap fun r => record r.1 r.2) = recs := by
  induction recs generalizing fuel with
  | nil => cases fuel <;> rfl
  | cons r recs ih =>
    obtain _ | fuel := fuel
    · simp at enough
    · rw [List.flatMap_cons, readRecords_record fuel r.1 r.2 _ (fits r (by simp)),
        ih fuel (by simpa using enough) (fun x mem => fits x (by simp [mem]))]

/-- A name and a blob that the length fields of a blob record can hold. -/
def Fits (table : Bytes × Bytes) : Prop :=
  table.1.length < 2 ^ 16 ∧ (blobPayload table.1 table.2).length < 2 ^ 32

/-- The records of a flush before its commit record. -/
def blobRecords (tables : List (Bytes × Bytes)) : List (UInt8 × Bytes) :=
  tables.map fun t => (tableBlob, blobPayload t.1 t.2)

theorem take_blob (r : Recovery) (tab : Bytes × Bytes) (fits : Fits tab) :
    r.take (tableBlob, blobPayload tab.1 tab.2) =
      { r with pending := r.pending ++ [tab] } := by
  have size : leNat (leBytes 2 tab.1.length) = tab.1.length :=
    leNat_leBytes 2 _ (by simpa using fits.1)
  have head : (leBytes 2 tab.1.length ++ (tab.1 ++ tab.2)).take 2 = leBytes 2 tab.1.length := by
    rw [List.take_append_of_le_length (by simp), List.take_of_length_le (by simp)]
  have tail : (leBytes 2 tab.1.length ++ (tab.1 ++ tab.2)).drop 2 = tab.1 ++ tab.2 := by
    rw [List.drop_append_of_le_length (by simp), List.drop_of_length_le (by simp), List.nil_append]
  simp only [Recovery.take, blobPayload, List.append_assoc, head, tail, size, if_true]
  rw [if_neg (by simp; omega)]
  simp

variable (tables : List (Bytes × Bytes))

theorem foldl_take_blobs (r : Recovery) (fits : ∀ t ∈ tables, Fits t) :
    (blobRecords tables).foldl Recovery.take r = { r with pending := r.pending ++ tables } := by
  induction tables generalizing r with
  | nil => simp [blobRecords]
  | cons t tables ih =>
    have rest := ih { r with pending := r.pending ++ [t] } (fun x mem => fits x (by simp [mem]))
    simp only [blobRecords, List.map_cons, List.foldl_cons] at rest ⊢
    rw [take_blob r t (fits t (by simp)), rest]
    simp

theorem length_le_flatMap_record (recs : List (UInt8 × Bytes)) :
    recs.length ≤ (recs.flatMap fun r => record r.1 r.2).length := by
  induction recs with
  | nil => simp
  | cons r recs ih =>
    have nonempty : 1 ≤ (record r.1 r.2).length := by simp [record]
    rw [List.flatMap_cons, List.length_append, List.length_cons]
    omega

theorem flatMap_blobRecord :
    tables.flatMap (fun t => blobRecord t.1 t.2) =
      (blobRecords tables).flatMap fun r => record r.1 r.2 := by
  simp [blobRecords, blobRecord, List.flatMap_map]

theorem blobRecords_fits {tables : List (Bytes × Bytes)} (fits : ∀ t ∈ tables, Fits t) :
    ∀ r ∈ blobRecords tables, r.2.length < 2 ^ 32 := by
  intro r mem
  obtain ⟨t, has, rfl⟩ := List.mem_map.mp mem
  exact (fits t has).2

theorem recovered_uncommitted (fits : ∀ t ∈ tables, Fits t) :
    recovered (tables.flatMap fun t => blobRecord t.1 t.2) = [] := by
  rw [flatMap_blobRecord]
  unfold recovered
  rw [readRecords_records _ _ (length_le_flatMap_record _) (blobRecords_fits fits),
    foldl_take_blobs tables {} fits]
  rfl

theorem recovered_committed (fits : ∀ t ∈ tables, Fits t) :
    recovered ((tables.flatMap fun t => blobRecord t.1 t.2) ++ commitRecord 0) = tables := by
  have recs : (tables.flatMap fun t => blobRecord t.1 t.2) ++ commitRecord 0 =
      (blobRecords tables ++ [(commit, leBytes 8 0)]).flatMap fun r => record r.1 r.2 := by
    rw [flatMap_blobRecord, List.flatMap_append]
    simp [commitRecord]
  have sizes : ∀ r ∈ blobRecords tables ++ [(commit, leBytes 8 0)], r.2.length < 2 ^ 32 := by
    intro r mem
    rcases List.mem_append.mp mem with blob | last
    · exact blobRecords_fits fits r blob
    · rw [List.mem_singleton.mp last]
      simp
  rw [recs]
  unfold recovered
  rw [readRecords_records _ _ (length_le_flatMap_record _) sizes, List.foldl_append,
    foldl_take_blobs tables {} fits]
  simp [Recovery.take, tableBlob, commit]

end NobugDb.WalManager
