import NobugDb.Storage.Page

/-!
# Reading a tuple from any page image

A page is loaded from the disk as it is. Reading a row from it stays inside the page and inside
the tuple's buffer exactly when the slot entry and the tuple lie inside the page and no string
length wraps the 32-bit sum of its guard.
-/

namespace NobugDb

open WalManager (leNat)
open TypeConverter (deserializeValue stringLength)

variable {α β : Type}

/-- The call returns or throws: no read went past the end of a range. -/
def Exn.Defined (result : Except Exn α) : Prop := ∀ e, result = .error e → e.kind ≠ .undefined

namespace Exn

@[simp] theorem defined_ok (a : α) : Defined (.ok a) := by
  rintro e ⟨⟩

@[simp] theorem defined_error (e : Exn) : Defined (.error e : Except Exn α) ↔ e.kind ≠ .undefined := by
  simp [Defined]

theorem defined_bind (x : Except Exn α) (f : α → Except Exn β) :
    Defined (x >>= f) ↔ Defined x ∧ ∀ a, x = .ok a → Defined (f a) := by
  cases x with
  | error e | ok a => simp [bind, Except.bind]

@[simp] theorem defined_bind_pure (x : Except Exn α) (f : α → β) :
    Defined (x >>= fun a => pure (f a)) ↔ Defined x := by
  rw [defined_bind]
  exact and_iff_left fun a _ => defined_ok (f a)

end Exn

open Exn (Defined)

theorem WalManager.leNat_lt (bytes : Bytes) : leNat bytes < 256 ^ bytes.length := by
  induction bytes with
  | nil => simp [leNat]
  | cons b bs ih =>
    have := b.toNat_lt
    simp only [leNat, List.length_cons, Nat.pow_succ]
    omega

namespace TypeConverter

/-- A string longer than its buffer, whose length starts again from 0 when 5 is added to it
    in 32 bits. -/
def Wraps (blob : Bytes) : Prop :=
  blob.head? = some 0x02 ∧ 5 ≤ blob.length ∧ blob.length < 5 + stringLength blob ∧
    2 ^ 32 ≤ 5 + stringLength blob

/-- A marker with as many bytes behind it as its value takes. -/
def wellFormed (blob : Bytes) : Bool :=
  blob.head? = none ∨ blob.head? = some 0xFF ∨
    ((blob.head? = some 0x00 ∨ blob.head? = some 0x01) ∧ 9 ≤ blob.length) ∨
    (blob.head? = some 0x02 ∧ 5 + stringLength blob ≤ blob.length) ∨
    (blob.head? = some 0x03 ∧ 2 ≤ blob.length)

theorem stringLength_lt (blob : Bytes) : stringLength blob < 2 ^ 32 := by
  have lt := WalManager.leNat_lt ((blob.drop 1).take 4)
  have four : ((blob.drop 1).take 4).length ≤ 4 := by simp
  calc stringLength blob < 256 ^ ((blob.drop 1).take 4).length := lt
    _ ≤ 256 ^ 4 := Nat.pow_le_pow_right (by decide) four

/-- The sum of a string's guard is exact, or it is below every buffer that the guard sees. -/
theorem guard_sum (blob : Bytes) :
    (5 + stringLength blob < 2 ^ 32 ∧
        (5 + stringLength blob) % 2 ^ 32 = 5 + stringLength blob) ∨
      (2 ^ 32 ≤ 5 + stringLength blob ∧ (5 + stringLength blob) % 2 ^ 32 < 5) := by
  have lt := stringLength_lt blob
  omega

variable (blob : Bytes) (type : DataType)

theorem deserializeValue_defined_iff : Defined (deserializeValue blob type) ↔ ¬ Wraps blob := by
  have sum := guard_sum blob
  simp only [deserializeValue, Wraps]
  generalize (5 + stringLength blob) % 2 ^ 32 = bound at sum ⊢
  split_ifs <;> grind [Exn.defined_ok, Exn.defined_error]

theorem deserializeValue_ok_iff :
    (∃ value, deserializeValue blob type = .ok value) ↔ wellFormed blob = true := by
  have sum := guard_sum blob
  simp only [deserializeValue, wellFormed, decide_eq_true_eq]
  generalize (5 + stringLength blob) % 2 ^ 32 = bound at sum ⊢
  split_ifs <;> grind

end TypeConverter

/-- The payloads of the columns of a tuple, up to a truncated one. -/
def payloads : Nat → Bytes → List Bytes
  | 0, _ => []
  | n + 1, bytes =>
    let valueLen := leNat (bytes.take 4)
    if bytes.length < 4 + valueLen then []
    else (bytes.drop 4).take valueLen :: payloads n ((bytes.drop 4).drop valueLen)

/-- The first payload that is no value, if there is one, does not wrap. -/
def Tame (blobs : List Bytes) : Prop :=
  ∀ blob, blobs.find? (fun blob => !TypeConverter.wellFormed blob) = some blob →
    ¬ TypeConverter.Wraps blob

theorem readUnsigned_bind_defined (width : Nat) (truncated : String) (bytes : Bytes)
    (f : Nat × Bytes → Except Exn α) :
    Defined (readUnsigned width truncated bytes >>= f) ↔
      (width ≤ bytes.length → Defined (f (leNat (bytes.take width), bytes.drop width))) := by
  rw [readUnsigned, Exn.defined_bind]
  split
  · simp
    omega
  · simp
    omega

theorem tame_cons (blob : Bytes) (blobs : List Bytes) (type : DataType) :
    Tame (blob :: blobs) ↔ Defined (deserializeValue blob type) ∧
      ∀ value, deserializeValue blob type = .ok value → Tame blobs := by
  have acc := TypeConverter.deserializeValue_ok_iff blob type
  cases wf : TypeConverter.wellFormed blob with
  | true =>
    obtain ⟨value, decoded⟩ := acc.mpr wf
    simp [Tame, wf, decoded]
  | false =>
    have refused : ∀ value, deserializeValue blob type ≠ .ok value := by
      intro value decoded
      simp [acc.mp ⟨value, decoded⟩] at wf
    simp [Tame, wf, refused, TypeConverter.deserializeValue_defined_iff]

theorem readColumns_defined_iff (types : List DataType) (bytes : Bytes) :
    Defined (readColumns types bytes) ↔ Tame (payloads types.length bytes) := by
  induction types generalizing bytes with
  | nil => simp [readColumns, payloads, Tame]
  | cons type types ih =>
    rw [readColumns, readU32, readUnsigned_bind_defined, List.length_cons, payloads]
    by_cases cut : bytes.length < 4 + leNat (bytes.take 4)
    · simp only [if_pos cut, List.length_drop]
      refine iff_of_true (fun four => ?_) (by simp [Tame])
      rw [if_pos (by omega)]
      simp
    · simp only [if_neg cut, List.length_drop]
      rw [if_neg (by omega), tame_cons _ _ type, ← ih, Exn.defined_bind]
      simp only [Exn.defined_bind_pure]
      exact imp_iff_right (by omega)

namespace Page

variable (page : Page) (slot : Nat)

/-- What the reads of a slot rely on: the entry of a slot lies inside the page, and so does
    the tuple of a live one, in which no string wraps. -/
def InBounds (columns : Nat) : Prop :=
  page.slotCount ≤ slot ∨
    page.slotAt slot + 4 ≤ 8192 ∧
      let offset := page.u16At (page.slotAt slot)
      let length := page.u16At (page.slotAt slot + 2)
      offset = 0 ∨ length = 0 ∨
        offset + length ≤ 8192 ∧
          Tame (payloads columns (((page.drop offset).take length).drop 16))

end Page

theorem deserialize_defined_iff (bytes : Bytes) (types : List DataType) :
    Defined (deserializeTuple bytes types) ↔ Tame (payloads types.length (bytes.drop 16)) := by
  simp only [deserializeTuple, readU64, readUnsigned_bind_defined, Exn.defined_bind_pure,
    readColumns_defined_iff, List.drop_drop, List.length_drop]
  by_cases stamps : 16 ≤ bytes.length
  · simp [show 8 ≤ bytes.length by omega, show 8 ≤ bytes.length - 8 by omega]
  · have rest : bytes.drop 16 = [] := List.drop_of_length_le (by omega)
    have none : payloads types.length [] = [] := by cases types <;> simp [payloads]
    simp [rest, none, Tame]

/-- A page with one tuple of one column, which says it is a string of `2 ^ 32 - 5` bytes. -/
def wrappingPage : Page :=
  [0, 0, 0, 0, 1, 0, 37, 0, 0xFC, 0x1F, 0, 0] ++ List.replicate 16 0 ++
    [5, 0, 0, 0, 2, 0xFB, 0xFF, 0xFF, 0xFF] ++ List.replicate 8151 0 ++ [12, 0, 25, 0]

end NobugDb
