import NobugDb.Storage.PageFormat

/-!
# Pages

The reads of `Page` (`src/storage/page.cc`) from the bytes of a page, and a row read through
`HeapFile::get_row`. The header holds 16-bit numbers at fixed offsets, and slot entries of two
such numbers stand above `upper`, the last slot first.
-/

namespace NobugDb

/-- `bytes_`, which has `kPageSize` bytes. -/
abbrev Page := Bytes

namespace Page

variable (page : Page)

/-- The 16-bit number at an offset. -/
def u16At (offset : Nat) : Nat := WalManager.leNat ((page.drop offset).take 2)

def slotCount : Nat := page.u16At 4

def upper : Nat := page.u16At 8

/-- The offset of `Page::slot_at` (`page.cc:128-134`), for an index below the slot count. -/
def slotAt (index : Nat) : Nat := page.upper + (page.slotCount - 1 - index) * 4

/-- The offset and the length in a slot's entry, read where `slot_at` points to. -/
def slotEntry (slot : Nat) : Except Exn (Nat × Nat) :=
  if page.slotAt slot + 4 ≤ page.length then
    .ok (page.u16At (page.slotAt slot), page.u16At (page.slotAt slot + 2))
  else .error ⟨.undefined, "slot entry past the end of the page"⟩

/-- `Page::is_slot_live` (`page.cc:104-110`). -/
def isSlotLive (slot : Nat) : Except Exn Bool :=
  if page.slotCount ≤ slot then .ok false
  else do
    let (offset, length) ← page.slotEntry slot
    return offset ≠ 0 && length ≠ 0

/-- `Page::read_tuple` (`page.cc:72-80`). -/
def readTuple (slot : Nat) : Except Exn (Option Bytes) := do
  if !(← page.isSlotLive slot) then return none
  else
    let (offset, length) ← page.slotEntry slot
    if offset + length ≤ page.length then return some ((page.drop offset).take length)
    else .error ⟨.undefined, "tuple past the end of the page"⟩

end Page

/-- The reading of `HeapFile::get_row` (`heap_file.cc:88-103`), and of each step of
    `HeapFile::scan`, which skips the slots that are not live. -/
def HeapFile.readRow (page : Page) (slot : Nat) (columnTypes : List DataType) :
    Except Exn StoredRow := do
  match ← page.readTuple slot with
  | none => .error ⟨.storage, "Tuple slot is empty"⟩
  | some bytes => deserializeTuple bytes columnTypes

end NobugDb
