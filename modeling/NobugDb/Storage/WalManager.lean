import Mathlib

/-!
# The write-ahead log

`WalManager` (`include/storage/wal_manager.h`, `src/storage/wal_manager.cc`): the bytes of the
records it appends, and what recovery reads back from a log file. A `std::string` is the list
of its bytes.
-/

namespace NobugDb

/-- The bytes of a file or of a `std::string`. -/
abbrev Bytes := List UInt8

namespace WalManager

/-- An unsigned integer of `width` bytes, lowest byte first; higher bytes are cut off. -/
def leBytes : (width : Nat) → Nat → Bytes
  | 0, _ => []
  | width + 1, n => UInt8.ofNat (n % 256) :: leBytes width (n / 256)

/-- The number that bytes denote, lowest byte first. -/
def leNat : Bytes → Nat
  | [] => 0
  | b :: bs => b.toNat + 256 * leNat bs

def tableBlob : UInt8 := 1

def commit : UInt8 := 2

def done : UInt8 := 3

/-- The bytes `append_record` writes (`wal_manager.cc:22-42`). -/
def record (type : UInt8) (payload : Bytes) : Bytes :=
  type :: leBytes 4 payload.length ++ payload

/-- The payload of `append_table_blob` (`wal_manager.cc:44-53`). -/
def blobPayload (tableName blob : Bytes) : Bytes :=
  leBytes 2 tableName.length ++ tableName ++ blob

/-- The record of `append_table_blob`. -/
def blobRecord (tableName blob : Bytes) : Bytes := record tableBlob (blobPayload tableName blob)

/-- The record of `append_commit` (`wal_manager.cc:55-59`). -/
def commitRecord (txnId : Nat) : Bytes := record commit (leBytes 8 txnId)

/-- The record of `append_done` (`wal_manager.cc:61`). -/
def doneRecord : Bytes := record done []

/-- The loop of `recover` that reads records up to the end or to a torn one
    (`wal_manager.cc:91-108`). -/
def readRecords : (fuel : Nat) → Bytes → List (UInt8 × Bytes)
  | 0, _ => []
  | _ + 1, [] => []
  | fuel + 1, type :: rest =>
    let size := leNat (rest.take 4)
    let body := rest.drop 4
    if rest.length < 4 ∨ body.length < size then []
    else (type, body.take size) :: readRecords fuel (body.drop size)

/-- What the loop of `recover` has collected. -/
structure Recovery where
  pending : List (Bytes × Bytes) := []
  sawCommit : Bool := false
  sawDone : Bool := false
  deriving DecidableEq

/-- One record of the loop (`wal_manager.cc:109-130`). -/
def Recovery.take (r : Recovery) (rec : UInt8 × Bytes) : Recovery :=
  if rec.1 = tableBlob then
    let nameLen := leNat (rec.2.take 2)
    if rec.2.length < 2 ∨ rec.2.length < 2 + nameLen then r
    else
      let body := rec.2.drop 2
      { r with pending := r.pending ++ [(body.take nameLen, body.drop nameLen)] }
  else if rec.1 = commit then { r with sawCommit := true }
  else if rec.1 = done then { pending := [], sawCommit := false, sawDone := true }
  else r

/-- The blobs `recover` writes back as table files. -/
def recovered (log : Bytes) : List (Bytes × Bytes) :=
  let r := (readRecords log.length log).foldl Recovery.take {}
  if r.sawCommit && !r.sawDone then r.pending else []

end WalManager

end NobugDb
