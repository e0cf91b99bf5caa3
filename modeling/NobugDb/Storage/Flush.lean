import NobugDb.Storage.WalManager

/-!
# Flushing tables to disk

The file operations of `Database::flush_dirty_tables_locked` (`database.cc:248-284`), WAL
recovery as operations on the storage directory, and `PersistenceManager::load_database`
(`persistence_manager.cc:352-377`). Each write and rename takes effect entirely. The format of
a table file enters as `load_table`, a function from the bytes of a file to the table's name
and content.
-/

namespace NobugDb

/-- The files of a storage directory. A table name is an identifier: it is not empty and has
    no dot, so the forms are distinct. -/
inductive FileName where
  /-- `<table>.db` -/
  | db (table : Bytes)
  /-- `<table>.db.tmp` -/
  | dbTmp (table : Bytes)
  /-- `.wal_stage_<table>.db` -/
  | stage (table : Bytes)
  /-- `.wal_stage_<table>.db.tmp` -/
  | stageTmp (table : Bytes)
  /-- `wal.log` -/
  | walLog
  deriving DecidableEq

/-- `path().extension() == ".db"`. -/
def FileName.isDb : FileName → Bool
  | .db _ => true
  | .stage _ => true
  | _ => false

/-- The files present and their bytes. -/
abbrev Disk := FileName → Option Bytes

/-- A change to the storage directory. -/
inductive FileOp where
  | write (file : FileName) (bytes : Bytes)
  | append (file : FileName) (bytes : Bytes)
  | rename (source target : FileName)
  | remove (file : FileName)

namespace Disk

/-- The effect of one operation. -/
def apply (disk : Disk) : FileOp → Disk
  | .write file bytes => Function.update disk file (some bytes)
  | .append file bytes => Function.update disk file (some ((disk file).getD [] ++ bytes))
  | .rename source target =>
    match disk source with
    | none => disk
    | some bytes => Function.update (Function.update disk source none) target (some bytes)
  | .remove file => Function.update disk file none

/-- The effect of operations in order. -/
def applyAll (disk : Disk) (ops : List FileOp) : Disk := ops.foldl apply disk

/-- `PersistenceManager::save_table` to the stage file of a table: its image goes to a
    temporary file, which is then renamed. -/
def stageOps (table : Bytes × Bytes) : List FileOp :=
  [.write (.stageTmp table.1) table.2, .rename (.stageTmp table.1) (.stage table.1)]

/-- `Database::flush_dirty_tables_locked` for the dirty tables, given as name and image. -/
def flushOps (dirty : List (Bytes × Bytes)) : List FileOp :=
  if dirty.isEmpty then []
  else
    dirty.flatMap stageOps ++
      dirty.map (fun t => .append .walLog (WalManager.blobRecord t.1 t.2)) ++
      [.append .walLog (WalManager.commitRecord 0)] ++
      dirty.map (fun t => .rename (.stage t.1) (.db t.1)) ++
      [.remove .walLog]

/-- `WalManager::recover` (`wal_manager.cc:76-152`). -/
def recover (disk : Disk) : Disk :=
  match disk .walLog with
  | none => disk
  | some log =>
    let restored := (WalManager.recovered log).foldl
      (fun disk t =>
        disk.applyAll [.write (.dbTmp t.1) t.2, .rename (.dbTmp t.1) (.db t.1)]) disk
    restored.apply (.remove .walLog)

variable {T : Type}

/-- One directory entry of `load_database`: a file that does not load is skipped. -/
def loadEntry (loadTable : Bytes → Option (Bytes × T)) (disk : Disk)
    (tables : Bytes → Option T) (file : FileName) : Bytes → Option T :=
  if file.isDb then
    match (disk file).bind loadTable with
    | some (name, table) => Function.update tables name (some table)
    | none => tables
  else tables

/-- `PersistenceManager::load_database`, over the directory entries in the order in which
    `fs::directory_iterator` gives them. -/
def loadDatabase (loadTable : Bytes → Option (Bytes × T)) (disk : Disk)
    (entries : List FileName) : Bytes → Option T :=
  entries.foldl (loadEntry loadTable disk) (fun _ => none)

/-- The entries are the files of the directory, each once, in any order. -/
def Enumerates (disk : Disk) (entries : List FileName) : Prop :=
  entries.Nodup ∧ ∀ file, file ∈ entries ↔ (disk file).isSome = true

end Disk

end NobugDb
