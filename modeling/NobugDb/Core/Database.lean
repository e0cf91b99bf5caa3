import NobugDb.Core.LockManager
import NobugDb.Core.TableWrites
import NobugDb.Misc.Program

/-!
# The database and its operations

The state of `Database` (`include/core/database.h`) with the sessions connected to it, and the
operations statements are made of. What an operation does for "the session" it takes from
`active_session_` where the source does, and from the session of the call elsewhere.
-/

namespace NobugDb

open Misc (AssocMap Program)

namespace Table

/-- `Table::create_secondary_index` (`table.cc:858-875`). -/
def createSecondaryIndex (t : Table) (indexName : String) (columns : List String) :
    Table × Except Exn Unit :=
  if t.secondaryIndexes.contains indexName then
    (t, .error ⟨.constraint, "Index '" ++ indexName ++ "' already exists"⟩)
  else if columns.isEmpty then
    (t, .error ⟨.invalidOperation, "Index must include at least one column"⟩)
  else
    match columns.find? (fun c => (t.getColumnIndex c).isNone) with
    | some c => (t, .error ⟨.notFound, "Column '" ++ c ++ "' not found"⟩)
    | none =>
      let t := { t with secondaryIndexes := AssocMap.assign indexName columns t.secondaryIndexes }
      andThen (t.buildNamedIndex t.secondaryIndexes indexName)
        (fun t => (t.markDirty, .ok ()))

/-- `Table::is_column_still_indexed` (`table.cc:882-896`). -/
def isColumnStillIndexed (t : Table) (columnName : String) : Bool :=
  t.columns.any (fun c => c.name == columnName && (c.primaryKey || c.unique)) ||
    t.secondaryIndexes.any (fun e => e.2 == [columnName])

/-- `Table::drop_secondary_index` (`table.cc:898-911`) of an index on these columns. -/
def dropSecondaryIndex (t : Table) (indexName : String) (columns : List String) : Table :=
  let t := { t with
    secondaryIndexes := AssocMap.erase indexName t.secondaryIndexes
    namedIndices := AssocMap.erase indexName t.namedIndices }
  let t :=
    match columns with
    | [column] =>
      if t.isColumnStillIndexed column then t
      else { t with columnIndices := AssocMap.erase column t.columnIndices }
    | _ => t
  t.markDirty

def clearDirty (t : Table) : Table := { t with dirty := false }

/-- What `save_table` puts into the file (`persistence_manager.cc:24-156`): the heap's pages,
    in which an emptied slot holds no tuple. -/
def saved (t : Table) : Table :=
  { t.clearDirty with directory := t.directory.filter Option.isSome }

end Table

structure QueryResult where
  success : Bool
  message : String
  affectedRows : Nat := 0
  rows : List (List Value) := []
  columnNames : List String := []
  deriving DecidableEq

namespace QueryResult

def successResult (message : String) : QueryResult := ⟨true, message, 0, [], []⟩

def errorResult (message : String) : QueryResult := ⟨false, message, 0, [], []⟩

end QueryResult

/-- An operation of a statement. Rows are given by their values: the stamps are set by the
    operation. -/
inductive Op where
  /-- `get_table`, and reads of row versions whoever wrote them. -/
  | look
  /-- `get_visible_row_indices` for the active session. -/
  | visible (table : String)
  /-- `insert_row_versioned` or `insert_row`, as the active session is in a transaction or not. -/
  | insert (table : String) (values : List Value)
  /-- `update_row_versioned` or `update_row`. -/
  | update (table : String) (i : Nat) (values : List Value)
  /-- `delete_row_versioned` or `delete_row`, by the `in_tx` of `DeleteExecutor::execute`. -/
  | delete (table : String) (i : Nat) (inTx : Bool)
  /-- `update_row` of a referential action, whatever the session. -/
  | updateInPlace (table : String) (i : Nat) (values : List Value)
  /-- `delete_row` of a referential action, whatever the session. -/
  | deleteInPlace (table : String) (i : Nat)
  | createIndex (table indexName : String) (columns : List String)
  | dropIndex (indexName : String)
  | begin
  | commit
  | rollback
  | vacuum (table : Option String)
  /-- `LockManager::acquire` up to its loop, after `ensure_lock_txn_id`. -/
  | request (key : String) (mode : LockMode)
  /-- One turn of the loop of `LockManager::acquire`. -/
  | attempt (key : String) (mode : LockMode)
  /-- `release_session_locks`. -/
  | release
  /-- `persist_dirty_tables` in autocommit mode. -/
  | persist (result : QueryResult)

/-- What a statement learns from an operation. -/
structure Response where
  tables : AssocMap String Table
  /-- The active session is in a transaction. -/
  inTransaction : Bool
  visible : List Nat := []
  /-- The requested lock is held already. -/
  held : Bool := false
  result : QueryResult := QueryResult.successResult ""
  outcome : Except Exn Unit := .ok ()

/-- A statement's work, up to an exception. -/
abbrev Body (α : Type) := ExceptT Exn (Program Op Response) α

/-- `SessionContext`'s part in transactions. -/
structure Transaction where
  inTransaction : Bool := false
  transactionId : Nat := 0
  snapshot : Option TransactionSnapshot := none
  deriving DecidableEq

/-- `Database`, less catalogs, caches and statistics. `sessions` holds the transaction state of
    each session and `disk` the tables as they were last saved. -/
structure Database where
  tables : AssocMap String Table := []
  transactionManager : TransactionManager := {}
  lockManager : LockManager := {}
  nextLockId : Nat := 1
  activeSession : Option Nat := none
  sessions : Nat → Transaction := fun _ => {}
  disk : AssocMap String Table := []

namespace Database

/-! ## The reader -/

/-- `get_reader_xid` and `get_reader_snapshot` (`database.cc:146-159`) of a session. -/
def readerOf (session : Transaction) : Nat × Option TransactionSnapshot :=
  if session.inTransaction then (session.transactionId, session.snapshot) else (0, none)

variable (db : Database)

/-- The reader `get_active_session` stands for; the null session reads in autocommit mode. -/
def reader : Nat × Option TransactionSnapshot :=
  match db.activeSession with
  | none => (0, none)
  | some s => readerOf (db.sessions s)

/-- `get_active_session() && get_active_session()->is_in_transaction()`. -/
def writesVersioned : Bool :=
  match db.activeSession with
  | none => false
  | some s => (db.sessions s).inTransaction

/-- The response of an operation that returns nothing. -/
def respond : Response :=
  { tables := db.tables, inTransaction := db.writesVersioned }

/-! ## Tables -/

/-- A member function called on every table in name order, up to the first exception. -/
def eachTable (f : Table → Table × Except Exn Unit) :
    AssocMap String Table → AssocMap String Table × Except Exn Unit
  | [] => ([], .ok ())
  | (name, t) :: rest =>
    match f t with
    | (t, .error e) => ((name, t) :: rest, .error e)
    | (t, .ok ()) => ((name, t) :: (eachTable f rest).1, (eachTable f rest).2)

/-- A member function called on every table of the database. -/
def onTables (f : Table → Table × Except Exn Unit) : Database × Except Exn Unit :=
  ({ db with tables := (eachTable f db.tables).1 }, (eachTable f db.tables).2)

/-- `flush_dirty_tables_locked` (`database.cc:248-284`), run to its end. -/
def flush : Database :=
  { db with
    disk := db.tables.foldl
      (fun disk e => if e.2.dirty then AssocMap.assign e.1 e.2.saved disk else disk) db.disk
    tables := db.tables.map (fun e => (e.1, e.2.clearDirty)) }

/-- The exception of an operation on a table that is not there. -/
def missing (name : String) : Database × Response :=
  (db, { db.respond with outcome := .error ⟨.notFound, "Table '" ++ name ++ "' not found"⟩ })

/-- A write to a table, with its outcome. -/
def write (name : String) (f : Table → Table × Except Exn Unit) : Database × Response :=
  match db.tables.lookup name with
  | none => db.missing name
  | some t =>
    let db := { db with tables := AssocMap.adjust name (fun _ => (f t).1) db.tables }
    (db, { db.respond with outcome := (f t).2 })

/-! ## Sessions -/

/-- Replaces the state of a session. -/
def setSession (s : Nat) (session : Transaction) : Database :=
  { db with sessions := Function.update db.sessions s session }

/-- `Database::ensure_lock_txn_id` (`database.cc:212-220`). -/
def ensureLockTxnId (s : Nat) : Database :=
  if (db.sessions s).transactionId = 0 then
    { db.setSession s { db.sessions s with transactionId := db.nextLockId } with
      nextLockId := db.nextLockId + 1 }
  else db

/-- `Database::release_session_locks` (`database.cc:241-246`). -/
def releaseSessionLocks (s : Nat) : Database :=
  if (db.sessions s).transactionId = 0 then db
  else { db with lockManager := db.lockManager.releaseAll (db.sessions s).transactionId }

/-- The end of a transaction in its session: its locks go, and the session is as before BEGIN. -/
def endSession (s : Nat) : Database := (db.releaseSessionLocks s).setSession s {}

/-- `Database::execute_begin` (`database.cc:2045-2060`). -/
def executeBegin (s : Nat) : Database × QueryResult :=
  if (db.sessions s).inTransaction then (db, .errorResult "Transaction already active")
  else
    let (tm, txnId) := db.transactionManager.beginTransaction
    let snapshot := tm.captureSnapshot
    ({ db.setSession s ⟨true, txnId, some snapshot⟩ with
        transactionManager := tm.registerSnapshot txnId snapshot },
     .successResult "BEGIN OK")

/-- A step on the tables and, when it did not throw, the next one. -/
def andThen (first : Database × Except Exn Unit) (next : Database → Database × Except Exn QueryResult) :
    Database × Except Exn QueryResult :=
  match first with
  | (db, .error e) => (db, .error e)
  | (db, .ok ()) => next db

/-- `vacuum_all_tables` (`database.cc:204-210`). -/
def vacuumAllTables : Database × Except Exn Unit :=
  db.onTables (fun t => t.vacuumVersions db.transactionManager)

/-- The freezing loop of `execute_commit` (`database.cc:2072-2077`). -/
def freezeAllTables (txnId : Nat) : Database × Except Exn Unit :=
  if db.transactionManager.canFreezeCommitted txnId then
    db.onTables (fun t => t.freezeCommittedVersions txnId)
  else (db, .ok ())

/-- `Database::execute_commit` (`database.cc:2062-2088`). -/
def executeCommit (s : Nat) : Database × Except Exn QueryResult :=
  let session := db.sessions s
  if !session.inTransaction then (db, .ok (.errorResult "No active transaction"))
  else
    let db := { db with
      transactionManager := db.transactionManager.commitTransaction session.transactionId }
    andThen db.vacuumAllTables (fun db =>
      andThen (db.freezeAllTables session.transactionId) (fun db =>
        (db.flush.endSession s, .ok (.successResult "COMMIT OK"))))

/-- `Database::execute_rollback` (`database.cc:2090-2103`). -/
def executeRollback (s : Nat) : Database × Except Exn QueryResult :=
  let session := db.sessions s
  if !session.inTransaction then (db, .ok (.errorResult "No active transaction"))
  else
    let db := { db with
      transactionManager := db.transactionManager.abortTransaction session.transactionId }
    andThen db.vacuumAllTables (fun db =>
      (db.endSession s, .ok (.successResult "ROLLBACK OK")))

/-- `Database::execute_vacuum` (`database.cc:2153-2166`). -/
def executeVacuum : Option String → Database × Except Exn QueryResult
  | none => andThen db.vacuumAllTables (fun db => (db, .ok (.successResult "VACUUM OK")))
  | some name =>
    match db.tables.lookup name with
    | none => (db, .ok (.errorResult ("Table '" ++ name ++ "' not found")))
    | some t =>
      let (t, outcome) := t.vacuumVersions db.transactionManager
      ({ db with tables := AssocMap.adjust name (fun _ => t) db.tables },
       outcome.map (fun _ => .successResult "VACUUM OK"))

/-! ## Operations -/

/-- The response of a function that returns a result or throws. -/
def respondWith : Database × Except Exn QueryResult → Database × Response
  | (db, .error e) => (db, { db.respond with outcome := .error e })
  | (db, .ok result) => (db, { db.respond with result := result })

/-- One operation of a call of session `s`; `none` when it has to wait. -/
def perform (fns : Functions) (s : Nat) (db : Database) : Op → Option (Database × Response)
  | .look => some (db, db.respond)
  | .visible name =>
    match db.tables.lookup name with
    | none => some (db.missing name)
    | some t =>
      match t.getVisibleRowIndices db.transactionManager db.reader.1 db.reader.2 with
      | .error e => some (db, { db.respond with outcome := .error e })
      | .ok visible => some (db, { db.respond with visible := visible })
  | .insert name values =>
    some (db.write name (fun t =>
      if db.writesVersioned then t.insertRowVersioned fns ⟨values, 0, 0⟩ db.reader.1
      else t.insertRow fns ⟨values, 0, 0⟩))
  | .update name i values =>
    some (db.write name (fun t =>
      if db.writesVersioned then t.updateRowVersioned fns i ⟨values, 0, 0⟩ db.reader.1
      else t.updateRow fns i ⟨values, 0, 0⟩))
  | .delete name i inTx =>
    some (db.write name (fun t =>
      if inTx then t.deleteRowVersioned i db.reader.1 else t.deleteRow i))
  | .updateInPlace name i values =>
    some (db.write name (fun t => t.updateRow fns i ⟨values, 0, 0⟩))
  | .deleteInPlace name i => some (db.write name (fun t => t.deleteRow i))
  | .createIndex name indexName columns =>
    some (db.write name (fun t => t.createSecondaryIndex indexName columns))
  | .dropIndex indexName =>
    match db.tables.findSome? (fun e =>
        (e.2.secondaryIndexes.lookup indexName).map (fun columns => (e.1, columns))) with
    | none =>
      some (db, { db.respond with
        result := .errorResult ("Index '" ++ indexName ++ "' not found") })
    | some (name, columns) =>
      let (db, response) := db.write name (fun t =>
        (t.dropSecondaryIndex indexName columns, .ok ()))
      some (db, { response with result := .successResult "DROP INDEX OK" })
  | .begin =>
    let (db, result) := db.executeBegin s
    some (db, { db.respond with result := result })
  | .commit => some (respondWith (db.executeCommit s))
  | .rollback => some (respondWith (db.executeRollback s))
  | .vacuum table => some (respondWith (db.executeVacuum table))
  | .request key mode =>
    let db := db.ensureLockTxnId s
    let (lockManager, held) := db.lockManager.request (db.sessions s).transactionId key mode
    let db := { db with lockManager := lockManager }
    some (db, { db.respond with held := held })
  | .attempt key mode =>
    let (lockManager, turn) := db.lockManager.attempt (db.sessions s).transactionId key mode
    let db := { db with lockManager := lockManager }
    match turn with
    | .granted => some (db, db.respond)
    | .waits => none
    | .deadlock =>
      some (db, { db.respond with outcome := .error ⟨.deadlock, "deadlock detected"⟩ })
  | .release =>
    let db := db.releaseSessionLocks s
    some (db, db.respond)
  | .persist result =>
    let db := if result.success then db.flush else db
    some (db, { db.respond with result := result })

end Database

namespace Body

/-- An operation whose exception is the body's. -/
def perform (op : Op) : Body Response := do
  let response ← ExceptT.lift (Program.operation op)
  match response.outcome with
  | .ok () => return response
  | .error e => throw e

/-- `get_table`, when it is there. -/
def getTable (name : String) : Body (Option Table) := do
  return (← perform .look).tables.lookup name

/-- `acquire_table_lock` and `acquire_row_lock` (`database.cc:222-239`) of one lock key. -/
def acquire (key : String) (mode : LockMode) : Body Unit := do
  if (← perform (.request key mode)).held then return
  let _ ← perform (.attempt key mode)

/-- A loop over a list. -/
def forEach {α : Type} (f : α → Body Unit) : List α → Body Unit
  | [] => pure ()
  | a :: as => do
    f a
    forEach f as

end Body

end NobugDb
