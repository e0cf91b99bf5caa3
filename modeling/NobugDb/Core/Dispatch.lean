import NobugDb.Core.Engine

/-!
# Dispatch of statements

`dispatch_statement` (`database.cc:394-598`) for every statement, with the executors given as
programs. `Engine` follows the executors of a few statements; this module follows what is around
them: the locks a statement takes and gives back, the statements that CALL, EXECUTE and EXPLAIN
run, the exceptions that leave `dispatch_statement`, and storage that may fail.
-/

namespace NobugDb

open Misc (AssocMap Program)

/-- A run of `flush_dirty_tables_locked` (`database.cc:248-284`): what it makes of the tables and
    of the disk, and the exception it ends with, if any. -/
abbrev Storage := AssocMap String Table → AssocMap String Table →
  (AssocMap String Table × AssocMap String Table) × Except Exn Unit

namespace Database

/-- Storage that does not fail. -/
def reliable : Storage := fun tables disk =>
  let db := ({ tables := tables, disk := disk } : Database).flush
  ((db.tables, db.disk), .ok ())

/-- `Database::persist_dirty_tables` (`database.cc:291-308`). -/
def persistDirtyTables (storage : Storage) (db : Database) (result : QueryResult) (inTx : Bool) :
    Database × Except Exn QueryResult :=
  if !result.success || inTx then (db, .ok result)
  else
    let ((tables, disk), outcome) := storage db.tables db.disk
    let db := { db with tables := tables, disk := disk }
    match outcome with
    | .ok () => (db, .ok result)
    | .error e =>
      match e.kind with
      | .storage => (db, .ok (.errorResult ("Persistence failed: " ++ e.what)))
      | _ => (db, .error e)

/-- `Database::execute_commit` (`database.cc:2062-2088`). -/
def executeCommitOn (storage : Storage) (db : Database) (s : Nat) :
    Database × Except Exn QueryResult :=
  let session := db.sessions s
  if !session.inTransaction then (db, .ok (.errorResult "No active transaction"))
  else
    let db := { db with
      transactionManager := db.transactionManager.commitTransaction session.transactionId }
    andThen db.vacuumAllTables (fun db =>
      andThen (db.freezeAllTables session.transactionId) (fun db =>
        match db.persistDirtyTables storage (.successResult "COMMIT OK") false with
        | (db, .error e) => (db, .error e)
        | (db, .ok result) => (if result.success then db.endSession s else db, .ok result)))

/-- An operation over storage that may fail. -/
def performOn (storage : Storage) (fns : Functions) (s : Nat) (db : Database) :
    Op → Option (Database × Response)
  | .commit => some (respondWith (db.executeCommitOn storage s))
  | .persist result => some (respondWith (db.persistDirtyTables storage result false))
  | op => db.perform fns s op

theorem persist_reliable (db : Database) (res : QueryResult) :
    db.persistDirtyTables reliable res false = (if res.success then db.flush else db, .ok res) := by
  unfold persistDirtyTables
  cases res.success <;> rfl

/-- On storage that does not fail COMMIT is that of `executeCommit`. -/
theorem commitOn_reliable (db : Database) (s : Nat) :
    db.executeCommitOn reliable s = db.executeCommit s := by
  unfold executeCommitOn executeCommit
  simp only [persist_reliable]
  rfl

theorem performOn_reliable (fns : Functions) (s : Nat) (db : Database) (op : Op) :
    db.performOn reliable fns s op = db.perform fns s op := by
  cases op with
  | commit => simp only [performOn, perform, commitOn_reliable]
  | persist res =>
    simp only [performOn, perform, persist_reliable, respondWith]
  | _ => rfl

end Database

/-! ## Statements -/

/-- A statement as `dispatch_statement` runs it, with its executor. -/
inductive Command where
  | begin
  | commit
  | rollback
  /-- SELECT, set operations, VACUUM, and DROP INDEX (`persists`). -/
  | query (execute : Body QueryResult) (persists : Bool)
  /-- INSERT, UPDATE, DELETE and CREATE INDEX: the keys to lock, and the executor. -/
  | write (keys : Body (List String)) (execute : Body QueryResult)
  /-- DROP TABLE and ALTER TABLE, which lock their table, CREATE TABLE, the statements of views,
      routines and triggers, PREPARE, DEALLOCATE, and statements that end with an error before
      they do anything. -/
  | ddl (lock : Option String) (persists : Bool)
      (execute : AssocMap String Table → AssocMap String Table × Except Exn QueryResult)
  /-- Two statements of a procedure: the second one runs when the first one succeeds. -/
  | sequence (first second : Command)
  /-- The statement of EXECUTE or EXPLAIN, or those of CALL, and what is made of its result. -/
  | nested (inner : Command) (finish : QueryResult → QueryResult)

/-- What remains of a call, cut where calls of other sessions may run in between. A section holds
    `db_mutex_` when it is `guarded`. -/
inductive Sections where
  | done (outcome : Except Exn QueryResult)
  /-- `session->is_in_transaction()`. -/
  | asks (next : Bool → Sections)
  | enter {α : Type} (guarded : Bool) (body : Body α) (next : Except Exn α → Sections)
  /-- A guarded section that changes which tables there are. -/
  | alter (execute : AssocMap String Table → AssocMap String Table × Except Exn QueryResult)
      (next : Except Exn QueryResult → Sections)
  | persist (result : QueryResult) (inTx : Bool) (next : Except Exn QueryResult → Sections)

namespace Sections

/-- What follows a section that returns; an exception ends the call. -/
def onValue {α : Type} (next : α → Sections) : Except Exn α → Sections
  | .ok a => next a
  | .error e => .done (.error e)

/-- What follows the sections of a statement. -/
def andThen : Sections → (Except Exn QueryResult → Sections) → Sections
  | .done outcome, f => f outcome
  | .asks next, f => .asks (fun inTx => (next inTx).andThen f)
  | .enter guarded body next, f => .enter guarded body (fun outcome => (next outcome).andThen f)
  | .alter execute next, f => .alter execute (fun outcome => (next outcome).andThen f)
  | .persist result inTx next, f =>
    .persist result inTx (fun outcome => (next outcome).andThen f)

/-- `if (!in_tx) release_session_locks(session)`. -/
def release (inTx : Bool) (next : Sections) : Sections :=
  if inTx then next else .enter false (Body.perform .release) (onValue (fun _ => next))

/-- The end of a branch. -/
def finish (persists inTx : Bool) (result : QueryResult) : Sections :=
  if persists then .persist result inTx .done else .done (.ok result)

end Sections

namespace Command

open Sections (onValue release finish)

/-- An executor that is one function of `Database`. -/
def control (op : Op) : Body QueryResult := do return (← Body.perform op).result

/-- `acquire_table_lock` or `acquire_row_lock` for each key. -/
def acquireAll (keys : List String) : Body Unit :=
  Body.forEach (Body.acquire · .exclusive) keys

/-- `dispatch_statement`. -/
def dispatch : Command → Sections
  | .begin => .enter true (control .begin) .done
  | .commit => .enter true (control .commit) .done
  | .rollback => .enter true (control .rollback) .done
  | .query execute persists =>
    .asks (fun inTx => .enter true execute (onValue (finish persists inTx)))
  | .write keys execute =>
    .asks (fun inTx =>
      .enter true keys (onValue (fun keys =>
        .enter false (acquireAll keys) (onValue (fun _ =>
          .enter true execute (onValue (fun result =>
            release inTx (finish true inTx result))))))))
  | .ddl none persists execute =>
    .asks (fun inTx => .alter execute (onValue (finish persists inTx)))
  | .ddl (some table) persists execute =>
    .asks (fun inTx =>
      .enter false (acquireAll [table]) (onValue (fun _ =>
        .alter execute (onValue (fun result =>
          release inTx (finish persists inTx result))))))
  | .sequence first second =>
    first.dispatch.andThen (onValue (fun result =>
      if result.success then second.dispatch else .done (.ok result)))
  | .nested inner finish => inner.dispatch.andThen (fun outcome => .done (outcome.map finish))

/-- A statement with the executor modelled for it. -/
def ofStatement (env : Env) (statement : Statement) : Command :=
  match statement with
  | .begin => .begin
  | .commit => .commit
  | .rollback => .rollback
  | .insert stmt => .write (pure [stmt.table]) (Executor.executeInsert env stmt)
  | .createIndex table indexName columns =>
    .write (pure [table]) (Executor.executeCreateIndex table indexName columns)
  | .update _ | .delete _ =>
    .write (Executor.preview env statement) (Executor.body env statement)
  | _ => .query (Executor.body env statement) statement.persists

end Command

/-! ## Calls -/

/-- The database with the calls in progress, and the session whose call holds `db_mutex_` while
    it waits for a lock. -/
structure Dispatcher where
  db : Database
  calls : Nat → Option (Functions × Sections) := fun _ => none
  mutex : Option Nat := none

namespace Dispatcher

/-- What can happen next. -/
inductive Event where
  /-- A session calls `execute_query`. -/
  | call (fns : Functions) (s : Nat) (command : Command)
  /-- The call of a session goes on, over storage that may fail. -/
  | resume (s : Nat) (storage : Storage)
  /-- A turn of `run_vacuum_worker` (`database.cc:109-130`). -/
  | vacuumWorker

/-- The handler of `DeadlockException` after `active_session_ = nullptr`
    (`database.cc:365-373`). -/
def onDeadlock (exn : Exn) : Sections :=
  let result : Sections := .done (.ok (.errorResult exn.what))
  .asks (fun inTx =>
    if inTx then .enter true (Command.control .rollback) (fun _ => result)
    else .enter false (Body.perform .release) (fun _ => result))

variable (d : Dispatcher)

/-- The call goes on. -/
def setRest (s : Nat) (fns : Functions) (rest : Sections) : Dispatcher :=
  { d with calls := Function.update d.calls s (some (fns, rest)) }

/-- `active_session_ = nullptr`. -/
def clearActive : Dispatcher :=
  { d with db := { d.db with activeSession := none } }

/-- The call returns. -/
def finish (s : Nat) : Dispatcher :=
  { d with calls := Function.update d.calls s none }

/-- Another call holds the database mutex. -/
def blocked (s : Nat) : Bool := d.mutex.any (· ≠ s)

/-- The call's `lock_guard`s on the database mutex end. -/
def unlock (s : Nat) : Dispatcher :=
  if d.mutex = some s then { d with mutex := none } else d

/-- The operations a call performs when it goes on, each with the database it finds. -/
def performed (d : Dispatcher) (s : Nat) (storage : Storage) : List (Database × Op) :=
  match d.calls s with
  | some (fns, .enter guarded body _) =>
    if guarded && d.blocked s then []
    else Program.performed (Database.performOn storage fns s) d.db body
  | _ => []

/-- A call goes on until the end of its section or until it waits. The handlers of
    `execute_query` (`database.cc:361-391`) only clear `active_session_`, the one of
    `DeadlockException` apart. -/
def resume (s : Nat) (storage : Storage) (fns : Functions) : Sections → Dispatcher
  | .done (.ok _) => d.clearActive.finish s
  | .done (.error exn) =>
    match exn.kind with
    | .deadlock => d.clearActive.setRest s fns (onDeadlock exn)
    | _ => d.clearActive.finish s
  | .asks next => d.setRest s fns (next (d.db.sessions s).inTransaction)
  | .enter guarded body next =>
    if guarded && d.blocked s then d
    else
      match Program.exec (Database.performOn storage fns s) d.db body with
      | (db, .done outcome) => ({ d with db := db }.unlock s).setRest s fns (next outcome)
      | (db, .perform op k) =>
        { d with db := db, mutex := if guarded then some s else d.mutex }.setRest s fns
          (.enter guarded (Program.perform op k) next)
  | .alter execute next =>
    if d.blocked s then d
    else
      let (tables, outcome) := execute d.db.tables
      { d with db := { d.db with tables := tables } }.setRest s fns (next outcome)
  | .persist result inTx next =>
    if d.blocked s then d
    else
      let (db, outcome) := d.db.persistDirtyTables storage result inTx
      { d with db := db }.setRest s fns (next outcome)

/-- One event. -/
def step : Event → Dispatcher
  | .call fns s command =>
    match d.calls s with
    | some _ => d
    | none => { d with db := { d.db with activeSession := some s } }.setRest s fns command.dispatch
  | .resume s storage =>
    match d.calls s with
    | none => d
    | some (fns, rest) => d.resume s storage fns rest
  | .vacuumWorker => if d.mutex.isSome then d else { d with db := d.db.vacuumAllTables.1 }

end Dispatcher

end NobugDb
