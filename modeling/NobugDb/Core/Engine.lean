import NobugDb.Executor.Dml

/-!
# Calls of `execute_query`

Sessions call `Database::execute_query` from their own threads. A call goes through phases:
`dispatch_statement` waits for the database mutex or for locks between them, and there other
calls may run. Within a phase the work is a program that stops in front of a lock it has to
wait for; a statement a trigger runs may stop like that with the mutex held.
-/

namespace NobugDb

open Misc (Program)

/-- How far a call has come. -/
inductive Phase where
  /-- Before, or in, the section that looks up the rows to lock. -/
  | preview (rest : Body (List String))
  /-- Acquiring locks. -/
  | locking (rest : Body Unit)
  /-- Before, or in, the statement's `run_locked`. -/
  | body (rest : Body QueryResult)
  /-- Before `persist_dirty_tables`. -/
  | persist (result : QueryResult)
  /-- Before `active_session_ = nullptr` and the return. -/
  | done (result : QueryResult)
  /-- In the handler of `DeadlockException`, after `active_session_ = nullptr`. -/
  | deadlocked (e : Exn)

/-- A call. `inTx` is the local `in_tx` of `dispatch_statement`. -/
structure Call where
  env : Env
  statement : Statement
  inTx : Bool
  phase : Phase

/-- The database with the calls in progress, the session whose call holds `db_mutex_` while it
    waits for a lock, and the result of the last call of each session. -/
structure Engine where
  db : Database
  calls : Nat → Option Call := fun _ => none
  mutex : Option Nat := none
  results : Nat → Option QueryResult := fun _ => none

/-- What can happen next. -/
inductive Action where
  /-- A session calls `execute_query`. -/
  | call (env : Env) (s : Nat) (statement : Statement)
  /-- The call of a session goes on. -/
  | resume (s : Nat)
  /-- A turn of `run_vacuum_worker` (`database.cc:109-130`). -/
  | vacuumWorker

namespace Statement

/-- Where `dispatch_statement` (`database.cc:394-598`) starts on a statement. -/
def startPhase (env : Env) (statement : Statement) : Phase :=
  match statement with
  | .insert stmt => .locking (Body.acquire stmt.table .exclusive)
  | .createIndex table _ _ => .locking (Body.acquire table .exclusive)
  | .update _ | .delete _ => .preview (Executor.preview env statement)
  | _ => .body (Executor.body env statement)

/-- The statement's branch calls `release_session_locks` outside a transaction. -/
def releases : Statement → Bool
  | .insert _ | .update _ | .delete _ | .createIndex _ _ _ => true
  | _ => false

/-- The statement's branch ends with `persist_dirty_tables`. -/
def persists : Statement → Bool
  | .insert _ | .update _ | .delete _ | .createIndex _ _ _ | .dropIndex _ => true
  | _ => false

end Statement

namespace Engine

variable (e : Engine)

/-- The call goes on with another phase. -/
def setPhase (s : Nat) (call : Call) (phase : Phase) : Engine :=
  { e with calls := Function.update e.calls s (some { call with phase := phase }) }

/-- The call returns. -/
def finish (s : Nat) (result : QueryResult) : Engine :=
  { e with
    calls := Function.update e.calls s none
    results := Function.update e.results s (some result) }

/-- `active_session_ = nullptr`. -/
def clearActive : Engine := { e with db := { e.db with activeSession := none } }

/-- The call's `lock_guard`s on the database mutex end. -/
def unlock (s : Nat) : Engine := if e.mutex = some s then { e with mutex := none } else e

/-- The handlers of `execute_query` (`database.cc:361-391`). -/
def handle (s : Nat) (call : Call) (exn : Exn) : Engine :=
  match exn.kind with
  | .deadlock => e.clearActive.setPhase s call (.deadlocked exn)
  | .outOfRange | .filesystem | .undefined =>
    e.clearActive.finish s (.errorResult ("Unexpected error: " ++ exn.what))
  | _ => e.clearActive.finish s (.errorResult exn.what)

/-- Another call holds the database mutex. -/
def blocked (s : Nat) : Bool := e.mutex.any (· ≠ s)

/-- The operations a program of the call performs when it goes on, each with the database it
    finds. -/
def performedBy {α : Type} (e : Engine) (s : Nat) (call : Call) (rest : Body α) :
    List (Database × Op) :=
  Program.performed (Database.perform call.env.functions s) e.db rest

/-- Runs a program of the call as far as it goes. It ends with a value, which `next` takes on, or
    with an exception, or in front of a lock; `waits` says what the rest is kept as. -/
def advance {α : Type} (e : Engine) (s : Nat) (call : Call) (rest : Body α)
    (waits : Engine → Body α → Engine) (next : Engine → α → Engine) : Engine :=
  let (db, rest) := Program.exec (Database.perform call.env.functions s) e.db rest
  let e := { e with db := db }
  match rest with
  | .done (.ok a) => next (e.unlock s) a
  | .done (.error exn) => (e.unlock s).handle s call exn
  | .perform op k => waits e (Program.perform op k)

/-- The end of the statement's `run_locked`: locks of an autocommit statement are released. -/
def leaveBody (s : Nat) (call : Call) (result : QueryResult) : Engine :=
  let db :=
    if call.statement.releases && !call.inTx then e.db.releaseSessionLocks s else e.db
  { e with db := db }.setPhase s call
    (if call.statement.persists then .persist result else .done result)

/-- A call goes on until its next phase or until it waits. -/
def resume (s : Nat) (call : Call) : Engine :=
  match call.phase with
  | .preview rest =>
    if e.blocked s then e
    else
      e.advance s call rest
        (fun e rest => { e with mutex := some s }.setPhase s call (.preview rest))
        (fun e keys =>
          e.setPhase s call (.locking (Body.forEach (Body.acquire · .exclusive) keys)))
  | .locking rest =>
    e.advance s call rest
      (fun e rest => e.setPhase s call (.locking rest))
      (fun e _ => e.setPhase s call (.body (Executor.body call.env call.statement)))
  | .body rest =>
    if e.blocked s then e
    else
      e.advance s call rest
        (fun e rest => { e with mutex := some s }.setPhase s call (.body rest))
        (fun e result => e.leaveBody s call result)
  | .persist result =>
    if !result.success || call.inTx then e.setPhase s call (.done result)
    else if e.blocked s then e
    else { e with db := e.db.flush }.setPhase s call (.done result)
  | .done result => e.clearActive.finish s result
  | .deadlocked exn =>
    if (e.db.sessions s).inTransaction then
      if e.blocked s then e
      else { e with db := (e.db.executeRollback s).1 }.finish s (.errorResult exn.what)
    else { e with db := e.db.releaseSessionLocks s }.finish s (.errorResult exn.what)

/-- One action. -/
def step : Action → Engine
  | .call env s statement =>
    match e.calls s with
    | some _ => e
    | none =>
      { e with
        db := { e.db with activeSession := some s }
        calls := Function.update e.calls s
          (some ⟨env, statement, (e.db.sessions s).inTransaction, statement.startPhase env⟩) }
  | .resume s =>
    match e.calls s with
    | none => e
    | some call => e.resume s call
  | .vacuumWorker => if e.mutex.isSome then e else { e with db := e.db.vacuumAllTables.1 }

/-- The operations that the statement of a session's call performs when the call goes on, each
    with the database it finds. -/
def performed (s : Nat) : List (Database × Op) :=
  match e.calls s with
  | none => []
  | some call =>
    match call.phase with
    | .preview rest => if e.blocked s then [] else e.performedBy s call rest
    | .locking rest => e.performedBy s call rest
    | .body rest => if e.blocked s then [] else e.performedBy s call rest
    | _ => []

end Engine

end NobugDb
