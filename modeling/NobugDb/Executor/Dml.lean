import NobugDb.Core.ForeignKeys
import NobugDb.Executor.IndexPath

/-!
# Statements and their executors

The statements of `Parser` that are modelled, and what runs for each of them under the
database mutex: `InsertExecutor`, `UpdateExecutor` and `DeleteExecutor`
(`query_executor.cc:342-689`), queries, and index DDL. The expressions of a statement hold no
subquery.
-/

namespace NobugDb

/-- A query: it reads the visible rows of tables, one after another, and computes a result. -/
inductive Query where
  | result (r : QueryResult)
  | read (table : String) (next : Response → Query)

/-- A query as the body of a SELECT. -/
def Query.body : Query → Body QueryResult
  | .result r => pure r
  | .read table next => do (next (← Body.perform (.visible table))).body

structure InsertStatement where
  table : String
  columns : List String
  values : List (List (Expr Empty))

structure UpdateStatement where
  table : String
  setClauses : List (String × Expr Empty)
  whereCondition : Option (Expr Empty)

structure DeleteStatement where
  table : String
  whereCondition : Option (Expr Empty)

/-- The statements `dispatch_statement` is modelled for. -/
inductive Statement where
  | begin
  | commit
  | rollback
  | vacuum (table : Option String)
  | select (query : Query)
  | insert (stmt : InsertStatement)
  | update (stmt : UpdateStatement)
  | delete (stmt : DeleteStatement)
  | createIndex (table indexName : String) (columns : List String)
  | dropIndex (indexName : String)

namespace Table

/-- `evaluator_for_dml_table` (`query_executor.cc:62-64`) with the contexts the executors set. -/
def dmlEvaluator (t : Table) (env : Env) : Evaluator Empty :=
  t.evaluatorForTable t.name
    { functions := env.functions, bindings := [], correlation := some env.frames,
      binds := env.binds }

/-- `collect_matching_indices` after its `get_visible_row_indices`. -/
def matchingAmong (t : Table) (cond : Option (Expr Empty)) (ev : Evaluator Empty)
    (visible : List Nat) : Except Exn (List Nat) := do
  let candidates ← t.collectCandidateRows t.name cond
  let indices :=
    match candidates with
    | some rows => rows.filter (visible.contains ·)
    | none => visible
  return (← t.acceptedRows ev cond indices).map Prod.fst

theorem collectIndices_eq (t : Table) (tm : TransactionManager) (reader : Nat)
    (snap : Option TransactionSnapshot) (cond : Option (Expr Empty)) (ev : Evaluator Empty) :
    t.collectMatchingIndices tm reader snap cond ev =
      (t.getVisibleRowIndices tm reader snap).bind (t.matchingAmong cond ev) := rfl

/-- The values of a row of VALUES (`query_executor.cc:371-380`), or the message of the first
    that fails. -/
def evaluateValues (ev : Evaluator Empty) :
    List (Expr Empty) → Except Exn (Except String (List Value))
  | [] => .ok (.ok [])
  | e :: es => do
    let (v, err) ← ev.evaluateExpression ⟨[], 0, 0⟩ e (some "")
    let text := err.getD ""
    if text ≠ "" then return .error text
    return (← evaluateValues ev es).map (v :: ·)

/-- The row an INSERT builds (`query_executor.cc:382-410`): columns it does not give a value
    hold their default, or NULL. -/
def insertedValues (t : Table) (columns : List String) (evaluated : List Value) : List Value :=
  let defaults := t.columns.map (fun c => c.defaultValue.getD .null)
  if columns.isEmpty then evaluated ++ defaults.drop evaluated.length
  else
    (columns.zip evaluated).foldl
      (fun values p =>
        match t.getColumnIndex p.1 with
        | some i => values.set i p.2
        | none => values)
      defaults

/-- The row an UPDATE makes of a row (`query_executor.cc:540-547`). -/
def assigned (t : Table) (ev : Evaluator Empty) (current : Row) :
    List (String × Expr Empty) → Row → Except Exn Row
  | [], new => .ok new
  | (column, e) :: rest, new =>
    match t.getColumnIndex column with
    | none => t.assigned ev current rest new
    | some i => do
      let (v, _) ← ev.evaluateExpression current e none
      t.assigned ev current rest (← new.setValue i v)

end Table

/-! ## Executors -/
namespace Executor

/-- The result of a statement that ran to its end. -/
def affected (message : String) (count : Nat) : QueryResult := ⟨true, message, count, [], []⟩

/-- `catch (const std::exception &e)` of the executors' loops: the statement ends with an error. -/
def orFail (text : String) (body : Body (Option QueryResult)) : Body (Option QueryResult) :=
  tryCatch body (fun e => pure (some (.errorResult (text ++ e.what))))

variable (env : Env)

/-- A row write between its triggers: `some` result ends the statement. `write` gets NEW as the
    BEFORE triggers left it. -/
def betweenTriggers (event : TriggerEvent) (name : String) (old new : Option Row)
    (write : Option Row → Body Unit) : Body (Option QueryResult) := do
  let (before, new) ← env.fireTriggers .before event name old new
  if !before.success then return some before
  write new
  let (after, _) ← env.fireTriggers .after event name old new
  if !after.success then return some after
  return none

/-- One row of an INSERT (`query_executor.cc:371-457`). -/
def insertOne (stmt : InsertStatement) (t : Table) (exprs : List (Expr Empty)) :
    Body (Option QueryResult) := do
  match ← (Table.evaluateValues (t.dmlEvaluator env) exprs : Except Exn _) with
  | .error text => return some (.errorResult text)
  | .ok evaluated =>
    let row : Row := ⟨t.insertedValues stmt.columns evaluated, 0, 0⟩
    Database.validateForeignKeysOnInsert t row
    betweenTriggers env .insert t.name none (some row) (fun new => do
      let _ ← Body.perform (.insert stmt.table (new.getD row).values))

/-- The loop of `InsertExecutor::execute` (`query_executor.cc:369-466`). -/
def insertRows (env : Env) (stmt : InsertStatement) (t : Table) :
    List (List (Expr Empty)) → Nat → Body QueryResult
  | [], count => return affected "INSERT OK" count
  | exprs :: rest, count => do
    match ← orFail "Insert failed: " (insertOne env stmt t exprs) with
    | some result => return result
    | none => insertRows env stmt t rest (count + 1)

/-- `InsertExecutor::execute` (`query_executor.cc:348-467`). -/
def executeInsert (stmt : InsertStatement) : Body QueryResult := do
  match ← Body.getTable stmt.table with
  | none => return .errorResult ("Table '" ++ stmt.table ++ "' not found")
  | some t =>
    if stmt.values.isEmpty then return .errorResult "No values to insert"
    insertRows env stmt t stmt.values 0

/-- `UpdateExecutor::collect_matching_indices` and that of `DeleteExecutor`, for the active
    session. -/
def collectMatching (name : String) (t : Table) (cond : Option (Expr Empty)) : Body (List Nat) := do
  let visible := (← Body.perform (.visible name)).visible
  (t.matchingAmong cond (t.dmlEvaluator env) visible : Except Exn (List Nat))

/-- The write of one row of an UPDATE (`query_executor.cc:549-576`). -/
def updateOne (stmt : UpdateStatement) (t : Table) (i : Nat) (current new : Row) :
    Body (Option QueryResult) := do
  Database.validateForeignKeysOnUpdate env t current new
  betweenTriggers env .update t.name (some current) (some new) (fun rewritten => do
    let _ ← Body.perform (.update stmt.table i (rewritten.getD new).values))

/-- The loop of `UpdateExecutor::execute` (`query_executor.cc:533-585`). -/
def updateRows (env : Env) (stmt : UpdateStatement) (t : Table) : List Nat → Nat → Body QueryResult
  | [], count => return affected "UPDATE OK" count
  | i :: rest, count => do
    match ← Body.getTable stmt.table with
    | none => throw ⟨.notFound, "Table '" ++ stmt.table ++ "' not found"⟩
    | some now =>
      if now.rowCount ≤ i then updateRows env stmt t rest count
      else
        let ev := t.dmlEvaluator env
        let current ← (now.getRow i : Except Exn Row)
        if ← (Table.accepts ev stmt.whereCondition current : Except Exn Bool) then
          let new ← (t.assigned ev current stmt.setClauses current : Except Exn Row)
          match ← orFail "Update failed: " (updateOne env stmt t i current new) with
          | some result => return result
          | none => updateRows env stmt t rest (count + 1)
        else updateRows env stmt t rest count

/-- `UpdateExecutor::execute` (`query_executor.cc:521-586`). -/
def executeUpdate (stmt : UpdateStatement) : Body QueryResult := do
  match ← Body.getTable stmt.table with
  | none => return .errorResult ("Table '" ++ stmt.table ++ "' not found")
  | some t => updateRows env stmt t (← collectMatching env stmt.table t stmt.whereCondition) 0

/-- The deletion of one row of a DELETE (`query_executor.cc:654-680`). -/
def deleteOne (stmt : DeleteStatement) (t : Table) (inTx : Bool) (i : Nat) :
    Body (Option QueryResult) := do
  let row ← Database.currentRow stmt.table i
  Database.validateForeignKeysOnDelete env t row
  betweenTriggers env .delete t.name (some row) none (fun _ => do
    let _ ← Body.perform (.delete stmt.table i inTx))

/-- The loop of `DeleteExecutor::execute` (`query_executor.cc:652-688`). -/
def deleteRows (env : Env) (stmt : DeleteStatement) (t : Table) (inTx : Bool) :
    List Nat → Nat → Body QueryResult
  | [], count => return affected "DELETE OK" count
  | i :: rest, count => do
    match ← orFail "Delete failed: " (deleteOne env stmt t inTx i) with
    | some result => return result
    | none => deleteRows env stmt t inTx rest (count + 1)

/-- `DeleteExecutor::execute` (`query_executor.cc:642-689`). -/
def executeDelete (stmt : DeleteStatement) : Body QueryResult := do
  match ← Body.getTable stmt.table with
  | none => return .errorResult ("Table '" ++ stmt.table ++ "' not found")
  | some t =>
    let rows ← collectMatching env stmt.table t stmt.whereCondition
    let inTx := (← Body.perform .look).inTransaction
    deleteRows env stmt t inTx (rows.mergeSort (fun a b => b ≤ a)) 0

/-- `Database::execute_create_index_statement` (`database.cc:1746-1767`). -/
def executeCreateIndex (table indexName : String) (columns : List String) : Body QueryResult := do
  let tables := (← Body.perform .look).tables
  if (tables.lookup table).isNone then
    return .errorResult ("Table '" ++ table ++ "' not found")
  if tables.any (fun e => e.2.secondaryIndexes.contains indexName) then
    return .errorResult ("Index '" ++ indexName ++ "' already exists")
  tryCatch
    (do
      let _ ← Body.perform (.createIndex table indexName columns)
      return .successResult "CREATE INDEX OK")
    (fun e => pure (.errorResult e.what))

/-- The rows whose locks UPDATE and DELETE take before they run (`database.cc:453-461`,
    `473-481`). -/
def preview : Statement → Body (List String)
  | .update stmt => previewOf stmt.table stmt.whereCondition
  | .delete stmt => previewOf stmt.table stmt.whereCondition
  | _ => pure []
where
  previewOf (name : String) (cond : Option (Expr Empty)) : Body (List String) := do
    match ← Body.getTable name with
    | none => return []
    | some t =>
      return (← collectMatching env name t cond).map (LockManager.makeRowLockKey name)

/-- What `dispatch_statement` runs under the mutex for a statement. -/
def body (env : Env) : Statement → Body QueryResult
  | .begin => do return (← Body.perform .begin).result
  | .commit => do return (← Body.perform .commit).result
  | .rollback => do return (← Body.perform .rollback).result
  | .vacuum table => do return (← Body.perform (.vacuum table)).result
  | .select query => query.body
  | .insert stmt => executeInsert env stmt
  | .update stmt => executeUpdate env stmt
  | .delete stmt => executeDelete env stmt
  | .createIndex table indexName columns => executeCreateIndex table indexName columns
  | .dropIndex indexName => do return (← Body.perform (.dropIndex indexName)).result

end Executor

end NobugDb
