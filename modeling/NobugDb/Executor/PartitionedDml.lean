import NobugDb.Executor.Dml
import NobugDb.Executor.PartitionPrune

/-!
# DML on partitioned tables

INSERT, UPDATE and DELETE on a partitioned parent, which hold their rows in child tables
(`query_executor.cc:412-448`, `database.cc:1517-1738`). `catalog` has the partition metadata of
the parents.
-/

namespace NobugDb

open Misc (AssocMap)

namespace Executor

variable (env : Env) (metadata : PartitionedTableMetadata)

/-- `Database::resolvePartitionChild` (`database.cc:1517-1550`): the name of the child, or the
    error. -/
def resolvePartitionChild (parent : Table) (row : Row) : Body (Except String String) := do
  match parent.getColumnIndex metadata.keyColumn with
  | none => return .error "Partition key column missing"
  | some i =>
    let key ← (row.getValue i : Except Exn Value)
    match metadata.resolveChild key with
    | none => return .error ("No partition for partition key value " ++ key.toString)
    | some child =>
      if (← Body.getTable child).isNone then
        return .error ("Partition child '" ++ child ++ "' not found")
      return .ok child

/-- One row of an INSERT into a partitioned table (`query_executor.cc:371-457`). -/
def insertOneRouted (stmt : InsertStatement) (parent : Table) (exprs : List (Expr Empty)) :
    Body (Option QueryResult) := do
  match ← (Table.evaluateValues (parent.dmlEvaluator env) exprs : Except Exn _) with
  | .error text => return some (.errorResult text)
  | .ok evaluated =>
    let row : Row := ⟨parent.insertedValues stmt.columns evaluated, 0, 0⟩
    Database.validateForeignKeysOnInsert parent row
    match ← resolvePartitionChild metadata parent row with
    | .error e => return some (.errorResult e)
    | .ok _ =>
      let (before, new) ← env.fireTriggers .before .insert parent.name none (some row)
      if !before.success then return some before
      let new := new.getD row
      match ← resolvePartitionChild metadata parent new with
      | .error e => return some (.errorResult e)
      | .ok child =>
        let _ ← Body.perform (.insert child new.values)
        let (after, _) ← env.fireTriggers .after .insert parent.name none (some new)
        if !after.success then return some after
        return none

/-- The loop of `InsertExecutor::execute` (`query_executor.cc:369-466`). -/
def insertRowsRouted (env : Env) (metadata : PartitionedTableMetadata) (stmt : InsertStatement)
    (parent : Table) : List (List (Expr Empty)) → Nat → Body QueryResult
  | [], count => return affected "INSERT OK" count
  | exprs :: rest, count => do
    match ← orFail "Insert failed: " (insertOneRouted env metadata stmt parent exprs) with
    | some result => return result
    | none => insertRowsRouted env metadata stmt parent rest (count + 1)

/-- `InsertExecutor::execute` (`query_executor.cc:348-467`) on a partitioned table. -/
def executePartitionedInsert (stmt : InsertStatement) : Body QueryResult := do
  match ← Body.getTable stmt.table with
  | none => return .errorResult ("Table '" ++ stmt.table ++ "' not found")
  | some parent =>
    if stmt.values.isEmpty then return .errorResult "No values to insert"
    insertRowsRouted env metadata stmt parent stmt.values 0

/-- The write of an updated row, to its child or from there to another one
    (`database.cc:1653-1668`). -/
def writeRouted (childName : String) (i : Nat) (target : String) (values : List Value) :
    Body Unit := do
  if target = childName then
    let _ ← Body.perform (.update childName i values)
  else
    let inTx := (← Body.perform .look).inTransaction
    let _ ← Body.perform (.delete childName i inTx)
    let _ ← Body.perform (.insert target values)

/-- The update of one row of a child (`database.cc:1641-1675`). -/
def updateOneRouted (parent : Table) (childName : String) (child : Table) (i : Nat)
    (current new : Row) : Body (Option QueryResult) := do
  Database.validateForeignKeysOnUpdate env child current new
  let (before, rewritten) ← env.fireTriggers .before .update parent.name (some current) (some new)
  if !before.success then return some before
  let new := rewritten.getD new
  match ← resolvePartitionChild metadata parent new with
  | .error e => return some (.errorResult e)
  | .ok target =>
    writeRouted childName i target new.values
    let (after, _) ← env.fireTriggers .after .update parent.name (some current) (some new)
    if !after.success then return some after
    return none

/-- The evaluator of the SET expressions (`database.cc:1621-1626`). -/
def childEvaluator (childName : String) (child : Table) : Evaluator Empty :=
  { functions := env.functions
    bindings := child.columns.map (fun c => ⟨childName, childName, c.name⟩) }

/-- The loop over the matching rows of a child (`database.cc:1628-1680`): the result that ends
    the statement, or the number of rows updated so far. -/
def updateChildRows (env : Env) (metadata : PartitionedTableMetadata) (parent : Table)
    (stmt : UpdateStatement) (childName : String) (child : Table) :
    List Nat → Nat → Body (QueryResult ⊕ Nat)
  | [], count => return .inr count
  | i :: rest, count => do
    match ← Body.getTable childName with
    | none => throw ⟨.notFound, "Table '" ++ childName ++ "' not found"⟩
    | some now =>
      if now.rowCount ≤ i then
        updateChildRows env metadata parent stmt childName child rest count
      else
        let current ← (now.getRow i : Except Exn Row)
        let ev := childEvaluator env childName child
        let new ← (child.assigned ev current stmt.setClauses current : Except Exn Row)
        match ← orFail "Update failed: "
            (updateOneRouted env metadata parent childName child i current new) with
        | some result => return .inl result
        | none => updateChildRows env metadata parent stmt childName child rest (count + 1)

/-- Runs a loop body for each child that is there, up to the first that ends the statement. -/
def eachChild (inChild : String → Table → Nat → Body (QueryResult ⊕ Nat)) (message : String) :
    List String → Nat → Body QueryResult
  | [], count => return affected message count
  | childName :: rest, count => do
    match ← Body.getTable childName with
    | none => eachChild inChild message rest count
    | some child =>
      match ← inChild childName child count with
      | .inl result => return result
      | .inr count => eachChild inChild message rest count

/-- `Database::execute_partitioned_update` (`database.cc:1603-1685`). -/
def executePartitionedUpdate (stmt : UpdateStatement) : Body QueryResult := do
  match ← Body.getTable stmt.table with
  | none => return .errorResult ("Table '" ++ stmt.table ++ "' not found")
  | some parent =>
    eachChild
      (fun childName child count => do
        let rows ← collectMatching env childName child stmt.whereCondition
        updateChildRows env metadata parent stmt childName child
          (rows.mergeSort (fun a b => b ≤ a)) count)
      "UPDATE OK" (listPrunedPartitions metadata stmt.whereCondition) 0

/-- The deletion of one row of a child (`database.cc:1709-1732`). -/
def deleteOneRouted (parentName childName : String) (child : Table) (inTx : Bool) (i : Nat) :
    Body (Option QueryResult) := do
  let row ← Database.currentRow childName i
  Database.validateForeignKeysOnDelete env child row
  betweenTriggers env .delete parentName (some row) none (fun _ => do
    let _ ← Body.perform (.delete childName i inTx))

/-- The loop over the matching rows of a child (`database.cc:1705-1733`). -/
def deleteChildRows (env : Env) (parentName childName : String) (child : Table) (inTx : Bool) :
    List Nat → Nat → Body (QueryResult ⊕ Nat)
  | [], count => return .inr count
  | i :: rest, count => do
    match ← Body.getTable childName with
    | none => throw ⟨.notFound, "Table '" ++ childName ++ "' not found"⟩
    | some now =>
      if now.rowCount ≤ i then deleteChildRows env parentName childName child inTx rest count
      else
        match ← orFail "Delete failed: "
            (deleteOneRouted env parentName childName child inTx i) with
        | some result => return .inl result
        | none => deleteChildRows env parentName childName child inTx rest (count + 1)

/-- `Database::execute_partitioned_delete` (`database.cc:1687-1738`). -/
def executePartitionedDelete (stmt : DeleteStatement) : Body QueryResult := do
  match ← Body.getTable stmt.table with
  | none => return .errorResult ("Table '" ++ stmt.table ++ "' not found")
  | some parent =>
    let inTx := (← Body.perform .look).inTransaction
    eachChild
      (fun childName child count => do
        let rows ← collectMatching env childName child stmt.whereCondition
        deleteChildRows env parent.name childName child inTx
          (rows.mergeSort (fun a b => b ≤ a)) count)
      "DELETE OK" (listPrunedPartitions metadata stmt.whereCondition) 0

/-- What runs for INSERT, UPDATE and DELETE (`database.cc:846-883`), whether the table is
    partitioned or not. -/
def dmlBody (catalog : AssocMap String PartitionedTableMetadata) : Statement → Body QueryResult
  | .insert stmt =>
    match catalog.lookup stmt.table with
    | none => executeInsert env stmt
    | some metadata => executePartitionedInsert env metadata stmt
  | .update stmt =>
    match catalog.lookup stmt.table with
    | none => executeUpdate env stmt
    | some metadata => executePartitionedUpdate env metadata stmt
  | .delete stmt =>
    match catalog.lookup stmt.table with
    | none => executeDelete env stmt
    | some metadata => executePartitionedDelete env metadata stmt
  | statement => body env statement

end Executor

end NobugDb
