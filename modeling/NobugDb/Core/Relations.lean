import NobugDb.Core.Database
import NobugDb.Core.Partition

/-!
# Tables and views by name

The statements that give names to tables and views and take them away: CREATE TABLE, also as a
partition of another, CREATE VIEW, ALTER TABLE ... RENAME TO, DROP TABLE and DROP VIEW
(`src/core/database.cc`, `src/executor/ddl_executor.cc`). A table is its foreign keys and its
partitions here. How its definition and the files fare is given with each statement.
-/

namespace NobugDb

open Misc (AssocMap)

/-- A table, as far as these statements read it. -/
structure NamedTable where
  hasForeignKeys : Bool := false
  partitions : Option PartitionedTableMetadata := none

/-- `tables_` and `view_catalog_`. -/
structure Relations where
  tables : AssocMap String NamedTable := []
  views : AssocMap String String := []

/-- The statements. `build` is what comes of the definition of the new table, with the text of the
    error, and `saved` what comes of the files. -/
inductive RelationStatement where
  | createTable (name : String) (table : NamedTable) (build : Except String Unit)
      (saved : Except Exn Unit)
  | createPartitionOf (name parent : String) (bound : PartitionBound) (build saved : Except Exn Unit)
  | createView (name selectSql : String) (saved : Except Exn Unit)
  | renameTable (name newName : String) (saved : Except Exn Unit)
  | dropTable (name : String) (saved : Except Exn Unit)
  | dropView (name : String) (ifExists : Bool) (removed : Except Exn Unit)

namespace Relations

/-- `Database::execute_create_table_statement` (`database.cc:1362-1402`). -/
def executeCreateTable (r : Relations) (name : String) (table : NamedTable) (build : Except String Unit)
    (saved : Except Exn Unit) : Relations × QueryResult :=
  if r.views.contains name then
    (r, .errorResult ("Relation '" ++ name ++ "' already exists as a view"))
  else if table.partitions.isSome && table.hasForeignKeys then
    (r, .errorResult "FOREIGN KEY is not supported on partitioned parent tables")
  else if r.tables.contains name then (r, .errorResult ("Table '" ++ name ++ "' already exists"))
  else
    match build with
    | .error text => (r, .errorResult text)
    | .ok () =>
      let r := { r with tables := r.tables.assign name table }
      match table.partitions, saved with
      | some _, .error e => (r, .errorResult e.what)
      | _, _ => (r, .successResult "CREATE TABLE OK")

/-- The metadata of a partitioned table is changed. -/
def setPartitions (r : Relations) (name : String) (metadata : PartitionedTableMetadata) : Relations :=
  { r with tables := r.tables.adjust name (fun table => { table with partitions := some metadata }) }

/-- `Database::execute_create_partition_of` (`database.cc:1427-1483`). -/
def executeCreatePartitionOf (r : Relations) (name parentName : String) (bound : PartitionBound)
    (build saved : Except Exn Unit) : Relations × QueryResult :=
  if r.tables.contains name || r.views.contains name then
    (r, .errorResult ("Relation '" ++ name ++ "' already exists"))
  else
    match r.tables.lookup parentName with
    | none => (r, .errorResult ("Parent table '" ++ parentName ++ "' not found"))
    | some parent =>
      match parent.partitions with
      | none => (r, .errorResult ("Table '" ++ parentName ++ "' is not partitioned"))
      | some metadata =>
        let undone := fun metadata : PartitionedTableMetadata =>
          r.setPartitions parentName (metadata.removePartition name)
        if parent.hasForeignKeys then
          (r, .errorResult "FOREIGN KEY is not supported on partitioned parent tables")
        else if metadata.kind = .range && bound.range.isNone then
          (r, .errorResult "RANGE parent requires FOR VALUES FROM (...) TO (...)")
        else if metadata.kind = .hash && bound.hash.isNone then
          (r, .errorResult "HASH parent requires FOR VALUES WITH (MODULUS ..., REMAINDER ...)")
        else
          match build with
          | .error e => (undone metadata, .errorResult e.what)
          | .ok () =>
            match metadata.addPartition ⟨name, bound⟩ with
            | .error text => (r, .errorResult text)
            | .ok metadata =>
              match saved with
              | .error e => (undone metadata, .errorResult e.what)
              | .ok () =>
                let r := r.setPartitions parentName metadata
                ({ r with tables := r.tables.assign name {} }, .successResult "CREATE TABLE OK")

/-- `Database::execute_create_view_statement` (`database.cc:1781-1802`). -/
def executeCreateView (r : Relations) (name selectSql : String) (saved : Except Exn Unit) :
    Relations × QueryResult :=
  if r.tables.contains name then
    (r, .errorResult ("Relation '" ++ name ++ "' already exists as a table"))
  else if r.views.contains name then (r, .errorResult ("View '" ++ name ++ "' already exists"))
  else
    match saved with
    | .error e => (r, .errorResult e.what)
    | .ok () =>
      ({ r with views := r.views.assign name selectSql }, .successResult "CREATE VIEW OK")

/-- `AlterTableExecutor::execute` for RENAME TO (`ddl_executor.cc:54-62`, `95-108`): the names of
    views are not looked at, and the file is renamed last. -/
def executeRenameTable (r : Relations) (name newName : String) (saved : Except Exn Unit) :
    Relations × QueryResult :=
  match r.tables.lookup name with
  | none => (r, .errorResult ("Table '" ++ name ++ "' not found"))
  | some table =>
    if r.tables.contains newName then
      (r, .errorResult ("Table '" ++ newName ++ "' already exists"))
    else
      let r := { r with tables := (r.tables.erase name).assign newName table }
      match saved with
      | .error e => (r, .errorResult ("ALTER TABLE failed: " ++ e.what))
      | .ok () => (r, .successResult "ALTER TABLE OK")

/-- `Database::findPartitionParent` (`database.cc:1563-1574`). -/
def findPartitionParent (r : Relations) (childName : String) :
    Option (String × PartitionedTableMetadata) :=
  r.tables.findSome? (fun e =>
    (e.2.partitions.filter (·.hasChild childName)).map (fun metadata => (e.1, metadata)))

/-- `Database::execute_drop_table_statement` (`database.cc:1485-1515`) with
    `DropTableExecutor::execute`. -/
def executeDropTable (r : Relations) (name : String) (saved : Except Exn Unit) :
    Relations × QueryResult :=
  let dropped := fun r : Relations =>
    if r.tables.contains name then
      ({ r with tables := r.tables.erase name }, QueryResult.successResult "DROP TABLE OK")
    else (r, .errorResult ("Table '" ++ name ++ "' not found"))
  match r.tables.lookup name with
  | none => (r, .errorResult ("Table '" ++ name ++ "' not found"))
  | some table =>
    match table.partitions, r.findPartitionParent name with
    | some metadata, _ =>
      dropped { r with tables :=
        metadata.partitions.foldl (fun tables part => tables.erase part.childTableName) r.tables }
    | none, none => dropped r
    | none, some (parent, metadata) =>
      let r := r.setPartitions parent (metadata.removePartition name)
      match saved with
      | .error e => (r, .errorResult e.what)
      | .ok () => dropped r

/-- `Database::execute_drop_view_statement` (`database.cc:1804-1819`). -/
def executeDropView (r : Relations) (name : String) (ifExists : Bool) (removed : Except Exn Unit) :
    Relations × QueryResult :=
  if r.views.contains name then
    ({ r with views := r.views.erase name },
      match removed with
      | .error e => .errorResult e.what
      | .ok () => .successResult "DROP VIEW OK")
  else if ifExists then (r, .successResult "DROP VIEW OK")
  else (r, .errorResult ("View '" ++ name ++ "' not found"))

/-- The statement's executor. -/
def execute (r : Relations) : RelationStatement → Relations × QueryResult
  | .createTable name table build saved => r.executeCreateTable name table build saved
  | .createPartitionOf name parent bound build saved =>
    r.executeCreatePartitionOf name parent bound build saved
  | .createView name selectSql saved => r.executeCreateView name selectSql saved
  | .renameTable name newName saved => r.executeRenameTable name newName saved
  | .dropTable name saved => r.executeDropTable name saved
  | .dropView name ifExists removed => r.executeDropView name ifExists removed

def step (r : Relations) (statement : RelationStatement) : Relations := (r.execute statement).1

end Relations

end NobugDb
