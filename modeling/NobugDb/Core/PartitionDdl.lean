import NobugDb.Core.Partition
import NobugDb.Core.TableDdl

/-!
# The children of a partitioned table

The table that `Database::execute_create_partition_of` makes for a new partition
(`database.cc:1427-1483`).
-/

namespace NobugDb.Table

/-- `child->add_column(col)` for each column of the parent. -/
def addColumns : List Column → Table → Table × Except Exn Unit
  | [], t => (t, .ok ())
  | column :: rest, t => andThen (t.addColumn column) (addColumns rest)

/-- What the child gets of the parent (`database.cc:1458-1463`): columns with their flags, CHECK
    constraints and secondary indexes. Keys over several columns are not among it. -/
def copyDefinition (parent : Table) (childName : String) : Table × Except Exn Unit :=
  andThen (addColumns parent.columns { name := childName }) (fun child =>
    ({ child with checks := parent.checks, secondaryIndexes := parent.secondaryIndexes }, .ok ()))

/-- The child as `execute_create_partition_of` leaves it (`database.cc:1458-1471`). -/
def partitionChild (parent : Table) (childName : String) : Table × Except Exn Unit :=
  andThen (parent.copyDefinition childName) rebuildIndexes

end NobugDb.Table
