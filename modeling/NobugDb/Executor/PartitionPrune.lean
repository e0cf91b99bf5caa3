import NobugDb.Core.Partition
import NobugDb.Executor.IndexPath

/-!
# Pruning by WHERE

The constraints WHERE puts on the partition key (`src/executor/partition_prune.cc`) and the
children they leave (`database.cc:1552-1561`).
-/

namespace NobugDb

/-- The constraint of one predicate (`partition_prune.cc:22-47`); no predicate has an upper bound
    of its own. -/
def PartitionPruneConstraint.ofPredicate (pred : IndexColumnPredicate) : PartitionPruneConstraint :=
  match pred.op with
  | .equal => { op := .equal, lower := pred.literal }
  | .less => { op := .less, upper := pred.literal, upperInclusive := false }
  | .lessEqual => { op := .lessEqual, upper := pred.literal, upperInclusive := true }
  | .greater => { op := .greater, lower := pred.literal, lowerInclusive := false }
  | .greaterEqual => { op := .greaterEqual, lower := pred.literal, lowerInclusive := true }

variable {Q : Type}

/-- The predicates of WHERE on a column of this name, whatever table they are qualified with. -/
def keyPredicates (keyColumn : String) (cond : Option (Expr Q)) : List IndexColumnPredicate :=
  match cond with
  | none => []
  | some e =>
    ((IndexColumnPredicate.extract e).getD []).filter (fun pred => pred.columnName = keyColumn)

/-- `buildPartitionPruneRequest` (`partition_prune.cc:7-58`). -/
def buildPartitionPruneRequest (keyColumn : String) (cond : Option (Expr Q)) :
    List PartitionPruneConstraint :=
  (keyPredicates keyColumn cond).map PartitionPruneConstraint.ofPredicate

/-- `Database::listPrunedPartitions` (`database.cc:1552-1561`). -/
def listPrunedPartitions (metadata : PartitionedTableMetadata) (cond : Option (Expr Q)) :
    List String :=
  metadata.prune (buildPartitionPruneRequest metadata.keyColumn cond)

end NobugDb
