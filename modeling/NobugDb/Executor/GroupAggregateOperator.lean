import NobugDb.Executor.Evaluator
import NobugDb.Misc.AssocMap

/-!
# GROUP BY

The groups of `GroupAggregateOperator::apply` (`src/executor/group_aggregate_operator.cc`). The
accumulators of the aggregates are left out: of the aggregates only whether there are any decides
which groups there are.
-/

namespace NobugDb.GroupAggregateOperator

open Misc

variable {Q : Type}

/-- `group_key_string` (`group_aggregate_operator.cc:15-22`). -/
def groupKeyString (key : List Value) : List Char :=
  ['\x1f'].intercalate (key.map (fun v => v.toString.toList))

/-- `groups`: the rows of each group, under the text of its key. -/
abbrev Groups := AssocMap (List Char) (List Row)

/-- `groups[key_str].rows.push_back(row)`. -/
def place (text : List Char) (row : Row) (groups : Groups) : Groups :=
  if text ∈ groups.map Prod.fst then groups.adjust text (· ++ [row]) else groups ++ [(text, [row])]

/-- The loop over the input rows (`group_aggregate_operator.cc:205-242`). -/
def placeRows (ev : Evaluator Q) (groupBy : List (Expr Q)) : List Row → Groups → Except Exn Groups
  | [], groups => .ok groups
  | row :: rows, groups => do
    let key ← ev.evaluateValues row groupBy
    placeRows ev groupBy rows (place (groupKeyString key) row groups)

/-- The groups before HAVING (`group_aggregate_operator.cc:203-255`). -/
def makeGroups (ev : Evaluator Q) (groupBy aggregates : List (Expr Q)) (rows : List Row) :
    Except Exn Groups := do
  let groups ← placeRows ev groupBy rows []
  return if groups.isEmpty && !aggregates.isEmpty then [(groupKeyString [], [])] else groups

end NobugDb.GroupAggregateOperator
