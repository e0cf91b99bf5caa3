import NobugDb.Types.Value

/-!
# ORDER BY

`SortOperator` (`src/executor/sort_operator.cc`). The expressions of ORDER BY have been evaluated:
each row comes with their values.
-/

namespace NobugDb.SortOperator

/-- `compare_order_values` (`sort_operator.cc:11-18`): NULLs come last in both directions. -/
def compareOrderValues (a b : Value) (ascending : Bool) : Ordering :=
  if a.isNull && b.isNull then .eq
  else if a.isNull then .gt
  else if b.isNull then .lt
  else if a.eq b then .eq
  else if ascending then (if a.lt b then .lt else .gt)
  else (if a.gt b then .lt else .gt)

/-- The comparison `apply` hands to `std::stable_sort` (`sort_operator.cc:33-47`): the first
    expression on which the rows differ decides. -/
def before : (ascending : List Bool) → (a b : List Value) → Bool
  | up :: directions, a :: as, b :: bs =>
    match compareOrderValues a b up with
    | .lt => true
    | .gt => false
    | .eq => before directions as bs
  | _, _, _ => false

end NobugDb.SortOperator
