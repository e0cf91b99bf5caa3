import NobugDb.Core.Table

/-!
# Constraint checks of a table

`validate_row` and what it calls (`table.cc:700-827`, `table.cc:1164-1184`). A key is taken
when some row with `xmax == 0`, other than the one being replaced, holds an equal key.
-/

namespace NobugDb.Table


/-- `idx != exclude_row_index && get_row(idx).get_xmax() == 0` for some position. -/
def anyLive (t : Table) (exclude : Option Nat) : List Nat → Except Exn Bool
  | [] => .ok false
  | i :: rest =>
    if exclude = some i then t.anyLive exclude rest
    else do
      let row ← t.getRow i
      if row.xmax = 0 then return true else t.anyLive exclude rest

/-- The scan of all rows for a live one that passes the test. -/
def scanLive (t : Table) (exclude : Option Nat) (test : Row → Except Exn Bool) :
    List Nat → Except Exn Bool
  | [] => .ok false
  | i :: rest =>
    if exclude = some i then t.scanLive exclude test rest
    else do
      let row ← t.getRow i
      if row.xmax ≠ 0 then t.scanLive exclude test rest
      else if ← test row then return true
      else t.scanLive exclude test rest

variable (fns : Functions) (t : Table)

/-- `Table::rows_share_key` (`table.cc:796-827`). -/
def rowsShareKey (key : IndexKey) (exclude : Option Nat) (indexName : String)
    (columnNames : List String) : Except Exn Bool :=
  match t.namedIndices.lookup indexName with
  | some index => t.anyLive exclude (index.findEqual key)
  | none =>
    match columnNames, key with
    | [column], [value] =>
      if t.hasIndex column then do
        t.anyLive exclude (← t.findRowsByValue column value)
      else scan
    | _, _ => scan
where
  scan : Except Exn Bool :=
    t.scanLive exclude (fun row => do return (← t.buildIndexKey row columnNames).eq key)
      (List.range t.rowCount)

/-- `Table::get_primary_key_index`. -/
def getPrimaryKeyColumn : Option String :=
  (t.columns.find? (·.primaryKey)).map (·.name)

/-- The columns `validate_primary_key_uniqueness` checks. -/
def keyColumns : List String :=
  if t.primaryKeyColumns.isEmpty then t.getPrimaryKeyColumn.toList else t.primaryKeyColumns

/-- `Table::validate_primary_key_uniqueness` (`table.cc:727-743`). -/
def validatePrimaryKeyUniqueness (row : Row) (exclude : Option Nat) : Except Exn Bool :=
  if t.keyColumns.isEmpty then .ok true
  else do
    let key ← t.buildIndexKey row t.keyColumns
    if key.hasNull then return false
    return !(← t.rowsShareKey key exclude primaryKeyIndexName t.keyColumns)

/-- A column flagged UNIQUE is left to the table-level constraint on the same column. -/
def coveredByConstraint (columnName : String) : Bool :=
  t.uniqueConstraints.any (fun uq => uq.columns == [columnName])

/-- The first loop of `validate_unique_constraint`: columns flagged UNIQUE
    (`table.cc:747-783`). -/
def validateUniqueColumns (t : Table) (row : Row) (exclude : Option Nat) :
    List (Column × Nat) → Except Exn Bool
  | [] => .ok true
  | (column, i) :: rest =>
    let value := (row.getValue? i).getD .null
    if !column.unique || t.coveredByConstraint column.name || value.isNull then
      t.validateUniqueColumns row exclude rest
    else do
      let taken ←
        if t.hasIndex column.name then
          t.anyLive exclude (← t.findRowsByValue column.name value)
        else
          t.scanLive exclude (fun other => .ok (((other.getValue? i).getD .null).eq value))
            (List.range t.rowCount)
      if taken then return false else t.validateUniqueColumns row exclude rest

/-- The second loop of `validate_unique_constraint`: table-level constraints
    (`table.cc:784-793`). -/
def validateUniqueConstraints (t : Table) (row : Row) (exclude : Option Nat) :
    List UniqueConstraint → Except Exn Bool
  | [] => .ok true
  | uq :: rest => do
    let key ← t.buildIndexKey row uq.columns
    if key.hasNull then t.validateUniqueConstraints row exclude rest
    else if ← t.rowsShareKey key exclude (uniqueConstraintIndexName uq) uq.columns then
      return false
    else t.validateUniqueConstraints row exclude rest

/-- `Table::validate_unique_constraint` (`table.cc:745-794`). -/
def validateUniqueConstraint (row : Row) (exclude : Option Nat) : Except Exn Bool := do
  if ← t.validateUniqueColumns row exclude t.columns.zipIdx then
    t.validateUniqueConstraints row exclude t.uniqueConstraints
  else return false

/-- `make_table_check_evaluator` (`table.cc:11-18`). -/
def checkEvaluator : Evaluator Empty where
  functions := fns
  bindings := t.columns.map (fun c => ⟨t.name, t.name, c.name⟩)

/-- `Table::find_violated_check` (`table.cc:1168-1184`). -/
def findViolatedCheck (fns : Functions) (t : Table) (row : Row) :
    List CheckConstraint → Except Exn (Option String)
  | [] => .ok none
  | check :: rest =>
    match check.predicate with
    | none => t.findViolatedCheck fns row rest
    | some predicate => do
      if ← (t.checkEvaluator fns).evaluateCheckCondition row predicate then
        t.findViolatedCheck fns row rest
      else return some check.name

/-- `Table::validate_row` (`table.cc:705-725`). -/
def validateRow (row : Row) (exclude : Option Nat) : Except Exn Bool := do
  if row.values.length ≠ t.columns.length then return false
  if (t.columns.zip row.values).any (fun p => !p.1.nullable && p.2.isNull) then return false
  if !(← t.validateUniqueConstraint row exclude) then return false
  if !(← t.validatePrimaryKeyUniqueness row exclude) then return false
  return (← t.findViolatedCheck fns row t.checks).isNone

/-- The checks that open `insert_row`, `update_row` and `update_row_versioned`; `text` is the
    message of the last one. -/
def checkWrite (row : Row) (exclude : Option Nat) (text : String) : Except Exn Unit := do
  if row.values.length ≠ t.columns.length then
    throw ⟨.invalidOperation, "Row column count does not match table schema"⟩
  if let some name ← t.findViolatedCheck fns row t.checks then
    throw ⟨.constraint, "CHECK constraint '" ++ name ++ "' violated"⟩
  if !(← t.validateRow fns row exclude) then
    throw ⟨.constraint, text⟩

end NobugDb.Table
