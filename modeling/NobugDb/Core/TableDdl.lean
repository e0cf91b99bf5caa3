import NobugDb.Core.Database

/-!
# Changes to a table's definition

The members of `Table` that ALTER TABLE and CREATE TABLE call (`table.cc:118-235`,
`table.cc:940-1122`), and all the calls that change a table as one type of operations.
-/

namespace NobugDb

open Misc (AssocMap)

namespace Column

/-- `Column::set_primary_key` (`column.cc:40-45`). -/
def setPrimaryKey (isPrimaryKey : Bool) (c : Column) : Column :=
  { c with nullable := if isPrimaryKey then false else c.nullable, primaryKey := isPrimaryKey }

def setUnique (isUnique : Bool) (c : Column) : Column := { c with unique := isUnique }

end Column

namespace Table

/-! ## Columns -/

/-- `heap_->clear()`, then `row_directory_.push_back(heap_->insert_row(row))` for each row. -/
def reinsert : List Row → Table → Table × Except Exn Unit
  | [], t => (t, .ok ())
  | row :: rest, t => andThen (t.appendRow row) (reinsert rest)

variable (t : Table)

/-- `Table::add_column` (`table.cc:118-143`). The rows get NULL, whatever the default. -/
def addColumn (column : Column) : Table × Except Exn Unit :=
  if t.columns.any (·.name == column.name) then
    (t, .error ⟨.constraint, "Column '" ++ column.name ++ "' already exists"⟩)
  else if !column.nullable && !t.directory.isEmpty then
    (t, .error ⟨.constraint, "Cannot add NOT NULL column '" ++ column.name ++
      "' to a non-empty table without a default value"⟩)
  else
    match t.getAllRows with
    | .error e => (t, .error e)
    | .ok existing =>
      andThen
        (reinsert (existing.map (fun row => { row with values := row.values ++ [.null] }))
          { t with columns := t.columns ++ [column], directory := [] })
        (fun t =>
          andThen
            (if column.primaryKey || column.unique then t.buildIndex column.name else (t, .ok ()))
            (fun t => (t.markDirty, .ok ())))

/-- The definitions without a column (`table.cc:153-193`): every index and UNIQUE constraint
    that has it goes, and the primary key loses it. -/
def withoutColumn (columnName : String) : Table :=
  let dropped (indexes : AssocMap String (List String)) : List String :=
    (indexes.filter (·.2.contains columnName)).map (·.1)
  let names := dropped t.secondaryIndexes ++ dropped t.constraintIndexes
  { t with
    columnIndices := AssocMap.erase columnName t.columnIndices
    secondaryIndexes := t.secondaryIndexes.filter (!·.2.contains columnName)
    constraintIndexes := t.constraintIndexes.filter (!·.2.contains columnName)
    namedIndices := t.namedIndices.filter (fun e => !names.contains e.1)
    primaryKeyColumns := t.primaryKeyColumns.filter (· ≠ columnName)
    uniqueConstraints := t.uniqueConstraints.filter (!·.columns.contains columnName) }

/-- `Row::remove_value` of every row, up to one that is too short. -/
def removeValues (i : Nat) (rows : List Row) : List Row :=
  (rows.takeWhile (fun row => i < row.values.length)).map
    (fun row => { row with values := row.values.eraseIdx i })

/-- `Table::drop_column` (`table.cc:145-205`). -/
def dropColumn (columnName : String) : Table × Except Exn Unit :=
  match t.getColumnIndex columnName with
  | none => (t, .error ⟨.notFound, "Column '" ++ columnName ++ "' not found"⟩)
  | some i =>
    if t.columns.length ≤ 1 then
      (t, .error ⟨.invalidOperation, "Cannot drop the last column of a table"⟩)
    else
      let t := t.withoutColumn columnName
      match t.getAllRows with
      | .error e => (t, .error e)
      | .ok existing =>
        andThen
          (reinsert (removeValues i existing)
            { t with columns := t.columns.eraseIdx i, directory := [] })
          (fun t =>
            if existing.any (fun row => row.values.length ≤ i) then
              (t, .error ⟨.outOfRange, "Row index out of range"⟩)
            else andThen t.rebuildIndexes (fun t => (t.markDirty, .ok ())))

/-- `get_mutable_column(get_column_index(name))`, changed. -/
def modifyColumn (columnName : String) (f : Column → Column) (t : Table) : Table :=
  match t.getColumnIndex columnName with
  | none => t
  | some i => { t with columns := t.columns.modify i f }

/-- `Table::rename_column` (`table.cc:207-235`). The keys and the constraint indexes keep the
    old name. -/
def renameColumn (oldName newName : String) : Table × Except Exn Unit :=
  if oldName = newName then (t, .ok ())
  else if (t.getColumnIndex oldName).isNone then
    (t, .error ⟨.notFound, "Column '" ++ oldName ++ "' not found"⟩)
  else if (t.getColumnIndex newName).isSome then
    (t, .error ⟨.constraint, "Column '" ++ newName ++ "' already exists"⟩)
  else
    let t := t.modifyColumn oldName (fun c => { c with name := newName })
    let columnIndices :=
      match t.columnIndices.lookup oldName with
      | some index => AssocMap.assign newName index (AssocMap.erase oldName t.columnIndices)
      | none => t.columnIndices
    let renamed (name : String) : String := if name = oldName then newName else name
    let t := { t with
      columnIndices := columnIndices
      secondaryIndexes := t.secondaryIndexes.map (fun e : String × List String => (e.1, e.2.map renamed)) }
    (t.markDirty, .ok ())

/-! ## Keys -/

/-- The first of the columns that the table does not have. -/
def missingColumn (columns : List String) : Option String :=
  columns.find? (fun c => (t.getColumnIndex c).isNone)

/-- `Table::apply_primary_key` (`table.cc:988-1012`). -/
def applyPrimaryKey (columns : List String) : Table × Except Exn Unit :=
  if columns.isEmpty then
    (t, .error ⟨.invalidOperation, "PRIMARY KEY must include at least one column"⟩)
  else
    let t := t.syncKeyMetadata
    if !t.primaryKeyColumns.isEmpty then
      (t, .error ⟨.constraint, "Table already has a primary key"⟩)
    else
      match t.missingColumn columns with
      | some c => (t, .error ⟨.notFound, "Column '" ++ c ++ "' not found"⟩)
      | none =>
        let t := columns.foldl (fun t c => t.modifyColumn c (Column.setPrimaryKey true)) t
        andThen
          (ensureConstraintIndex primaryKeyIndexName columns { t with primaryKeyColumns := columns })
          (fun t =>
            andThen
              (match columns with
                | [column] => t.buildIndex column
                | _ => (t, .ok ()))
              (fun t => (t.markDirty, .ok ())))

def dropConstraintIndex (indexName : String) (t : Table) : Table :=
  { t with
    constraintIndexes := AssocMap.erase indexName t.constraintIndexes
    namedIndices := AssocMap.erase indexName t.namedIndices }

def dropIndex (columnName : String) (t : Table) : Table :=
  { t with columnIndices := AssocMap.erase columnName t.columnIndices }

/-- The flag of a key column is cleared, and its index dropped unless the other flag keeps it. -/
def clearFlag (set : Bool → Column → Column) (other : Column → Bool) (columnName : String)
    (t : Table) : Table :=
  match t.columns.find? (fun c => c.name == columnName) with
  | none => t
  | some c =>
    let t := t.modifyColumn columnName (set false)
    if other c then t else t.dropIndex columnName

/-- `Table::drop_primary_key` (`table.cc:1014-1034`); the Boolean it returns. -/
def dropPrimaryKey : Table × Bool :=
  let t := t.syncKeyMetadata
  if t.primaryKeyColumns.isEmpty then (t, false)
  else
    let dropped := t.primaryKeyColumns.foldl
      (fun t c => clearFlag Column.setPrimaryKey (·.unique) c t)
      (t.dropConstraintIndex primaryKeyIndexName)
    (({ dropped with primaryKeyColumns := [] }).markDirty, true)

/-- The name a UNIQUE constraint is stored under (`table.cc:1065-1071`). -/
def storedUnique (uq : UniqueConstraint) : UniqueConstraint :=
  if uq.name = "" then
    { uq with name := uq.columns.foldl (fun name c => name ++ "_" ++ c) "uq" }
  else uq

/-- The constraint that a new one collides with, as the message (`table.cc:1056-1064`). -/
def uniqueCollision (uq : UniqueConstraint) : Option String :=
  t.uniqueConstraints.findSome? (fun existing =>
    if existing.columns = uq.columns then some "UNIQUE constraint already exists on columns"
    else if uq.name ≠ "" ∧ existing.name = uq.name then
      some ("UNIQUE constraint '" ++ uq.name ++ "' already exists")
    else none)

/-- `Table::apply_unique_constraint` (`table.cc:1046-1081`). -/
def applyUniqueConstraint (uq : UniqueConstraint) : Table × Except Exn Unit :=
  if uq.columns.isEmpty then
    (t, .error ⟨.invalidOperation, "UNIQUE must include at least one column"⟩)
  else
    match t.missingColumn uq.columns with
    | some c => (t, .error ⟨.notFound, "Column '" ++ c ++ "' not found"⟩)
    | none =>
      match t.uniqueCollision uq with
      | some text => (t, .error ⟨.constraint, text⟩)
      | none =>
        let stored := storedUnique uq
        let t := { t with uniqueConstraints := t.uniqueConstraints ++ [stored] }
        andThen
          (match stored.columns with
            | [column] => (t.modifyColumn column (Column.setUnique true)).buildIndex column
            | _ => (t, .ok ()))
          (fun t =>
            andThen (t.ensureConstraintIndex (uniqueConstraintIndexName stored) stored.columns)
              (fun t => (t.markDirty, .ok ())))

/-- `Table::drop_unique_constraint` (`table.cc:1083-1122`); the Boolean it returns. -/
def dropUniqueConstraint (columns : List String) : Table × Bool :=
  match t.uniqueConstraints.find? (fun uq => uq.columns == columns) with
  | some uq =>
    let t := t.dropConstraintIndex (uniqueConstraintIndexName uq)
    let t :=
      match columns with
      | [column] => clearFlag Column.setUnique (·.primaryKey) column t
      | _ => t
    (({ t with
        uniqueConstraints := t.uniqueConstraints.eraseP (fun uq => uq.columns == columns) }).markDirty,
      true)
  | none =>
    -- A column flagged UNIQUE without a table-level constraint.
    match columns with
    | [column] =>
      if (t.columns.find? (fun c => c.name == column)).any (·.unique) then
        ((clearFlag Column.setUnique (·.primaryKey) column t).markDirty, true)
      else (t, false)
    | _ => (t, false)

/-! ## Other definitions -/

/-- SET NOT NULL (`ddl_executor.cc:154-172`): refused when a row has NULL there. -/
def setNotNull (columnName : String) : Table :=
  match t.getColumnIndex columnName, t.getAllRows with
  | some i, .ok rows =>
    if rows.any (fun row => ((row.getValue? i).getD .null).isNull) then t
    else (t.modifyColumn columnName (fun c => { c with nullable := false })).markDirty
  | _, _ => t

/-- DROP NOT NULL (`ddl_executor.cc:192-206`): refused for a column of the primary key. -/
def dropNotNull (columnName : String) : Table :=
  match t.columns.find? (fun c => c.name == columnName) with
  | none => t
  | some c =>
    if c.primaryKey then t
    else (t.modifyColumn columnName (fun c => { c with nullable := true })).markDirty

/-- `Table::add_check` (`table.cc:940-949`). -/
def addCheck (check : CheckConstraint) : Table × Except Exn Unit :=
  if t.checks.any (·.name == check.name) then
    (t, .error ⟨.constraint, "CHECK constraint '" ++ check.name ++ "' already exists"⟩)
  else (({ t with checks := t.checks ++ [check] }).markDirty, .ok ())

/-- `Table::drop_check` (`table.cc:951-960`). -/
def dropCheck (name : String) : Table :=
  if t.checks.any (·.name == name) then
    ({ t with checks := t.checks.eraseP (·.name == name) }).markDirty
  else t

/-! ## Operations -/

/-- The calls that change a table. -/
inductive Op where
  | insertRow (row : Row)
  | updateRow (i : Nat) (row : Row)
  | updateRowVersioned (i : Nat) (row : Row) (xid : Nat)
  | deleteRow (i : Nat)
  | deleteRowVersioned (i xid : Nat)
  | freezeCommittedVersions (xid : Nat)
  | vacuumVersions (tm : TransactionManager)
  | rebuildIndexes
  | addColumn (column : Column)
  | dropColumn (columnName : String)
  | renameColumn (oldName newName : String)
  | createSecondaryIndex (indexName : String) (columns : List String)
  | dropSecondaryIndex (indexName : String)
  | applyPrimaryKey (columns : List String)
  | dropPrimaryKey
  | applyUniqueConstraint (uq : UniqueConstraint)
  | dropUniqueConstraint (columns : List String)
  | setNotNull (columnName : String)
  | dropNotNull (columnName : String)
  | addCheck (check : CheckConstraint)
  | dropCheck (name : String)

/-- One call: the table it leaves and its outcome. -/
def call (fns : Functions) (t : Table) : Op → Table × Except Exn Unit
  | .insertRow row => t.insertRow fns row
  | .updateRow i row => t.updateRow fns i row
  | .updateRowVersioned i row xid => t.updateRowVersioned fns i row xid
  | .deleteRow i => t.deleteRow i
  | .deleteRowVersioned i xid => t.deleteRowVersioned i xid
  | .freezeCommittedVersions xid => t.freezeCommittedVersions xid
  | .vacuumVersions tm => t.vacuumVersions tm
  | .rebuildIndexes => t.rebuildIndexes
  | .addColumn column => t.addColumn column
  | .dropColumn columnName => t.dropColumn columnName
  | .renameColumn oldName newName => t.renameColumn oldName newName
  | .createSecondaryIndex indexName columns => t.createSecondaryIndex indexName columns
  | .dropSecondaryIndex indexName =>
    match t.secondaryIndexes.lookup indexName with
    | some columns => (t.dropSecondaryIndex indexName columns, .ok ())
    | none => (t, .ok ())
  | .applyPrimaryKey columns => t.applyPrimaryKey columns
  | .dropPrimaryKey => (t.dropPrimaryKey.1, .ok ())
  | .applyUniqueConstraint uq => t.applyUniqueConstraint uq
  | .dropUniqueConstraint columns => ((t.dropUniqueConstraint columns).1, .ok ())
  | .setNotNull columnName => (t.setNotNull columnName, .ok ())
  | .dropNotNull columnName => (t.dropNotNull columnName, .ok ())
  | .addCheck check => t.addCheck check
  | .dropCheck name => (t.dropCheck name, .ok ())

/-- The table a call leaves, whether it throws or not. -/
def after (fns : Functions) (t : Table) (op : Op) : Table := (t.call fns op).1

end Table

end NobugDb
