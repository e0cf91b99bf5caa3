import NobugDb.Core.TableConstraints

/-!
# Writes to a table

The row writes of `Table` (`table.cc:333-352`, `table.cc:393-534`): in place, as an
autocommit statement makes them, and versioned, as a transaction does; and the passes that
drop or rewrite versions, `freeze_committed_versions` and `vacuum_versions`.
-/

namespace NobugDb.Table

/-- A step that runs when the one before it did not throw. -/
def andThen (first : Table × Except Exn Unit) (next : Table → Table × Except Exn Unit) :
    Table × Except Exn Unit :=
  match first with
  | (t, .error e) => (t, .error e)
  | (t, .ok ()) => next t

variable (fns : Functions) (t : Table)

/-- `row_directory_.push_back(heap_->insert_row(row))`. -/
def appendRow (row : Row) : Table × Except Exn Unit :=
  if fits row then ({ t with directory := t.directory ++ [some row] }, .ok ())
  else (t, .error ⟨.storage, "Row does not fit in a single page"⟩)

/-- `Table::replace_row` over `HeapFile::update_row` (`heap_file.cc:103-122`): a tuple of
    another length is moved, and its old slot is emptied before the size is checked. -/
def replaceRow (i : Nat) (row : Row) : Table × Except Exn Unit :=
  if fits row then ({ t with directory := t.directory.set i (some row) }, .ok ())
  else
    ({ t with directory := t.directory.set i none },
     .error ⟨.storage, "Row does not fit in a single page"⟩)

/-- `Table::insert_row` (`table.cc:333-345`). -/
def insertRow (row : Row) : Table × Except Exn Unit :=
  match t.checkWrite fns row none "Row does not satisfy table constraints" with
  | .error e => (t, .error e)
  | .ok () =>
    andThen (t.appendRow row) (fun t =>
      andThen (t.insertIntoIndexes row (t.rowCount - 1)) (fun t => (t.markDirty, .ok ())))

/-- `Table::insert_row_versioned` (`table.cc:347-351`). -/
def insertRowVersioned (row : Row) (xmin : Nat) : Table × Except Exn Unit :=
  t.insertRow fns ((row.setXmin xmin).setXmax 0)

/-- The checks of an update at position `i`. -/
def checkUpdate (i : Nat) (row : Row) : Except Exn Row := do
  if t.rowCount ≤ i then throw ⟨.outOfRange, "Row index out of range"⟩
  t.checkWrite fns row (some i) "Updated row does not satisfy table constraints"
  t.getRow i

/-- `Table::update_row` (`table.cc:397-416`). -/
def updateRow (i : Nat) (row : Row) : Table × Except Exn Unit :=
  match t.checkUpdate fns i row with
  | .error e => (t, .error e)
  | .ok old =>
    let stored : Row := { row with xmin := old.xmin, xmax := old.xmax }
    andThen (t.removeFromIndexes old i) (fun t =>
      andThen (t.replaceRow i stored) (fun t =>
        andThen (t.insertIntoIndexes stored i) (fun t => (t.markDirty, .ok ()))))

/-- `Table::update_row_versioned` (`table.cc:418-437`). -/
def updateRowVersioned (i : Nat) (row : Row) (xid : Nat) : Table × Except Exn Unit :=
  match t.checkUpdate fns i row with
  | .error e => (t, .error e)
  | .ok old =>
    let new := (row.setXmin xid).setXmax 0
    andThen (t.replaceRow i (old.setXmax xid)) (fun t =>
      andThen (t.appendRow new) (fun t =>
        andThen (t.insertIntoIndexes new (t.rowCount - 1)) (fun t => (t.markDirty, .ok ()))))

/-- `Table::delete_row` (`table.cc:439-447`). -/
def deleteRow (i : Nat) : Table × Except Exn Unit :=
  if t.rowCount ≤ i then (t, .error ⟨.outOfRange, "Row index out of range"⟩)
  else
    andThen (reindexAfterDelete { t with directory := t.directory.eraseIdx i })
      (fun t => (t.markDirty, .ok ()))

/-- `Table::delete_row_versioned` (`table.cc:449-457`). -/
def deleteRowVersioned (i : Nat) (xid : Nat) : Table × Except Exn Unit :=
  match t.getRow i with
  | .error e => (t, .error (if t.rowCount ≤ i then ⟨.outOfRange, "Row index out of range"⟩ else e))
  | .ok row => andThen (t.replaceRow i (row.setXmax xid)) (fun t => (t.markDirty, .ok ()))

/-- The row versions `freeze_committed_versions(xid)` keeps, rewritten. -/
def freezeRows (xid : Nat) (rows : List Row) : List Row :=
  (rows.filter (fun row => row.xmax ≠ xid)).map
    (fun row => if row.xmin = xid then row.setXmin 0 else row)

/-- `Table::freeze_committed_versions` (`table.cc:459-489`). -/
def freezeCommittedVersions (xid : Nat) : Table × Except Exn Unit :=
  if xid = 0 then (t, .ok ())
  else
    match t.getAllRows with
    | .error e => (t, .error e)
    | .ok rows =>
      if rows.any (fun row => row.xmax == xid || row.xmin == xid) then
        andThen (rebuildIndexes { t with directory := (freezeRows xid rows).map some })
          (fun t => (t.markDirty, .ok ()))
      else (t, .ok ())

/-- A deletion whose transaction aborted is undone (`table.cc:504-506`). -/
def undoAbortedDeletion (tm : TransactionManager) (row : Row) : Row :=
  if row.xmax ≠ 0 ∧ tm.isAborted row.xmax = true then row.setXmax 0 else row

/-- The loop of `vacuum_versions` for one row version (`table.cc:500-512`). -/
def vacuumRow (tm : TransactionManager) (horizon : Nat) (row : Row) : Option Row :=
  if tm.isAborted row.xmin = true then none
  else
    let row := undoAbortedDeletion tm row
    if row.xmax ≠ 0 ∧ tm.isCommitted row.xmax = true ∧ row.xmax < horizon then none
    else some row

/-- `Table::vacuum_versions` (`table.cc:491-521`). -/
def vacuumVersions (tm : TransactionManager) : Table × Except Exn Unit :=
  match t.getAllRows with
  | .error e => (t, .error e)
  | .ok rows =>
    andThen
      (rebuildIndexes
        { t with directory := (rows.filterMap (vacuumRow tm tm.getVacuumHorizon)).map some })
      (fun t => (t.markDirty, .ok ()))

end NobugDb.Table
