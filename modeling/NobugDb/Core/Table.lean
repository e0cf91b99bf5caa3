import NobugDb.Core.BTreeIndex
import NobugDb.Core.TransactionManager
import NobugDb.Executor.Evaluator
import NobugDb.Misc.AssocMap

/-!
# Tables

`Table` (`include/core/table.h`, `src/core/table.cc`): schema, rows and in-memory indexes.
The heap and the row directory over it are one list: the entry at a position is the row its
item pointer leads to, and `none` when the pointer's slot has been emptied. A function that
can throw returns the state it leaves behind together with its outcome, because an exception
undoes nothing.
-/

namespace NobugDb

open Misc (AssocMap)

/-- `Column` (`include/core/column.h`). -/
structure Column where
  name : String
  type : DataType
  nullable : Bool := true
  primaryKey : Bool := false
  unique : Bool := false
  defaultValue : Option Value := none
  deriving DecidableEq

/-- `UniqueConstraintDefinition`. -/
structure UniqueConstraint where
  name : String
  columns : List String
  deriving DecidableEq

/-- `CheckConstraintDefinition`: the predicate holds no subquery. -/
structure CheckConstraint where
  name : String
  predicate : Option (Expr Empty)

inductive ReferentialAction where
  | restrict
  | cascade
  | setNull
  | setDefault
  deriving DecidableEq, Repr

/-- `ForeignKeyDefinition`. -/
structure ForeignKey where
  childColumns : List String
  parentTable : String
  parentColumns : List String
  onDelete : ReferentialAction := .restrict
  onUpdate : ReferentialAction := .restrict
  deriving DecidableEq

/-- `Table`: its members, less the buffer pool and the partition metadata. -/
structure Table where
  name : String
  columns : List Column := []
  /-- `row_directory_` with the heap behind it. -/
  directory : List (Option Row) := []
  columnIndices : AssocMap String BTreeIndex := []
  namedIndices : AssocMap String BTreeIndex := []
  secondaryIndexes : AssocMap String (List String) := []
  foreignKeys : List ForeignKey := []
  checks : List CheckConstraint := []
  primaryKeyColumns : List String := []
  uniqueConstraints : List UniqueConstraint := []
  constraintIndexes : AssocMap String (List String) := []
  dirty : Bool := false

namespace Table

/-! ## Rows and columns -/

variable (t : Table)

/-- `Table::get_row_count`. -/
def rowCount : Nat := t.directory.length

/-- `HeapFile::get_row` (`heap_file.cc:85-101`). -/
def readSlot : Option Row → Except Exn Row
  | none => .error ⟨.storage, "Tuple slot is empty"⟩
  | some row => .ok row

/-- `Table::get_row` (`table.cc:385-391`). -/
def getRow (i : Nat) : Except Exn Row :=
  match t.directory[i]? with
  | none => .error ⟨.outOfRange, s!"Row index {i} out of range"⟩
  | some slot => readSlot slot

/-- `Table::get_all_rows`, and the loop that reads every row wherever the source has one. -/
def getAllRows : Except Exn (List Row) := t.directory.mapM readSlot

def getColumnIndex (name : String) : Option Nat :=
  t.columns.findIdx? (fun c => c.name == name)

def markDirty : Table := { t with dirty := true }

/-- The bytes `TypeConverter::serialize_value` makes of a value. -/
def valueSize : Value → Nat
  | .null => 1
  | .int _ => 9
  | .float _ => 9
  | .string s => 5 + s.utf8ByteSize
  | .bool _ => 2

/-- The bytes `serialize_tuple` makes of a row: the stamps, then each value with its length. -/
def tupleSize (row : Row) : Nat := 16 + (row.values.map (fun v => 4 + valueSize v)).sum

/-- The size check of `HeapFile::insert_row` (`heap_file.cc:72-75`): the tuple, a slot entry of
    4 bytes and the page header of 12 fill at most one page. -/
def fits (row : Row) : Bool := tupleSize row + 4 + 12 ≤ 8192

/-! ## Index keys -/

/-- `Table::build_index_key` (`table.cc:273-285`). -/
def buildIndexKey (row : Row) (columnNames : List String) : Except Exn IndexKey :=
  columnNames.mapM (fun name =>
    match t.getColumnIndex name with
    | none => .error ⟨.notFound, "Column '" ++ name ++ "' not found"⟩
    | some i =>
      match row.getValue? i with
      | some v => .ok v
      | none => .error ⟨.outOfRange, "Row index out of range"⟩)

/-- The column indexes of a row: `it->second->insert(row.get_value(i), row_index)` for each
    indexed column, or the `remove` of the same shape. -/
def touchColumnIndices (row : Row) (f : BTreeIndex → IndexKey → BTreeIndex) :
    AssocMap String BTreeIndex :=
  t.columns.zipIdx.foldl
    (fun indices c =>
      AssocMap.adjust c.1.name (fun index => f index [(row.getValue? c.2).getD .null]) indices)
    t.columnIndices

/-- One pass over `secondary_indexes_` or `constraint_indexes_`: the named index of each entry
    gets the row's key. An exception keeps the passes made so far. -/
def touchNamedIndices (t : Table) (row : Row) (f : BTreeIndex → IndexKey → BTreeIndex) :
    AssocMap String (List String) → AssocMap String BTreeIndex →
      AssocMap String BTreeIndex × Except Exn Unit
  | [], indices => (indices, .ok ())
  | (name, columns) :: rest, indices =>
    if indices.contains name then
      match t.buildIndexKey row columns with
      | .error e => (indices, .error e)
      | .ok key =>
        touchNamedIndices t row f rest (AssocMap.adjust name (fun index => f index key) indices)
    else touchNamedIndices t row f rest indices

/-- `insert_into_indexes` and `remove_from_indexes` (`table.cc:287-331`). -/
def touchIndexes (row : Row) (f : BTreeIndex → IndexKey → BTreeIndex) : Table × Except Exn Unit :=
  let t := { t with columnIndices := t.touchColumnIndices row f }
  let (named, outcome) := t.touchNamedIndices row f t.secondaryIndexes t.namedIndices
  match outcome with
  | .error e => ({ t with namedIndices := named }, .error e)
  | .ok () =>
    let (named, outcome) := t.touchNamedIndices row f t.constraintIndexes named
    ({ t with namedIndices := named }, outcome)

/-- `Table::insert_into_indexes` (`table.cc:287-308`). -/
def insertIntoIndexes (row : Row) (i : Nat) : Table × Except Exn Unit :=
  t.touchIndexes row (fun index key => index.insert key i)

/-- `Table::remove_from_indexes` (`table.cc:310-331`). -/
def removeFromIndexes (row : Row) (i : Nat) : Table × Except Exn Unit :=
  t.touchIndexes row (fun index key => index.remove key i)

/-! ## Building indexes -/

/-- An index filled with the keys of all rows, in row order. -/
def fillIndex (key : Row → Except Exn IndexKey) (rows : List Row) : Except Exn BTreeIndex :=
  rows.zipIdx.foldlM
    (fun index p => do return index.insert (← key p.1) p.2) BTreeIndex.null

/-- `Table::build_index` (`table.cc:1205-1215`). -/
def buildIndex (columnName : String) : Table × Except Exn Unit :=
  match t.getColumnIndex columnName with
  | none => (t, .error ⟨.notFound, "Column '" ++ columnName ++ "' not found"⟩)
  | some i =>
    match t.getAllRows.bind (fillIndex (fun row => .ok [(row.getValue? i).getD .null])) with
    | .error e => (t, .error e)
    | .ok index =>
      ({ t with columnIndices := AssocMap.assign columnName index t.columnIndices }, .ok ())

/-- `build_named_index` and `build_constraint_index` (`table.cc:1217-1227`, `1152-1162`), over
    the map that gives the index its columns. -/
def buildNamedIndex (indexes : AssocMap String (List String)) (indexName : String) :
    Table × Except Exn Unit :=
  match indexes.lookup indexName with
  | none => (t, .ok ())
  | some columns =>
    match t.getAllRows.bind (fillIndex (fun row => t.buildIndexKey row columns)) with
    | .error e => (t, .error e)
    | .ok index =>
      ({ t with namedIndices := AssocMap.assign indexName index t.namedIndices }, .ok ())

/-- Steps in a row, up to the first that throws. -/
def sequence (steps : List (Table → Table × Except Exn Unit)) (t : Table) :
    Table × Except Exn Unit :=
  match steps with
  | [] => (t, .ok ())
  | step :: rest =>
    match step t with
    | (t, .error e) => (t, .error e)
    | (t, .ok ()) => sequence rest t

def primaryKeyIndexName : String := "__pk"

/-- `Table::unique_constraint_index_name` (`table.cc:1127-1137`). -/
def uniqueConstraintIndexName (uq : UniqueConstraint) : String :=
  if uq.name ≠ "" then "__uq_" ++ uq.name
  else uq.columns.foldl (fun name column => name ++ "_" ++ column) "__uq"

/-- `Table::ensure_constraint_index` (`table.cc:1139-1144`). -/
def ensureConstraintIndex (indexName : String) (columns : List String) (t : Table) :
    Table × Except Exn Unit :=
  let t := { t with constraintIndexes := AssocMap.assign indexName columns t.constraintIndexes }
  t.buildNamedIndex t.constraintIndexes indexName

/-- `ensure_constraint_index` unless the index is registered already. -/
def ensureMissing (indexName : String) (columns : List String) (t : Table) :
    Table × Except Exn Unit :=
  if t.constraintIndexes.contains indexName then (t, .ok ())
  else t.ensureConstraintIndex indexName columns

/-- `Table::sync_key_metadata_from_column_flags` (`table.cc:976-984`). -/
def syncKeyMetadata : Table :=
  if t.primaryKeyColumns.isEmpty then
    { t with primaryKeyColumns := (t.columns.filter (·.primaryKey)).map (·.name) }
  else t

/-- `Table::rebuild_indexes` (`table.cc:829-856`). -/
def rebuildIndexes : Table × Except Exn Unit :=
  let t := syncKeyMetadata { t with columnIndices := [], namedIndices := [] }
  sequence
    ((t.columns.filter (fun c => c.primaryKey || c.unique)).map (fun c t => buildIndex t c.name) ++
      t.secondaryIndexes.map (fun e t => buildNamedIndex t t.secondaryIndexes e.1) ++
      t.constraintIndexes.map (fun e t => buildNamedIndex t t.constraintIndexes e.1) ++
      (if t.primaryKeyColumns.isEmpty then []
       else [ensureMissing primaryKeyIndexName t.primaryKeyColumns]) ++
      t.uniqueConstraints.map (fun uq => ensureMissing (uniqueConstraintIndexName uq) uq.columns))
    t

/-- `Table::reindex_after_delete` (`table.cc:1244-1277`): each index is cleared and filled. -/
def reindexAfterDelete : Table × Except Exn Unit :=
  let refillNamed (e : String × List String) (t : Table) : Table × Except Exn Unit :=
    if t.namedIndices.contains e.1 then
      match t.getAllRows.bind (fillIndex (fun row => t.buildIndexKey row e.2)) with
      | .error exn =>
        ({ t with namedIndices := AssocMap.adjust e.1 BTreeIndex.clear t.namedIndices },
         .error exn)
      | .ok index =>
        ({ t with namedIndices := AssocMap.adjust e.1 (fun _ => index) t.namedIndices }, .ok ())
    else (t, .ok ())
  let refillColumn (e : String × BTreeIndex) (t : Table) : Table × Except Exn Unit :=
    match t.getColumnIndex e.1 with
    | none =>
      ({ t with columnIndices := AssocMap.adjust e.1 BTreeIndex.clear t.columnIndices }, .ok ())
    | some _ => t.buildIndex e.1
  sequence
    (t.columnIndices.map refillColumn ++ t.secondaryIndexes.map refillNamed ++
      t.constraintIndexes.map refillNamed)
    t

/-! ## Lookups -/

/-- `Table::has_index` (`table.cc:674-685`). -/
def hasIndex (columnName : String) : Bool :=
  t.columnIndices.contains columnName ||
    t.secondaryIndexes.any (fun e => e.2.head? == some columnName)

/-- The positions of the rows that satisfy a test. -/
def positions (test : Row → Bool) (rows : List Row) : List Nat := rows.findIdxs test

/-- The first named index, in name order, whose columns pass the test. -/
def firstNamed (test : List String → Bool) : Option (List String × BTreeIndex) :=
  t.secondaryIndexes.findSome? (fun e =>
    if test e.2 then (t.namedIndices.lookup e.1).map (fun index => (e.2, index)) else none)

/-- `Table::find_rows_by_value` (`table.cc:537-571`). -/
def findRowsByValue (columnName : String) (value : Value) : Except Exn (List Nat) :=
  match t.getColumnIndex columnName with
  | none => .error ⟨.notFound, "Column '" ++ columnName ++ "' not found"⟩
  | some i =>
    match t.columnIndices.lookup columnName with
    | some index => .ok (index.findEqual [value])
    | none =>
      match t.firstNamed (fun columns => columns.head? == some columnName) with
      | some (columns, index) =>
        .ok (if columns.length = 1 then index.findEqual [value]
             else index.findPrefix [value])
      | none => do
        let rows ← t.getAllRows
        return positions (fun row => ((row.getValue? i).getD .null).eq value) rows

/-- `Table::find_rows_by_range` (`table.cc:573-616`). -/
def findRowsByRange (columnName : String) (lower : Option Value) (lowerInclusive : Bool)
    (upper : Option Value) (upperInclusive : Bool) : Except Exn (List Nat) :=
  let range (index : BTreeIndex) : List Nat :=
    index.findRange (lower.map ([·])) lowerInclusive (upper.map ([·])) upperInclusive
  match t.getColumnIndex columnName with
  | none => .error ⟨.notFound, "Column '" ++ columnName ++ "' not found"⟩
  | some i =>
    match t.columnIndices.lookup columnName with
    | some index => .ok (range index)
    | none =>
      match t.firstNamed (fun columns => columns == [columnName]) with
      | some (_, index) => .ok (range index)
      | none => do
        let rows ← t.getAllRows
        return positions (fun row =>
          let v := (row.getValue? i).getD .null
          !v.isNull && passesLower [v] (lower.map ([·])) lowerInclusive &&
            passesUpper [v] (upper.map ([·])) upperInclusive) rows

/-- `Table::find_rows_by_index_key` (`table.cc:627-644`). -/
def findRowsByIndexKey (indexName : String) (key : IndexKey) : List Nat :=
  match t.namedIndices.lookup indexName, t.secondaryIndexes.lookup indexName with
  | some index, some columns =>
    if key.length = columns.length then index.findEqual key
    else if key.length < columns.length then index.findPrefix key
    else []
  | _, _ => []

/-- `Table::get_visible_row_indices` (`table.cc:358-370`). -/
def getVisibleRowIndices (tm : TransactionManager) (reader : Nat)
    (snapshot : Option TransactionSnapshot) : Except Exn (List Nat) := do
  let rows ← t.getAllRows
  return positions (fun row => tm.isVisible row.xmin row.xmax reader snapshot) rows

/-- `Table::get_visible_rows` (`table.cc:372-381`). -/
def getVisibleRows (tm : TransactionManager) (reader : Nat)
    (snapshot : Option TransactionSnapshot) : Except Exn (List Row) := do
  let rows ← t.getAllRows
  return rows.filter (fun row => tm.isVisible row.xmin row.xmax reader snapshot)

end Table

end NobugDb
