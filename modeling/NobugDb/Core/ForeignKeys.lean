import NobugDb.Core.Database

/-!
# Foreign keys

The checks and referential actions of `Database` (`database.cc:885-1290`). They look at all row
versions, not at those a reader sees, and their writes are in place. Triggers are arbitrary
bodies here: what a trigger's statements do is not restricted.
-/

namespace NobugDb

open Misc (AssocMap)

inductive TriggerTiming where
  | before
  | after
  deriving DecidableEq, Repr

inductive TriggerEvent where
  | insert
  | update
  | delete
  deriving DecidableEq, Repr

/-- What a call runs with: the functions, the frames of `correlation_context_`, the arguments of
    EXECUTE, and the triggers. `fireTriggers` gets the table and the OLD and NEW rows, and returns
    its result and NEW as the triggers left it. -/
structure Env where
  functions : Functions
  frames : List Frame := []
  binds : Option (List Value) := none
  fireTriggers : TriggerTiming → TriggerEvent → String → Option Row → Option Row →
    Body (QueryResult × Option Row) := fun _ _ _ _ new => pure (QueryResult.successResult "OK", new)

namespace Row

def getValue (row : Row) (i : Nat) : Except Exn Value :=
  match row.getValue? i with
  | some v => .ok v
  | none => .error ⟨.outOfRange, "Row index out of range"⟩

def setValue (row : Row) (i : Nat) (v : Value) : Except Exn Row :=
  if row.values.length ≤ i then .error ⟨.outOfRange, "Row index out of range"⟩
  else .ok { row with values := row.values.set i v }

end Row

namespace Table

/-- The values of columns in a row (`database.cc:1024-1042`, `1070-1089`); `none` from the first
    column that is missing or holds NULL. -/
def keyValues (t : Table) (row : Row) : List String → Except Exn (Option (List Value))
  | [] => .ok (some [])
  | column :: columns =>
    match t.getColumnIndex column with
    | none => .ok none
    | some i => do
      let v ← row.getValue i
      if v.isNull then return none
      return (← t.keyValues row columns).map (v :: ·)

/-- The row has the given values at these positions. -/
def rowMatches (row : Row) : List (Nat × Value) → Except Exn Bool
  | [] => .ok true
  | (i, v) :: rest => do
    if (← row.getValue i).eq v then rowMatches row rest else return false

/-- The positions, among these, of the rows with the given values. -/
def scanMatching (t : Table) (key : List (Nat × Value)) : List Nat → Except Exn (List Nat)
  | [] => .ok []
  | i :: is => do
    let found ← rowMatches (← t.getRow i) key
    let rest ← t.scanMatching key is
    return if found then i :: rest else rest

/-- Some row among these has the given values; the rows behind it are not read. -/
def scanExists (t : Table) (key : List (Nat × Value)) : List Nat → Except Exn Bool
  | [] => .ok false
  | i :: is => do
    if ← rowMatches (← t.getRow i) key then return true else t.scanExists key is

end Table

namespace Database

/-- `Database::parent_has_key` (`database.cc:885-928`). -/
def parentHasKey (tables : AssocMap String Table) (parentTable : String)
    (parentColumns : List String) (values : List Value) : Except Exn Bool :=
  match tables.lookup parentTable with
  | none => .ok false
  | some parent =>
    if parentColumns.length ≠ values.length ∨ parentColumns = [] then .ok false
    else
      let scan : Except Exn Bool :=
        match parentColumns.mapM parent.getColumnIndex with
        | none => .ok false
        | some indices => parent.scanExists (indices.zip values) (List.range parent.rowCount)
      match parentColumns, values with
      | [column], [value] =>
        if parent.hasIndex column then do
          return !(← parent.findRowsByValue column value).isEmpty
        else scan
      | _, _ =>
        match parent.secondaryIndexes.find? (fun e => e.2 == parentColumns) with
        | some e => .ok !(parent.findRowsByIndexKey e.1 values).isEmpty
        | none => scan

/-- `Database::find_child_row_indices` (`database.cc:930-967`). -/
def findChildRowIndices (tables : AssocMap String Table) (childTable : String)
    (childColumns : List String) (values : List Value) : Except Exn (List Nat) :=
  match tables.lookup childTable with
  | none => .ok []
  | some child =>
    if childColumns.length ≠ values.length ∨ childColumns = [] then .ok []
    else
      let scan : Except Exn (List Nat) :=
        match childColumns.mapM child.getColumnIndex with
        | none => .ok []
        | some indices => child.scanMatching (indices.zip values) (List.range child.rowCount)
      match childColumns, values with
      | [column], [value] =>
        if child.hasIndex column then child.findRowsByValue column value else scan
      | _, _ => scan

/-- `Database::validate_foreign_keys_on_insert` (`database.cc:1021-1048`). -/
def validateForeignKeysOnInsert (t : Table) (row : Row) : Body Unit :=
  Body.forEach (fun fk => do
    match ← (t.keyValues row fk.childColumns : Except Exn _) with
    | none => pure ()
    | some values =>
      let tables := (← Body.perform .look).tables
      if !(← (parentHasKey tables fk.parentTable fk.parentColumns values : Except Exn Bool)) then
        throw ⟨.constraint, "FOREIGN KEY violation on columns of table '" ++ t.name ++ "'"⟩)
    t.foreignKeys

/-- The row at a position of a table as it is now. -/
def currentRow (name : String) (i : Nat) : Body Row := do
  match ← Body.getTable name with
  | none => throw ⟨.notFound, "Table '" ++ name ++ "' not found"⟩
  | some t => (t.getRow i : Except Exn Row)

variable (env : Env)

/-- The trigger calls of the referential actions, which turn a failure into an exception. -/
def fireOrThrow (timing : TriggerTiming) (event : TriggerEvent) (name : String)
    (old new : Option Row) : Body (Option Row) := do
  let (result, new) ← env.fireTriggers timing event name old new
  if result.success then return new else throw ⟨.invalidOperation, result.message⟩

/-- An update of a child row by a referential action, between its triggers. -/
def updateChild (name : String) (i : Nat) (old new : Row) : Body Unit := do
  let new := (← fireOrThrow env .before .update name (some old) (some new)).getD new
  let _ ← Body.perform (.updateInPlace name i new.values)
  let _ ← fireOrThrow env .after .update name (some old) (some new)

/-- The child row with its foreign key columns set to NULL. -/
def nullKey (child : Table) : List String → Row → Except Exn Row
  | [], row => .ok row
  | c :: cs, row =>
    match child.getColumnIndex c with
    | none => nullKey child cs row
    | some i =>
      if (child.columns[i]?).any (fun column => !column.nullable) then
        .error ⟨.constraint, "FOREIGN KEY SET NULL failed: column '" ++ c ++ "' is NOT NULL"⟩
      else do nullKey child cs (← row.setValue i .null)

/-- The child row with its foreign key columns set to their defaults. -/
def defaultKey (child : Table) : List String → Row → Except Exn Row
  | [], row => .ok row
  | c :: cs, row =>
    match child.getColumnIndex c with
    | none => defaultKey child cs row
    | some i =>
      match (child.columns[i]?).bind (·.defaultValue) with
      | none =>
        .error ⟨.constraint,
          "FOREIGN KEY SET DEFAULT failed: column '" ++ c ++ "' has no DEFAULT"⟩
      | some v => do defaultKey child cs (← row.setValue i v)

/-- SET NULL of one child row (`database.cc:1102-1127`, `1219-1244`). -/
def setNullOnChild (name : String) (child : Table) (fk : ForeignKey) (i : Nat) : Body Unit := do
  let old ← currentRow name i
  let new ← (nullKey child fk.childColumns old : Except Exn Row)
  updateChild env name i old new

/-- `Database::apply_set_default_on_child` (`database.cc:969-988`). -/
def applySetDefaultOnChild (name : String) (child : Table) (fk : ForeignKey) (i : Nat) :
    Body Unit := do
  let old ← currentRow name i
  let new ← (defaultKey child fk.childColumns old : Except Exn Row)
  let _ ← Body.perform (.updateInPlace name i new.values)

/-- The foreign keys that refer to a table, with the child tables that have them. -/
def referencing (tables : AssocMap String Table) (parentName : String) :
    List (String × Table × ForeignKey) :=
  (tables.filter (fun e => e.1 ≠ parentName)).flatMap (fun e =>
    (e.2.foreignKeys.filter (fun fk => fk.parentTable = parentName)).map (fun fk => (e.1, e.2, fk)))

/-- The action of a foreign key on the children of a deleted key (`database.cc:1090-1157`).
    `deleteBelow` is `apply_referential_delete` of a child row. -/
def deleteReferencing (deleteBelow : Row → Body Unit) (name : String) (child : Table)
    (fk : ForeignKey) (values : List Value) : Body Unit := do
  let tables := (← Body.perform .look).tables
  let rows ← (findChildRowIndices tables name fk.childColumns values : Except Exn (List Nat))
  if rows.isEmpty then return
  match fk.onDelete with
  | .restrict => throw ⟨.constraint, "FOREIGN KEY RESTRICT: cannot delete referenced key"⟩
  | .setNull => Body.forEach (setNullOnChild env name child fk) rows
  | .setDefault => Body.forEach (applySetDefaultOnChild name child fk) rows
  | .cascade =>
    Body.forEach (fun i => do
      match ← Body.getTable name with
      | none => pure ()
      | some t =>
        if t.rowCount ≤ i then return
        let row ← (t.getRow i : Except Exn Row)
        deleteBelow row
        let _ ← fireOrThrow env .before .delete name (some row) none
        let _ ← Body.perform (.deleteInPlace name i)
        let _ ← fireOrThrow env .after .delete name (some row) none)
      (rows.mergeSort (fun a b => b ≤ a))

/-- `Database::apply_referential_delete` (`database.cc:1050-1161`). A table is visited once on a
    path, so the depth is at most the number of tables. -/
def applyReferentialDelete (env : Env) :
    (depth : Nat) → (parentName : String) → Row → (visiting : List String) → Body Unit
  | 0, _, _, _ => throw ⟨.constraint, "FOREIGN KEY CASCADE cycle detected"⟩
  | depth + 1, parentName, parentRow, visiting =>
    if visiting.contains parentName then
      throw ⟨.constraint, "FOREIGN KEY CASCADE cycle detected"⟩
    else do
      let tables := (← Body.perform .look).tables
      match tables.lookup parentName with
      | none => pure ()
      | some parent =>
        Body.forEach (fun (name, child, fk) => do
          match ← (parent.keyValues parentRow fk.parentColumns : Except Exn _) with
          | none => pure ()
          | some values =>
            deleteReferencing env
              (fun row => applyReferentialDelete env depth name row (parentName :: visiting))
              name child fk values)
          (referencing tables parentName)

/-- The child row with its foreign key columns set to the parent's new values
    (`database.cc:1258-1264`). -/
def cascadeKey (child : Table) : List String → List Value → Row → Except Exn Row
  | c :: cs, v :: vs, row =>
    match child.getColumnIndex c with
    | none => cascadeKey child cs vs row
    | some i => do cascadeKey child cs vs (← row.setValue i v)
  | _, _, row => .ok row

/-- The old and new values of the referenced columns (`database.cc:1178-1203`); `none` from the
    first column that is missing or held NULL. -/
def updatedKey (parent : Table) (old new : Row) :
    List String → Except Exn (Option (List (Value × Value)))
  | [] => .ok (some [])
  | column :: columns =>
    match parent.getColumnIndex column with
    | none => .ok none
    | some i => do
      let before ← old.getValue i
      let after ← new.getValue i
      if before.isNull then return none
      return (← updatedKey parent old new columns).map ((before, after) :: ·)

/-- The action of a foreign key on the children of a key that changes (`database.cc:1207-1276`). -/
def updateReferencing (name : String) (child : Table) (fk : ForeignKey)
    (key : List (Value × Value)) : Body Unit := do
  let tables := (← Body.perform .look).tables
  let rows ← (findChildRowIndices tables name fk.childColumns (key.map Prod.fst) :
    Except Exn (List Nat))
  if rows.isEmpty then return
  match fk.onUpdate with
  | .restrict => throw ⟨.constraint, "FOREIGN KEY RESTRICT: cannot update referenced key"⟩
  | .setNull => Body.forEach (setNullOnChild env name child fk) rows
  | .setDefault => Body.forEach (applySetDefaultOnChild name child fk) rows
  | .cascade =>
    Body.forEach (fun i => do
      let old ← currentRow name i
      let new ← (cascadeKey child fk.childColumns (key.map Prod.snd) old : Except Exn Row)
      updateChild env name i old new) rows

/-- `Database::apply_referential_update` (`database.cc:1163-1279`). -/
def applyReferentialUpdate (parentName : String) (old new : Row) : Body Unit := do
  let tables := (← Body.perform .look).tables
  match tables.lookup parentName with
  | none => pure ()
  | some parent =>
    Body.forEach (fun (name, child, fk) => do
      match ← (updatedKey parent old new fk.parentColumns : Except Exn _) with
      | none => pure ()
      | some key =>
        if key.all (fun p => p.1.eq p.2) then pure ()
        else updateReferencing env name child fk key)
      (referencing tables parentName)

/-- `Database::validate_foreign_keys_on_update` (`database.cc:1281-1285`). -/
def validateForeignKeysOnUpdate (t : Table) (old new : Row) : Body Unit := do
  validateForeignKeysOnInsert t new
  applyReferentialUpdate env t.name old new

/-- `Database::validate_foreign_keys_on_delete` (`database.cc:1287-1290`). -/
def validateForeignKeysOnDelete (t : Table) (row : Row) : Body Unit := do
  let tables := (← Body.perform .look).tables
  applyReferentialDelete env (tables.length + 1) t.name row []

end Database

end NobugDb
