import NobugDb.Core.Proofs.LockEffects
import NobugDb.Core.Proofs.Slots
import NobugDb.Misc.Compaction

/-!
# Positions of rows

A row is known by its position in `row_directory_`. `delete_row`, `freeze_committed_versions` and
`vacuum_versions` take rows out, and the rows behind them move up. `Database.whereabouts` says where an
operation leaves the row at a position, in every database, also when a table raises an exception half
way through.
-/

namespace NobugDb

open Misc (AssocMap compact compactAll)
open Table
open Option (bind_eq_some_iff some.inj)

namespace Table

variable {fns : Functions} {t : Table} {tm : TransactionManager} {xid i p q : Nat}

/-- The values of the row at a position, if there is such a position and the slot is not empty. -/
def valuesAt (t : Table) (p : Nat) : Option (Option (List Value)) :=
  (t.directory[p]?).map (Option.map Row.values)

/-- The rows `vacuum_versions` takes out. -/
def vacuumRemoves (tm : TransactionManager) (t : Table) (p : Nat) : Bool :=
  match t.getAllRows with
  | .error _ => false
  | .ok rows => (rows[p]?).any (fun row => (vacuumRow tm tm.getVacuumHorizon row).isNone)

/-- The rows `freeze_committed_versions` takes out. -/
def freezeRemoves (xid : Nat) (t : Table) (p : Nat) : Bool :=
  if xid = 0 then false
  else
    match t.getAllRows with
    | .error _ => false
    | .ok rows => (rows[p]?).any (fun row => row.xmax = xid)

/-- The row `delete_row` takes out. -/
def deleteRemoves (i : Nat) (t : Table) (p : Nat) : Bool := decide (i < t.rowCount) && p == i

variable {u : Table}

theorem valuesAt_congr (eq : u.directory = t.directory) : u.valuesAt p = t.valuesAt p := by
  unfold valuesAt
  rw [eq]

theorem valuesAt_filterMap {f : Row → Option Row} {rows : List Row}
    (vals : ∀ row new, f row = some new → new.values = row.values)
    (before : t.directory = rows.map some) (after : u.directory = (rows.filterMap f).map some)
    (goes : compact (fun j => (rows[j]?).any (fun row => (f row).isNone)) p = some q) :
    u.valuesAt q = t.valuesAt p := by
  have moved := Misc.getElem?_filterMap_of_compact f rows goes
  unfold valuesAt
  rw [before, after, List.getElem?_map, List.getElem?_map, moved]
  cases stored : rows[p]? with
  | none => rfl
  | some row =>
    cases kept : f row with
    | none =>
      unfold compact at goes
      simp [stored, kept] at goes
    | some new => simp [kept, vals row new kept]

theorem vacuumVersions_valuesAt (goes : compact (t.vacuumRemoves tm) p = some q) :
    (t.vacuumVersions tm).1.valuesAt q = t.valuesAt p := by
  unfold vacuumRemoves at goes
  cases stored : t.getAllRows with
  | error e =>
    obtain rfl : p = q := by simpa [stored, Misc.compact_none] using goes
    unfold vacuumVersions
    rw [stored]
  | ok rows =>
    rw [stored] at goes
    have after := dir_of_getAllRows (vacuumVersions_rows stored tm)
    exact valuesAt_filterMap (fun _ _ => vacuumRow_values) (dir_of_getAllRows stored) after goes

/-- `freeze_committed_versions` on one row version. -/
def freezeRow (xid : Nat) (row : Row) : Option Row :=
  if row.xmax = xid then none else some (if row.xmin = xid then row.setXmin 0 else row)

theorem freezeRows_eq_filterMap (xid : Nat) (rows : List Row) :
    freezeRows xid rows = rows.filterMap (freezeRow xid) := by
  unfold freezeRows
  induction rows with
  | nil => rfl
  | cons row rows ih =>
    by_cases deleted : row.xmax = xid
    · simpa [freezeRow, deleted] using ih
    · simpa [freezeRow, deleted] using ih

theorem freezeRow_values {row new : Row} (kept : freezeRow xid row = some new) :
    new.values = row.values := by
  unfold freezeRow at kept
  split at kept
  · cases kept
  · cases kept
    split <;> rfl

variable (row : Row)

theorem isNone_freezeRow : (freezeRow xid row).isNone = decide (row.xmax = xid) := by
  unfold freezeRow
  split <;> simp [*]

theorem freezeVersions_valuesAt (goes : compact (t.freezeRemoves xid) p = some q) :
    (t.freezeCommittedVersions xid).1.valuesAt q = t.valuesAt p := by
  unfold freezeRemoves at goes
  unfold freezeCommittedVersions
  split
  next zero =>
    obtain rfl : p = q := by simpa [zero, Misc.compact_none] using goes
    rfl
  next nonzero =>
    simp only [nonzero, if_false] at goes
    cases stored : t.getAllRows with
    | error e =>
      obtain rfl : p = q := by simpa [stored, Misc.compact_none] using goes
      rfl
    | ok rows =>
      simp only [stored] at goes ⊢
      split
      · simp only [← isNone_freezeRow] at goes
        refine valuesAt_filterMap (fun _ _ => freezeRow_values) (dir_of_getAllRows stored) ?_ goes
        rw [andThen_markDirty_dir, rebuildIndexes_dir, freezeRows_eq_filterMap]
      next unchanged =>
        -- no row has the stamp, so none is taken out
        have stays : compact (fun j => (rows[j]?).any (fun row => decide (row.xmax = xid))) p = some p := by
          refine Misc.compact_eq_self_iff.mpr (fun j _ => ?_)
          cases at_j : rows[j]? with
          | none => rfl
          | some row =>
            have ne : row.xmax ≠ xid := fun eq =>
              unchanged (List.any_eq_true.mpr ⟨row, List.mem_of_getElem? at_j, by simp [eq]⟩)
            simp [ne]
        obtain rfl : p = q := by simpa [stays] using goes
        rfl

theorem deleteRow_valuesAt (goes : compact (t.deleteRemoves i) p = some q) :
    (t.deleteRow i).1.valuesAt q = t.valuesAt p := by
  unfold deleteRemoves at goes
  unfold deleteRow
  split
  next outside =>
    obtain rfl : p = q := by simpa [not_lt.mpr outside, Misc.compact_none] using goes
    rfl
  next isIn =>
    have erased : compact (fun j => j == i) p = some q := by
      simpa only [not_le.mp isIn, decide_true, Bool.true_and] using goes
    unfold valuesAt
    rw [andThen_markDirty_dir, reindex_dir, Misc.getElem?_eraseIdx_of_compact _ erased]

/-! ## Writes that take no row out -/

theorem insertRow_valuesAt (isIn : p < t.rowCount) :
    (t.insertRow fns row).1.valuesAt p = t.valuesAt p := by
  obtain ⟨eq, -⟩ | appended := insertRow_dir fns t row
  · exact valuesAt_congr eq
  · unfold valuesAt
    rw [appended, List.getElem?_append_left isIn]

theorem valuesAt_set {slot : Option Row} (ne : p ≠ i)
    (eq : u.directory = t.directory.set i slot) : u.valuesAt p = t.valuesAt p := by
  unfold valuesAt
  rw [eq, List.getElem?_set_ne ne.symm]

theorem updateRow_valuesAt (ne : p ≠ i) :
    (t.updateRow fns i row).1.valuesAt p = t.valuesAt p := by
  obtain ⟨eq, -⟩ | ⟨old, -, set | ⟨set, -⟩⟩ := updateRow_dir fns t i row
  · exact valuesAt_congr eq
  · exact valuesAt_set ne set
  · exact valuesAt_set ne set

theorem deleteVersion_valuesAt (ne : p ≠ i) :
    (t.deleteRowVersioned i xid).1.valuesAt p = t.valuesAt p := by
  obtain ⟨eq, -⟩ | ⟨old, -, set | ⟨set, -⟩⟩ := deleteVersion_dir t i xid
  · exact valuesAt_congr eq
  · exact valuesAt_set ne set
  · exact valuesAt_set ne set

theorem updateVersion_valuesAt (isIn : p < t.rowCount) (ne : p ≠ i) :
    (t.updateRowVersioned fns i row xid).1.valuesAt p = t.valuesAt p := by
  obtain ⟨eq, -⟩ | ⟨old, -, appended | ⟨⟨slot, -, set⟩, -⟩⟩ :=
    updateVersion_dir fns t i row xid
  · exact valuesAt_congr eq
  · have stillInside : p < (t.directory.set i (some (old.setXmax xid))).length := by
      rw [List.length_set]
      exact isIn
    unfold valuesAt
    rw [appended, List.getElem?_append_left stillInside, List.getElem?_set_ne ne.symm]
  · exact valuesAt_set ne set

end Table

namespace Database

variable {storage : Storage} {fns : Functions} {s : Nat} {db db' : Database} {op : Op}
  {resp : Response} {name : String} {t : Table} {p q : Nat}

/-! ## Where rows go -/

/-- The rows a pass over all tables takes out of one of them; it ends with the first exception. -/
def passRemoves (f : Table → Table × Except Exn Unit) (removes : Table → Nat → Bool) :
    AssocMap String Table → String → (Nat → Bool)
  | [], _ => fun _ => false
  | (other, t) :: rest, name =>
    if name = other then removes t
    else
      match (f t).2 with
      | .error _ => fun _ => false
      | .ok () => passRemoves f removes rest name

/-- The rows `vacuum_all_tables` takes out of a table. -/
def vacuumRemoves (db : Database) : String → Nat → Bool :=
  passRemoves (·.vacuumVersions db.transactionManager) (·.vacuumRemoves db.transactionManager) db.tables

/-- The rows a call on one table takes out of a table. -/
def callRemoves (db : Database) (table : String) (removes : Table → Nat → Bool) (name : String)
    (p : Nat) : Bool :=
  name == table && (db.tables.lookup table).any (removes · p)

def rollbackRemovals (s : Nat) (db : Database) (name : String) : List (Nat → Bool) :=
  if (db.sessions s).inTransaction then
    let tm := db.transactionManager.abortTransaction (db.sessions s).transactionId
    [{ db with transactionManager := tm }.vacuumRemoves name]
  else []

/-- The rows COMMIT takes out of a table when it vacuums and when it freezes. -/
def commitRemovals (s : Nat) (db : Database) (name : String) : List (Nat → Bool) :=
  if (db.sessions s).inTransaction then
    let xid := (db.sessions s).transactionId
    let started := { db with transactionManager := db.transactionManager.commitTransaction xid }
    started.vacuumRemoves name ::
      match started.vacuumAllTables with
      | (_, .error _) => []
      | (vacuumed, .ok ()) =>
        if vacuumed.transactionManager.canFreezeCommitted xid then
          [passRemoves (·.freezeCommittedVersions xid) (·.freezeRemoves xid) vacuumed.tables name]
        else []
  else []

/-- The rows an operation takes out of a table, pass by pass. -/
def removals (s : Nat) (db : Database) (op : Op) (name : String) : List (Nat → Bool) :=
  match op with
  | .delete table i false | .deleteInPlace table i => [db.callRemoves table (Table.deleteRemoves i) name]
  | .vacuum none => [db.vacuumRemoves name]
  | .vacuum (some table) => [db.callRemoves table (Table.vacuumRemoves db.transactionManager) name]
  | .rollback => db.rollbackRemovals s name
  | .commit => db.commitRemovals s name
  | _ => []

/-- Where an operation leaves the row at a position. -/
def whereabouts (s : Nat) (db : Database) (op : Op) (name : String) (p : Nat) : Option Nat :=
  compactAll (db.removals s op name) p

/-! ## Rows are where they are said to be -/

def valuesAt (db : Database) (name : String) (p : Nat) : Option (Option (List Value)) :=
  (db.tables.lookup name).bind (·.valuesAt p)

theorem valuesAt_eq_slots (name : String) (p : Nat) :
    db.valuesAt name p = ((db.slots name).bind (·[p]?)).map (Option.map Row.values) := by
  unfold valuesAt slots
  cases db.tables.lookup name <;> rfl

theorem SameRows.valuesAt (eq : SameRows db db') (name : String) (p : Nat) :
    db'.valuesAt name p = db.valuesAt name p := by
  rw [valuesAt_eq_slots, valuesAt_eq_slots, eq name]

variable {f : Table → Table × Except Exn Unit} {removes : Table → Nat → Bool}

theorem onTables_valuesAt
    (each : ∀ t p q, compact (removes t) p = some q → (f t).1.valuesAt q = t.valuesAt p)
    (goes : compact (passRemoves f removes db.tables name) p = some q) :
    (db.onTables f).1.valuesAt name q = db.valuesAt name p := by
  unfold valuesAt onTables
  dsimp only
  generalize db.tables = tables at goes ⊢
  induction tables with
  | nil => rfl
  | cons e rest ih =>
    obtain ⟨ne, t⟩ := e
    unfold passRemoves at goes
    unfold eachTable
    by_cases isTab : name = ne
    · have moved := each t p q (by simpa only [isTab, if_true] using goes)
      have head : ∀ u tail, (((ne, u) :: tail : AssocMap String Table).lookup name) = some u := by
        intro u tail
        rw [isTab, Misc.lookup_cons_if, if_pos rfl]
      generalize f t = result at moved
      obtain ⟨u, _ | _⟩ := result <;> simpa only [head, Option.bind_some] using moved
    · have tail : ∀ u (l : AssocMap String Table), ((ne, u) :: l).lookup name = l.lookup name := by
        intro u l
        rw [Misc.lookup_cons_if, if_neg isTab]
      simp only [isTab, if_false] at goes
      generalize f t = result at goes
      obtain ⟨u, e | _⟩ := result
      · obtain rfl : p = q := by simpa [Misc.compact_none] using goes
        simp only [tail]
      · simpa only [tail] using ih goes

theorem vacuumAll_valuesAt (goes : compact (db.vacuumRemoves name) p = some q) :
    db.vacuumAllTables.1.valuesAt name q = db.valuesAt name p :=
  onTables_valuesAt (fun _ _ _ => vacuumVersions_valuesAt) goes

theorem write_valuesAt {tab : String}
    (keeps : ∀ t, name = tab → db.tables.lookup name = some t → (f t).1.valuesAt q = t.valuesAt p)
    (stays : name ≠ tab → p = q) : (db.write tab f).1.valuesAt name q = db.valuesAt name p := by
  rw [valuesAt_eq_slots, write_slots]
  split
  next isTab =>
    subst isTab
    unfold valuesAt
    cases hit : db.tables.lookup name with
    | none => rfl
    | some t => exact keeps t rfl hit
  next ne => rw [stays ne, ← valuesAt_eq_slots]

theorem write_valuesAt_of_removes {tab : String}
    (each : ∀ t p q, compact (removes t) p = some q → (f t).1.valuesAt q = t.valuesAt p)
    (goes : compactAll [db.callRemoves tab removes name] p = some q) :
    (db.write tab f).1.valuesAt name q = db.valuesAt name p := by
  obtain ⟨r, fst, rest⟩ := bind_eq_some_iff.mp goes
  obtain rfl : r = q := by simpa using rest
  refine write_valuesAt (fun t isTab hit => each t p r ?_) (fun ne => ?_)
  · subst isTab
    rw [← fst]
    congr 1
    funext j
    simp [callRemoves, hit]
  · have none : db.callRemoves tab removes name = fun _ => false := by
      funext j
      simp [callRemoves, ne]
    simpa [none, Misc.compact_none] using fst

theorem sameRows_of_tables (eq : db'.tables = db.tables) : SameRows db db' := by
  intro name
  unfold slots
  rw [eq]

/-- A run of flush that leaves the rows as they are, as `flush_dirty_tables_locked` does. -/
def KeepsRows (storage : Storage) : Prop :=
  ∀ db : Database, SameRows db { db with tables := (storage db.tables db.disk).1.1 }

theorem keepsRows_reliable : KeepsRows reliable := by
  intro db name
  show ((db.tables.map (fun e => (e.1, e.2.clearDirty))).lookup name).map directory = _
  rw [Misc.lookup_mapValues, Option.map_map]
  rfl

theorem persist_sameRows (steady : KeepsRows storage) (res : QueryResult) (inTx : Bool) :
    SameRows db (db.persistDirtyTables storage res inTx).1 := by
  unfold persistDirtyTables
  split
  · exact .refl db
  · have kept := steady db
    dsimp only
    split
    · exact kept
    · split <;> exact kept

theorem rollback_valuesAt (goes : compactAll (db.rollbackRemovals s name) p = some q) :
    (db.executeRollback s).1.valuesAt name q = db.valuesAt name p := by
  unfold rollbackRemovals at goes
  unfold executeRollback
  cases inTx : (db.sessions s).inTransaction with
  | false =>
    obtain rfl : p = q := by simpa [inTx, compactAll] using goes
    simp only [inTx, Bool.not_false, if_true]
  | true =>
    simp only [inTx, if_true, Misc.compactAll_cons] at goes
    obtain ⟨r, fst, rest⟩ := bind_eq_some_iff.mp goes
    obtain rfl : r = q := by simpa [compactAll] using rest
    have vacuumed := vacuumAll_valuesAt fst
    simp only [inTx, Bool.not_true, Bool.false_eq_true, if_false]
    generalize vacuumAllTables _ = result at vacuumed ⊢
    obtain ⟨db₁, _ | _⟩ := result
    · exact vacuumed
    · exact ((sameRows_of_tables endSession_tables).valuesAt name r).trans vacuumed

theorem freezeAll_valuesAt {xid : Nat}
    (goes : compactAll (if db.transactionManager.canFreezeCommitted xid then
      [passRemoves (·.freezeCommittedVersions xid) (·.freezeRemoves xid) db.tables name] else []) p =
        some q) :
    (db.freezeAllTables xid).1.valuesAt name q = db.valuesAt name p := by
  unfold freezeAllTables
  split
  next freezes =>
    have removed : compact (passRemoves (·.freezeCommittedVersions xid) (·.freezeRemoves xid)
        db.tables name) p = some q := by
      simpa [freezes, compactAll] using goes
    exact onTables_valuesAt (fun _ _ _ => freezeVersions_valuesAt) removed
  next stays =>
    obtain rfl : p = q := by simpa [stays, compactAll] using goes
    rfl

theorem commitOn_valuesAt (steady : KeepsRows storage)
    (goes : compactAll (db.commitRemovals s name) p = some q) :
    (db.executeCommitOn storage s).1.valuesAt name q = db.valuesAt name p := by
  unfold commitRemovals at goes
  unfold executeCommitOn
  cases inTx : (db.sessions s).inTransaction with
  | false =>
    obtain rfl : p = q := by simpa [inTx, compactAll] using goes
    simp only [inTx, Bool.not_false, if_true]
  | true =>
    simp only [inTx, if_true, Misc.compactAll_cons] at goes
    obtain ⟨r, fst, rest⟩ := bind_eq_some_iff.mp goes
    have vacuumed := vacuumAll_valuesAt fst
    simp only [inTx, Bool.not_true, Bool.false_eq_true, if_false]
    generalize vacuumAllTables _ = res at vacuumed rest ⊢
    obtain ⟨db₁, _ | _⟩ := res
    · obtain rfl : r = q := by simpa [compactAll] using rest
      exact vacuumed
    · have frozen := (freezeAll_valuesAt rest).trans vacuumed
      show (andThen (db₁.freezeAllTables _) _).1.valuesAt name q = _
      generalize db₁.freezeAllTables _ = res at frozen ⊢
      obtain ⟨db₂, _ | _⟩ := res
      · exact frozen
      · have persisted := ((persist_sameRows steady (.successResult "COMMIT OK")
          false).valuesAt name q).trans frozen
        dsimp only [andThen]
        generalize db₂.persistDirtyTables storage _ false = res at persisted ⊢
        obtain ⟨db₃, _ | res⟩ := res
        · exact persisted
        · dsimp only
          split
          · exact ((sameRows_of_tables endSession_tables).valuesAt name q).trans persisted
          · exact persisted

theorem executeVacuum_valuesAt {tab : Option String}
    (goes : compactAll (db.removals s (.vacuum tab) name) p = some q) :
    (db.executeVacuum tab).1.valuesAt name q = db.valuesAt name p := by
  cases tab with
  | none =>
    obtain ⟨r, fst, rest⟩ := bind_eq_some_iff.mp goes
    obtain rfl : r = q := by simpa using rest
    have vacuumed := vacuumAll_valuesAt fst
    show (andThen db.vacuumAllTables _).1.valuesAt name r = _
    generalize db.vacuumAllTables = result at vacuumed ⊢
    obtain ⟨db₁, _ | _⟩ := result
    · exact vacuumed
    · exact vacuumed
  | some tab =>
    have eq : (db.executeVacuum (some tab)).1 =
        (db.write tab (·.vacuumVersions db.transactionManager)).1 := by
      unfold executeVacuum write
      dsimp only
      split <;> rfl
    rw [eq]
    exact write_valuesAt_of_removes (fun _ _ _ => vacuumVersions_valuesAt) goes

/-- The row at a position is, after an operation, where `whereabouts` says, with the values it had
    unless the operation writes to it. -/
theorem performOn_valuesAt (steady : KeepsRows storage)
    (ran : db.performOn storage fns s op = some (db', resp))
    (isIn : (db.valuesAt name p).isSome = true) (goes : db.whereabouts s op name p = some q)
    (unwritten : op.target db = some name → op.position ≠ some p) :
    db'.valuesAt name q = db.valuesAt name p := by
  have stored : ∀ t, db.tables.lookup name = some t → p < t.rowCount := by
    intro t hit
    simpa [valuesAt, hit, Table.valuesAt, rowCount] using isIn
  have apart {tab : String} {i : Nat} (tgt : op.target db = some tab)
      (pos : op.position = some i) (isTab : name = tab) : p ≠ i := by
    rintro rfl
    exact unwritten (isTab ▸ tgt) pos
  have stays (none : db.removals s op name = []) : p = q := by
    simpa [whereabouts, none, compactAll] using goes
  have quiet (none : db.removals s op name = []) (eq : db'.tables = db.tables) :
      db'.valuesAt name q = db.valuesAt name p := by
    rw [← stays none]
    exact (sameRows_of_tables eq).valuesAt name p
  have written {tab : String} {f : Table → Table × Except Exn Unit} (none : db.removals s op name = [])
      (writes : (db.write tab f).1 = db')
      (keeps : ∀ t, name = tab → p < t.rowCount → (f t).1.valuesAt p = t.valuesAt p) :
      db'.valuesAt name q = db.valuesAt name p := by
    rw [← writes, ← stays none]
    exact write_valuesAt (fun t isTab hit => keeps t isTab (stored t hit)) (fun _ => rfl)
  have state {res : Database × Response} (isResult : some res = some (db', resp)) :
      res.1 = db' := congrArg Prod.fst (some.inj isResult)
  cases op with
  | look =>
    cases ran
    exact quiet rfl rfl
  | visible tab =>
    simp only [performOn, perform] at ran
    split at ran
    · exact quiet rfl (state ran ▸ rfl)
    · split at ran <;> exact quiet rfl (state ran ▸ rfl)
  | insert tab vals =>
    refine written rfl (state ran) (fun t _ isIn => ?_)
    split <;> exact insertRow_valuesAt _ isIn
  | update tab i vals =>
    refine written rfl (state ran) (fun t isTab isIn => ?_)
    split
    · exact updateVersion_valuesAt _ isIn (apart rfl rfl isTab)
    · exact updateRow_valuesAt _ (apart rfl rfl isTab)
  | delete tab i inTx =>
    cases inTx with
    | true =>
      exact written rfl (state ran) (fun t isTab _ =>
        deleteVersion_valuesAt (apart rfl rfl isTab))
    | false =>
      rw [← state ran]
      exact write_valuesAt_of_removes (fun _ _ _ => deleteRow_valuesAt) goes
  | updateInPlace tab i vals =>
    exact written rfl (state ran) (fun t isTab _ =>
      updateRow_valuesAt _ (apart rfl rfl isTab))
  | deleteInPlace tab i =>
    rw [← state ran]
    exact write_valuesAt_of_removes (fun _ _ _ => deleteRow_valuesAt) goes
  | createIndex tab indexName cols =>
    exact written rfl (state ran) (fun t _ _ =>
      valuesAt_congr (createIndex_dir t indexName cols))
  | dropIndex indexName =>
    simp only [performOn, perform] at ran
    split at ran
    · exact quiet rfl (state ran ▸ rfl)
    next holder cols _ =>
      have writes : (db.write holder (fun t => (t.dropSecondaryIndex indexName cols, .ok ()))).1 = db' :=
        congrArg Prod.fst (some.inj ran)
      exact written rfl writes (fun t _ _ =>
        valuesAt_congr (dropIndex_dir t indexName cols))
  | begin =>
    simp only [performOn, perform, executeBegin] at ran
    split at ran <;> exact quiet rfl (state ran ▸ rfl)
  | commit =>
    have after := respondWith_fst_eq (some.inj ran)
    exact after ▸ commitOn_valuesAt steady goes
  | rollback =>
    have after := respondWith_fst_eq (some.inj ran)
    exact after ▸ rollback_valuesAt goes
  | vacuum tab =>
    have after := respondWith_fst_eq (some.inj ran)
    exact after ▸ executeVacuum_valuesAt goes
  | request key mode =>
    refine quiet rfl (state ran ▸ ?_)
    show (db.ensureLockTxnId s).tables = db.tables
    unfold ensureLockTxnId
    split <;> rfl
  | attempt key mode =>
    simp only [performOn, perform] at ran
    split at ran
    · exact quiet rfl (state ran ▸ rfl)
    · cases ran
    · exact quiet rfl (state ran ▸ rfl)
  | release =>
    refine quiet rfl (state ran ▸ ?_)
    show (db.releaseSessionLocks s).tables = db.tables
    unfold releaseSessionLocks
    split <;> rfl
  | persist res =>
    have after := respondWith_fst_eq (some.inj ran)
    rw [← after, ← stays rfl]
    exact (persist_sameRows steady res false).valuesAt name p

end Database

end NobugDb
