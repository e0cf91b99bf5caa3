import NobugDb.Core.Proofs.WellFormed

/-!
# Operations on a database of well-formed tables

What the functions of `Database` do when no table makes them throw: every table is vacuumed
or frozen, and COMMIT and ROLLBACK run to their end.
-/

namespace NobugDb

open Misc (AssocMap)
open Table

namespace Database

variable {db : Database} {s : Nat}

/-- Every table is well formed, and there is one of each name. -/
structure TablesOk (db : Database) : Prop where
  wf : ∀ e ∈ db.tables, e.2.WellFormed
  distinct : (db.tables.map Prod.fst).Nodup

variable {t : Table} {f : Table → Table × Except Exn Unit} {name : String}

theorem TablesOk.lookup (ok : db.TablesOk) (hit : db.tables.lookup name = some t) : t.WellFormed :=
  ok.wf _ (Misc.mem_of_lookup hit)

/-! ## Passes over all tables -/

theorem eachTable_ok {tables : AssocMap String Table} (ok : ∀ e ∈ tables, (f e.2).2 = .ok ()) :
    eachTable f tables = (tables.map (fun e => (e.1, (f e.2).1)), .ok ()) := by
  induction tables with
  | nil => rfl
  | cons e tables ih =>
    obtain ⟨name, t⟩ := e
    have fst : (f t).2 = .ok () := ok (name, t) (by simp)
    have rest := ih (fun e mem => ok e (by simp [mem]))
    unfold eachTable
    cases res : f t with
    | mk u out =>
      rw [res] at fst
      obtain rfl : out = .ok () := fst
      simp [rest, res]

theorem onTables_ok (ok : ∀ e ∈ db.tables, (f e.2).2 = .ok ()) :
    db.onTables f = ({ db with tables := db.tables.map (fun e => (e.1, (f e.2).1)) }, .ok ()) := by
  unfold onTables
  rw [eachTable_ok ok]

theorem vacuumVersions_ok (wf : t.WellFormed) (tm : TransactionManager) :
    (t.vacuumVersions tm).2 = .ok () ∧ (t.vacuumVersions tm).1.WellFormed := by
  obtain ⟨rows, u, -, vacuumed, became⟩ := vacuumVersions_writes wf tm
  rw [vacuumed]
  exact ⟨rfl, became.wf⟩

theorem freezeVersions_ok (wf : t.WellFormed) {xid : Nat} (pos : xid ≠ 0) :
    (t.freezeCommittedVersions xid).2 = .ok () ∧ (t.freezeCommittedVersions xid).1.WellFormed := by
  obtain ⟨rows, u, -, frozen, became⟩ := freezeVersions_writes wf pos
  rw [frozen]
  exact ⟨rfl, became.wf⟩

theorem vacuumAll_of_ok
    (vacuums : ∀ e ∈ db.tables, (e.2.vacuumVersions db.transactionManager).2 = .ok ()) :
    db.vacuumAllTables =
      ({ db with
          tables :=
            db.tables.map (fun e => (e.1, (e.2.vacuumVersions db.transactionManager).1)) },
        .ok ()) :=
  onTables_ok vacuums

theorem vacuumAll_ok (ok : db.TablesOk) :
    db.vacuumAllTables =
      ({ db with
          tables :=
            db.tables.map (fun e => (e.1, (e.2.vacuumVersions db.transactionManager).1)) },
        .ok ()) :=
  vacuumAll_of_ok (fun e mem => (vacuumVersions_ok (ok.wf e mem) _).1)

def committedTable (tm : TransactionManager) (xid : Nat) (t : Table) : Table :=
  let vacuumed := (t.vacuumVersions tm).1
  if tm.canFreezeCommitted xid then (vacuumed.freezeCommittedVersions xid).1 else vacuumed

/-- The database in COMMIT, before it is flushed. -/
def committing (db : Database) (xid : Nat) : Database :=
  let tm := db.transactionManager.commitTransaction xid
  { db with
    transactionManager := tm
    tables := db.tables.map (fun e => (e.1, committedTable tm xid e.2)) }

theorem executeCommit_ok (ok : db.TablesOk) (inTx : (db.sessions s).inTransaction = true)
    (pos : (db.sessions s).transactionId ≠ 0) :
    db.executeCommit s =
      ((db.committing (db.sessions s).transactionId).flush.endSession s,
        .ok (.successResult "COMMIT OK")) := by
  unfold executeCommit
  have vacuumed := @vacuumAll_ok { db with
    transactionManager := db.transactionManager.commitTransaction (db.sessions s).transactionId }
    ⟨ok.wf, ok.distinct⟩
  simp only [inTx, Bool.not_true, Bool.false_eq_true, if_false, vacuumed, andThen,
    freezeAllTables]
  cases freezes : (db.transactionManager.commitTransaction
      (db.sessions s).transactionId).canFreezeCommitted (db.sessions s).transactionId with
  | true =>
    simp only [if_true]
    rw [onTables_ok]
    · simp only [committing, committedTable, freezes, if_true, List.map_map]
      rfl
    · intro e mem
      obtain ⟨old, inTables, rfl⟩ := List.mem_map.mp mem
      exact (freezeVersions_ok (vacuumVersions_ok (ok.wf old inTables) _).2 pos).1
  | false =>
    simp only [Bool.false_eq_true, if_false, committing, committedTable, freezes]

/-- The database in ROLLBACK, before the session is reset. -/
def aborting (db : Database) (xid : Nat) : Database :=
  let tm := db.transactionManager.abortTransaction xid
  { db with
    transactionManager := tm
    tables := db.tables.map (fun e => (e.1, (e.2.vacuumVersions tm).1)) }

theorem executeRollback_ok (ok : db.TablesOk) (inTx : (db.sessions s).inTransaction = true) :
    db.executeRollback s =
      ((db.aborting (db.sessions s).transactionId).endSession s,
        .ok (.successResult "ROLLBACK OK")) := by
  unfold executeRollback
  have vacuumed := @vacuumAll_ok { db with
    transactionManager := db.transactionManager.abortTransaction (db.sessions s).transactionId }
    ⟨ok.wf, ok.distinct⟩
  simp only [inTx, Bool.not_true, Bool.false_eq_true, if_false, vacuumed, andThen, aborting]

/-! ## The end of a transaction -/

@[simp] theorem endSession_tables : (db.endSession s).tables = db.tables := by
  unfold endSession releaseSessionLocks
  split <;> rfl

@[simp] theorem endSession_tm : (db.endSession s).transactionManager = db.transactionManager := by
  unfold endSession releaseSessionLocks
  split <;> rfl

@[simp] theorem endSession_sessions :
    (db.endSession s).sessions = Function.update db.sessions s {} := by
  unfold endSession releaseSessionLocks
  split <;> rfl

/-! ## Writes to one table -/

theorem write_found (hit : db.tables.lookup name = some t) :
    db.write name f =
      ({ db with tables := AssocMap.adjust name (fun _ => (f t).1) db.tables },
        { ({ db with tables := AssocMap.adjust name (fun _ => (f t).1) db.tables } :
            Database).respond with outcome := (f t).2 }) := by
  simp only [write, hit]

theorem write_missing (absent : db.tables.lookup name = none) : db.write name f = db.missing name := by
  simp only [write, absent]

end Database

/-! ## What an operation does -/

namespace Op

def target (db : Database) : Op → Option String
  | .insert name _ | .update name _ _ | .delete name _ _ => some name
  | .updateInPlace name _ _ | .deleteInPlace name _ => some name
  | .createIndex name _ _ => some name
  | .dropIndex indexName =>
    (db.tables.findSome? (fun e =>
      (e.2.secondaryIndexes.lookup indexName).map (fun columns => (e.1, columns)))).map Prod.fst
  | _ => none

/-- The position of the row version the operation replaces, deletes or stamps. -/
def position : Op → Option Nat
  | .update _ i _ | .delete _ i _ | .updateInPlace _ i _ | .deleteInPlace _ i => some i
  | _ => none

def written : Op → Option (List Value)
  | .insert _ values | .update _ _ values | .updateInPlace _ _ values => some values
  | _ => none

/-- The row versions the operation makes of those of its table. -/
def rowsAfter (db : Database) (rows : List Row) : Op → List Row
  | .insert _ values => rows ++ [⟨values, db.reader.1, 0⟩]
  | .update _ i values =>
    if db.writesVersioned then
      rows.modify i (·.setXmax db.reader.1) ++ [⟨values, db.reader.1, 0⟩]
    else rows.modify i (fun old => ⟨values, old.xmin, old.xmax⟩)
  | .delete _ i inTx => if inTx then rows.modify i (·.setXmax db.reader.1) else rows.eraseIdx i
  | .updateInPlace _ i values => rows.modify i (fun old => ⟨values, old.xmin, old.xmax⟩)
  | .deleteInPlace _ i => rows.eraseIdx i
  | _ => rows

/-- A row of the values the operation writes fits a page. -/
def Small (op : Op) : Prop := op.written.all (fun values => Table.fits ⟨values, 0, 0⟩) = true

end Op

/-- The operation has made `u` of the table `t`. -/
structure Wrote (db : Database) (op : Op) (t u : Table) : Prop where
  wf : u.WellFormed
  keys : Table.SameKeys t u
  dirty : u = t ∨ u.dirty = true
  rows : u.storedRows = op.rowsAfter db t.storedRows
  inside : ∀ i, op.position = some i → i < t.storedRows.length

namespace Database

variable {fns : Functions} {s : Nat} {db db' : Database} {op : Op} {t u : Table}

theorem reader_of_unversioned (unversioned : db.writesVersioned = false) : db.reader = (0, none) := by
  unfold writesVersioned at unversioned
  unfold reader
  cases active : db.activeSession with
  | none => rfl
  | some s =>
    simp only [active] at unversioned
    simp [readerOf, unversioned]

/-- A write that leaves the rows in `rows`, or fails and changes nothing. -/
def Leaves (t : Table) (result : Table × Except Exn Unit) (rows : List Row) (i : Option Nat) : Prop :=
  (∃ exn, result = (t, .error exn)) ∨
    ∃ u directory, result = (u, .ok ()) ∧ Table.Became t u directory ∧
      directory = rows.map some ∧ ∀ j, i = some j → j < t.storedRows.length

theorem modify_of_stored {rows : List Row} {i : Nat} {old : Row} (stored : rows[i]? = some old)
    (f : Row → Row) : rows.modify i f = rows.set i (f old) := by
  obtain ⟨isIn, rfl⟩ := List.getElem?_eq_some_iff.mp stored
  exact List.modify_eq_set_get f isIn

theorem length_of_stored {rows : List Row} {i j : Nat} {old : Row} (stored : rows[i]? = some old)
    (eq : some i = some j) : j < rows.length := by
  cases eq
  exact (List.getElem?_eq_some_iff.mp stored).1

variable {row : Row}

theorem insertRow_leaves (wf : t.WellFormed) (small : fits row = true) :
    Leaves t (t.insertRow fns row) (t.storedRows ++ [row]) none := by
  rcases insertRow_writes fns wf small with fail | ⟨u, inserted, became⟩
  · exact .inl fail
  · refine .inr ⟨u, _, inserted, became, ?_, by simp⟩
    rw [wf.dir_eq]
    simp

theorem updateRow_leaves (wf : t.WellFormed) (i : Nat) (small : fits row = true) :
    Leaves t (t.updateRow fns i row)
      (t.storedRows.modify i (fun old => ⟨row.values, old.xmin, old.xmax⟩)) (some i) := by
  rcases updateRow_writes fns wf i small with fail | ⟨old, u, stored, updated, became⟩
  · exact .inl fail
  · have inRows := wf.stored_iff.mp stored
    refine .inr ⟨u, _, updated, became, ?_, fun j eq => length_of_stored inRows eq⟩
    rw [modify_of_stored inRows, wf.dir_eq, List.map_set]

theorem updateVersion_leaves (wf : t.WellFormed) (i : Nat) (small : fits row = true) (xid : Nat) :
    Leaves t (t.updateRowVersioned fns i row xid)
      (t.storedRows.modify i (·.setXmax xid) ++ [⟨row.values, xid, 0⟩]) (some i) := by
  rcases updateVersion_writes fns wf i small xid with
    fail | ⟨old, u, stored, updated, became⟩
  · exact .inl fail
  · have inRows := wf.stored_iff.mp stored
    refine .inr ⟨u, _, updated, became, ?_, fun j eq => length_of_stored inRows eq⟩
    rw [modify_of_stored inRows, wf.dir_eq, List.map_append, List.map_set]
    rfl

theorem deleteRow_leaves (wf : t.WellFormed) (i : Nat) :
    Leaves t (t.deleteRow i) (t.storedRows.eraseIdx i) (some i) := by
  by_cases outside : t.rowCount ≤ i
  · exact .inl ⟨_, if_pos outside⟩
  · rcases deleteRow_writes wf i with fail | ⟨u, deleted, became⟩
    · exact .inl fail
    · refine .inr ⟨u, _, deleted, became, ?_, ?_⟩
      · rw [wf.dir_eq, List.eraseIdx_map]
      · rintro j ⟨⟩
        have counted : t.rowCount = t.storedRows.length := by
          rw [rowCount, wf.dir_eq, List.length_map]
        omega

theorem deleteVersion_leaves (wf : t.WellFormed) (i xid : Nat) :
    Leaves t (t.deleteRowVersioned i xid) (t.storedRows.modify i (·.setXmax xid)) (some i) := by
  rcases deleteVersion_writes wf i xid with fail | ⟨old, u, stored, deleted, became⟩
  · exact .inl fail
  · have inRows := wf.stored_iff.mp stored
    refine .inr ⟨u, _, deleted, became, ?_, fun j eq => length_of_stored inRows eq⟩
    rw [modify_of_stored inRows, wf.dir_eq, List.map_set]

def setTable (db : Database) (name : String) (u : Table) : Database :=
  { db with tables := AssocMap.adjust name (fun _ => u) db.tables }

/-- The databases agree on tables, transactions and files. A session outside a transaction may
    have been given an id for its locks. -/
structure SameStore (db db' : Database) : Prop where
  tables : db'.tables = db.tables
  transactionManager : db'.transactionManager = db.transactionManager
  disk : db'.disk = db.disk
  inTransaction : ∀ s, (db'.sessions s).inTransaction = (db.sessions s).inTransaction
  sessions : ∀ s, (db.sessions s).inTransaction = true → db'.sessions s = db.sessions s

theorem SameStore.refl (db : Database) : SameStore db db :=
  ⟨rfl, rfl, rfl, fun _ => rfl, fun _ _ => rfl⟩

/-- What an operation of session `s` does, and its outcome. -/
inductive Effect (s : Nat) (db : Database) : Op → Database → Except Exn Unit → Prop
  /-- A write that failed. -/
  | failed {op : Op} {name : String} {exn : Exn} (target : op.target db = some name) :
      Effect s db op db (.error exn)
  /-- A write. -/
  | wrote {op : Op} {name : String} {t u : Table} (target : op.target db = some name)
      (found : db.tables.lookup name = some t) (wrote : Wrote db op t u) :
      Effect s db op (db.setTable name u) (.ok ())
  /-- No change to tables, transactions and files. -/
  | quiet {op : Op} {db' : Database} {outcome : Except Exn Unit} (noTarget : op.target db = none)
      (notBegun : op = .begin → (db.sessions s).inTransaction = true) (same : SameStore db db') :
      Effect s db op db' outcome
  | flushed {result : QueryResult} : Effect s db (.persist result) db.flush (.ok ())
  | begun (outside : (db.sessions s).inTransaction = false) :
      Effect s db .begin (db.executeBegin s).1 (.ok ())
  | committed (inside : (db.sessions s).inTransaction = true) :
      Effect s db .commit ((db.committing (db.sessions s).transactionId).flush.endSession s) (.ok ())
  | rolledBack (inside : (db.sessions s).inTransaction = true) :
      Effect s db .rollback ((db.aborting (db.sessions s).transactionId).endSession s) (.ok ())
  | vacuumedAll : Effect s db (.vacuum none) db.vacuumAllTables.1 (.ok ())
  | vacuumed {name : String} {t : Table} (found : db.tables.lookup name = some t) :
      Effect s db (.vacuum (some name))
        (db.setTable name (t.vacuumVersions db.transactionManager).1) (.ok ())

theorem effect_of_write {name : String} {f : Table → Table × Except Exn Unit}
    {outcome : Except Exn Unit} (res : (db.write name f).1 = db')
    (resp : (db.write name f).2.outcome = outcome) (tgt : op.target db = some name)
    (ok : db.TablesOk)
    (leaves : ∀ t, t.WellFormed → Leaves t (f t) (op.rowsAfter db t.storedRows) op.position) :
    Effect s db op db' outcome := by
  subst res resp
  cases hit : db.tables.lookup name with
  | none =>
    rw [write_missing hit]
    exact .failed tgt
  | some t =>
    rw [write_found hit]
    rcases leaves t (ok.lookup hit) with ⟨exn, fail⟩ | ⟨u, dir, written, became, eq, isIn⟩
    · rw [fail]
      have unchanged : AssocMap.adjust name (fun _ => t) db.tables = db.tables :=
        Misc.adjust_same ok.distinct hit
      simp only [unchanged]
      exact .failed tgt
    · rw [written]
      exact .wrote tgt hit ⟨became.wf, became.keys, became.dirty, became.storedRows eq, isIn⟩

theorem sameStore_lockTxnId
    (ids : (db.sessions s).inTransaction = true → (db.sessions s).transactionId ≠ 0) :
    SameStore db (db.ensureLockTxnId s) := by
  unfold ensureLockTxnId
  split
  · refine ⟨rfl, rfl, rfl, fun ne => ?_, fun ne inTx => ?_⟩
    · by_cases eq : ne = s
      · subst eq
        simp [setSession]
      · simp [setSession, eq]
    · by_cases eq : ne = s
      · subst eq
        exact absurd ‹_› (ids inTx)
      · simp [setSession, eq]
  · exact .refl db

theorem sameStore_releaseLocks : SameStore db (db.releaseSessionLocks s) := by
  unfold releaseSessionLocks
  split
  · exact .refl db
  · exact ⟨rfl, rfl, rfl, fun _ => rfl, fun _ _ => rfl⟩

theorem insert_leaves {vals : List Value} (wf : t.WellFormed)
    (small : fits ⟨vals, 0, 0⟩ = true) :
    Leaves t
      (if db.writesVersioned then t.insertRowVersioned fns ⟨vals, 0, 0⟩ db.reader.1
        else t.insertRow fns ⟨vals, 0, 0⟩)
      (t.storedRows ++ [⟨vals, db.reader.1, 0⟩]) none := by
  split
  · exact insertRow_leaves wf small
  · rename_i unversioned
    rw [reader_of_unversioned (by simpa using unversioned)]
    exact insertRow_leaves wf small

theorem update_leaves {vals : List Value} (wf : t.WellFormed) (i : Nat)
    (small : fits ⟨vals, 0, 0⟩ = true) :
    Leaves t
      (if db.writesVersioned then t.updateRowVersioned fns i ⟨vals, 0, 0⟩ db.reader.1
        else t.updateRow fns i ⟨vals, 0, 0⟩)
      (Op.rowsAfter db t.storedRows (.update "" i vals)) (some i) := by
  simp only [Op.rowsAfter]
  split
  · exact updateVersion_leaves wf i small _
  · exact updateRow_leaves wf i small

/-- Every operation has one of these effects. -/
theorem perform_effect {resp : Response} (ok : db.TablesOk)
    (ids : (db.sessions s).inTransaction = true → (db.sessions s).transactionId ≠ 0)
    (small : op.Small) (ran : db.perform fns s op = some (db', resp)) :
    Effect s db op db' resp.outcome := by
  have quiet : ∀ {db' : Database} {outcome : Except Exn Unit}, op.target db = none → op ≠ .begin →
      SameStore db db' → Effect s db op db' outcome :=
    fun noTarget ne same => .quiet noTarget (fun h => absurd h ne) same
  have state : ∀ {res : Database × Response}, some res = some (db', resp) →
      res.1 = db' := fun h => congrArg Prod.fst (Option.some.inj h)
  have outcome : ∀ {res : Database × Response}, some res = some (db', resp) →
      res.2.outcome = resp.outcome := fun h => congrArg (·.2.outcome) (Option.some.inj h)
  cases op with
  | look =>
    cases ran
    exact quiet rfl nofun (.refl db)
  | visible name =>
    simp only [perform] at ran
    split at ran
    · cases ran
      exact quiet rfl nofun (.refl db)
    · split at ran <;> (cases ran; exact quiet rfl nofun (.refl db))
  | insert name vals =>
    exact effect_of_write (state ran) (outcome ran) rfl ok (fun t wf => insert_leaves wf small)
  | update name i vals =>
    exact effect_of_write (state ran) (outcome ran) rfl ok (fun t wf => update_leaves wf i small)
  | delete name i inTx =>
    refine effect_of_write (state ran) (outcome ran) rfl ok (fun t wf => ?_)
    cases inTx with
    | true => exact deleteVersion_leaves wf i _
    | false => exact deleteRow_leaves wf i
  | updateInPlace name i vals =>
    exact effect_of_write (state ran) (outcome ran) rfl ok (fun t wf => updateRow_leaves wf i small)
  | deleteInPlace name i =>
    exact effect_of_write (state ran) (outcome ran) rfl ok (fun t wf => deleteRow_leaves wf i)
  | createIndex name indexName cols =>
    refine effect_of_write (state ran) (outcome ran) rfl ok (fun t wf => ?_)
    rcases createIndex_writes wf indexName cols with fail | ⟨u, created, became⟩
    · exact .inl fail
    · exact .inr ⟨u, _, created, became, wf.dir_eq, nofun⟩
  | dropIndex indexName =>
    simp only [perform] at ran
    split at ran
    · rename_i absent
      cases ran
      exact quiet (by simp [Op.target, absent]) nofun (.refl db)
    · rename_i name cols holder
      cases ran
      have tgt : (Op.dropIndex indexName).target db = some name := by
        simp [Op.target, holder]
      refine effect_of_write rfl rfl tgt ok (fun t wf => ?_)
      exact .inr ⟨_, _, rfl, dropIndex_became wf indexName cols, wf.dir_eq, nofun⟩
  | begin =>
    simp only [perform] at ran
    rw [← state ran, ← outcome ran]
    cases inTx : (db.sessions s).inTransaction with
    | true =>
      have stays : (db.executeBegin s).1 = db := by simp [executeBegin, inTx]
      simp only [stays]
      exact .quiet rfl (fun _ => inTx) (.refl db)
    | false => exact .begun inTx
  | commit =>
    cases inTx : (db.sessions s).inTransaction with
    | true =>
      simp only [perform, executeCommit_ok ok inTx (ids inTx)] at ran
      cases ran
      exact .committed inTx
    | false =>
      have stays : db.executeCommit s = (db, .ok (.errorResult "No active transaction")) := by
        simp [executeCommit, inTx]
      simp only [perform, stays] at ran
      cases ran
      exact quiet rfl nofun (.refl db)
  | rollback =>
    cases inTx : (db.sessions s).inTransaction with
    | true =>
      simp only [perform, executeRollback_ok ok inTx] at ran
      cases ran
      exact .rolledBack inTx
    | false =>
      have stays : db.executeRollback s = (db, .ok (.errorResult "No active transaction")) := by
        simp [executeRollback, inTx]
      simp only [perform, stays] at ran
      cases ran
      exact quiet rfl nofun (.refl db)
  | vacuum tab =>
    cases tab with
    | none =>
      have eff := @Effect.vacuumedAll s db
      simp only [perform, executeVacuum, vacuumAll_ok ok] at ran eff
      cases ran
      exact eff
    | some name =>
      simp only [perform, executeVacuum] at ran
      cases hit : db.tables.lookup name with
      | none =>
        simp only [hit] at ran
        cases ran
        exact quiet rfl nofun (.refl db)
      | some t =>
        obtain ⟨rows, u, -, vacuumed, -⟩ :=
          vacuumVersions_writes (ok.lookup hit) db.transactionManager
        simp only [hit, vacuumed] at ran
        cases ran
        have eff := @Effect.vacuumed s db name t hit
        rwa [vacuumed] at eff
  | request key mode =>
    cases ran
    have same := sameStore_lockTxnId ids
    exact quiet rfl nofun { same with }
  | attempt key mode =>
    simp only [perform] at ran
    split at ran
    · cases ran
      exact quiet rfl nofun ⟨rfl, rfl, rfl, fun _ => rfl, fun _ _ => rfl⟩
    · cases ran
    · cases ran
      exact quiet rfl nofun ⟨rfl, rfl, rfl, fun _ => rfl, fun _ _ => rfl⟩
  | release =>
    cases ran
    exact quiet rfl nofun sameStore_releaseLocks
  | persist res =>
    cases ran
    split
    · exact .flushed
    · exact quiet rfl nofun (.refl db)

end Database

end NobugDb
