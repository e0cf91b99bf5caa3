import NobugDb.Core.Proofs.ActiveSession
import NobugDb.Core.Proofs.Operations
import NobugDb.Core.Proofs.SeenRows

/-!
# What transactions read

A transaction should read the rows committed at its BEGIN as changed by its own writes. A
`View` keeps these rows beside the database, and a run keeps the two together as long as
nothing is written in place while a transaction is open, no version another transaction has
stamped is stamped again, and no vacuum drops a version that is still seen.
-/

namespace NobugDb

open Misc (AssocMap Meets)
open TransactionManager
open Function (update update_of_ne)

/-- For each session and table the rows its transaction should read. -/
abbrev View := Nat → String → Multiset (List Value)

namespace Database

variable {db db' : Database} {s : Nat} {v v' : View} {t u : Table} {name : String}

def storedIn (db : Database) (name : String) : List Row :=
  ((db.tables.lookup name).map Table.storedRows).getD []

theorem storedIn_of_lookup (hit : db.tables.lookup name = some t) :
    db.storedIn name = t.storedRows := by
  rw [storedIn, hit]
  rfl

/-- The rows that are committed, as a reader outside transactions sees them. -/
def committedRows (db : Database) (name : String) : Multiset (List Value) :=
  db.transactionManager.seen (0, none) (db.storedIn name)

def succeeds (fns : Functions) (s : Nat) (db : Database) (op : Op) : Bool :=
  match db.perform fns s op with
  | some (_, response) => response.outcome.isOk
  | none => false

/-- The row version the operation replaces, deletes or stamps. -/
def rowAt (db : Database) (op : Op) : Option Row := do
  (db.storedIn (← op.target db))[← op.position]?

end Database

namespace View

def set (v : View) (s : Nat) (name : String) (rows : Multiset (List Value)) : View :=
  Function.update v s (Function.update (v s) name rows)

/-- What a transaction should read after a write of its own. -/
def write (v : View) (s : Nat) (db : Database) (op : Op) : View :=
  let old := ((db.rowAt op).map Row.values).getD []
  match op with
  | .insert name values => v.set s name (values ::ₘ v s name)
  | .update name _ values => v.set s name (values ::ₘ (v s name).erase old)
  | .delete name _ _ => v.set s name ((v s name).erase old)
  | _ => v

/-- What transactions should read after an operation of session `s`: BEGIN takes the committed
    rows, and the writes of a transaction change its own view. -/
def follow (fns : Functions) (s : Nat) (v : View) (access : Database × Op) : View :=
  let (db, op) := access
  match op with
  | .begin => if (db.sessions s).inTransaction then v else Function.update v s db.committedRows
  | _ => if (db.sessions s).inTransaction && db.succeeds fns s op then v.write s db op else v

theorem set_self (v : View) (s : Nat) (name : String) (rows : Multiset (List Value)) :
    v.set s name rows s name = rows := by
  simp [set]

theorem set_other_table (v : View) {s s' : Nat} {name other : String} (rows : Multiset (List Value))
    (ne : other ≠ name) : v.set s name rows s' other = v s' other := by
  by_cases eq : s' = s
  · subst eq
    simp [set, ne]
  · simp [set, eq]

theorem set_other_session (v : View) {s s' : Nat} (name other : String)
    (rows : Multiset (List Value)) (ne : s' ≠ s) : v.set s name rows s' other = v s' other := by
  simp [set, ne]

end View

variable {snap : TransactionSnapshot} {fns : Functions}

namespace Database

variable {db db' : Database} {s : Nat} {v v' : View} {t u : Table} {name : String}

/-- Transactions read what their views hold, and everything they rely on for it. -/
structure Tracks (db : Database) (v : View) : Prop where
  manager : db.transactionManager.Consistent
  tables : db.TablesOk
  stamps : ∀ e ∈ db.tables, ∀ row ∈ e.2.storedRows, db.transactionManager.StampsOk row
  snapshots : ∀ s, (db.sessions s).inTransaction = true →
    ∃ snap, (db.sessions s).snapshot = some snap ∧
      db.transactionManager.SnapshotOk (db.sessions s).transactionId snap
  distinct : ∀ s s', (db.sessions s).inTransaction = true → (db.sessions s').inTransaction = true →
    (db.sessions s).transactionId = (db.sessions s').transactionId → s = s'
  views : ∀ s, (db.sessions s).inTransaction = true → ∀ name t, db.tables.lookup name = some t →
    db.transactionManager.seen (readerOf (db.sessions s)) t.storedRows = v s name

theorem readerOf_inTx {sess : Transaction}
    (inTx : sess.inTransaction = true) (snapshot : sess.snapshot = some snap) :
    readerOf sess = (sess.transactionId, some snap) := by
  simp [readerOf, inTx, snapshot]

theorem Tracks.id_ne_zero (tracks : Tracks db v) (inTx : (db.sessions s).inTransaction = true) :
    (db.sessions s).transactionId ≠ 0 := by
  obtain ⟨snap, -, snapOk⟩ := tracks.snapshots s inTx
  exact (tracks.manager.active_pos snapOk.active).ne'

theorem Tracks.outside_of_inactive (tracks : Tracks db v)
    (inactive : db.transactionManager.activeXids = ∅) (s : Nat) :
    (db.sessions s).inTransaction = false := by
  by_contra inside
  obtain ⟨snap, -, snapOk⟩ := tracks.snapshots s (by simpa using inside)
  have := snapOk.active
  rw [inactive] at this
  simp at this

theorem Tracks.setTable (tracks : Tracks db v) (hit : db.tables.lookup name = some t)
    (wf : u.WellFormed)
    (stamps : ∀ row ∈ u.storedRows, db.transactionManager.StampsOk row)
    (seen : ∀ s, (db.sessions s).inTransaction = true →
      db.transactionManager.seen (readerOf (db.sessions s)) u.storedRows = v' s name)
    (others : ∀ s ne, ne ≠ name → v' s ne = v s ne) :
    Tracks (db.setTable name u) v' := by
  refine ⟨tracks.manager, ⟨?_, ?_⟩, ?_, tracks.snapshots, tracks.distinct, ?_⟩
  · intro e mem
    rcases Misc.mem_adjust mem with mem | rfl
    · exact tracks.tables.wf e mem
    · exact wf
  · show ((AssocMap.adjust name (fun _ => u) db.tables).map Prod.fst).Nodup
    rw [Misc.keys_adjust]
    exact tracks.tables.distinct
  · intro e mem
    rcases Misc.mem_adjust mem with mem | rfl
    · exact tracks.stamps e mem
    · exact stamps
  · intro s inTx ne w here
    have here : (AssocMap.adjust name (fun _ => u) db.tables).lookup ne = some w := here
    rw [Misc.lookup_adjust] at here
    by_cases eq : ne = name
    · subst eq
      rw [if_pos rfl, hit] at here
      cases here
      exact seen s inTx
    · rw [if_neg eq] at here
      rw [others s ne eq]
      exact tracks.views s inTx ne w here

/-! ## Passes over the tables -/

/-- The table `u` shows every transaction under `tm'` what `t` shows it under `tm`. -/
structure TableKept (tm tm' : TransactionManager) (t u : Table) : Prop where
  wf : u.WellFormed
  stamps : ∀ row ∈ u.storedRows, tm'.StampsOk row
  seen : ∀ xid snap, tm.SnapshotOk xid snap → tm'.SnapshotOk xid snap →
    tm'.seen (xid, some snap) u.storedRows = tm.seen (xid, some snap) t.storedRows

variable {status : TransactionStatus}

section Kept

variable {tm tm' : TransactionManager}

theorem TableKept.trans {w : Table} (fst : TableKept tm tm' t u) (snd : TableKept tm' tm' u w) :
    TableKept tm tm' t w :=
  ⟨snd.wf, snd.stamps, fun xid snap before after =>
    (snd.seen xid snap after after).trans (fst.seen xid snap before after)⟩

theorem tableKept_end {ended : Nat} (ok : tm.Consistent)
    (running : ended ∈ tm.activeXids) (wf : t.WellFormed)
    (stamps : ∀ row ∈ t.storedRows, tm.StampsOk row) :
    TableKept tm (tm.endTransaction ended status) t t := by
  have inProgress := ok.active ended running
  refine ⟨wf, fun row mem => stampsOk_end inProgress (stamps row mem), ?_⟩
  intro xid snap before _
  exact seen_of_settled (ok.active_pos before.active) (settled_end before inProgress) _

theorem tableKept_vacuum (ok : tm.Consistent) (wf : t.WellFormed)
    (stamps : ∀ row ∈ t.storedRows, tm.StampsOk row) (deleters : Table.DeletersSeen tm t) :
    TableKept tm tm t (t.vacuumVersions tm).1 := by
  obtain ⟨rows, u, read, vacuumed, became⟩ := Table.vacuumVersions_writes wf tm
  obtain rfl : t.storedRows = rows := Except.ok.inj (wf.getAllRows_eq.symm.trans read)
  rw [vacuumed]
  refine ⟨became.wf, ?_, ?_⟩
  · rw [became.storedRows rfl]
    intro row mem
    obtain ⟨old, inRows, keeps⟩ := List.mem_filterMap.mp mem
    exact stampsOk_vacuum ok (stamps old inRows) keeps
  · intro xid snap snapOk _
    rw [became.storedRows rfl]
    exact seen_vacuum ok snapOk read deleters

theorem tableKept_freeze {frozen : Nat} (ok : tm.Consistent) (wf : t.WellFormed)
    (stamps : ∀ row ∈ t.storedRows, tm.StampsOk row) (pos : frozen ≠ 0)
    (committed : tm.isCommitted frozen = true) (canFreeze : tm.canFreezeCommitted frozen = true) :
    TableKept tm tm t (t.freezeCommittedVersions frozen).1 := by
  obtain ⟨rows, u, read, done, became⟩ := Table.freezeVersions_writes wf pos
  obtain rfl : t.storedRows = rows := Except.ok.inj (wf.getAllRows_eq.symm.trans read)
  rw [done]
  refine ⟨became.wf, ?_, ?_⟩
  · rw [became.storedRows rfl]
    exact stampsOk_freeze ok stamps
  · intro xid snap snapOk _
    rw [became.storedRows rfl]
    exact seen_freeze ok snapOk pos committed canFreeze stamps

theorem TableKept.clearDirty (kept : TableKept tm tm' t u) : TableKept tm tm' t u.clearDirty :=
  ⟨kept.wf.clearDirty, kept.stamps, kept.seen⟩

theorem tableKept_committedTable {ended : Nat} (ok : tm.Consistent)
    (running : ended ∈ tm.activeXids) (wf : t.WellFormed)
    (stamps : ∀ row ∈ t.storedRows, tm.StampsOk row)
    (deleters : Table.DeletersSeen (tm.commitTransaction ended) t) :
    TableKept tm (tm.commitTransaction ended) t
      (committedTable (tm.commitTransaction ended) ended t) := by
  have after : (tm.commitTransaction ended).Consistent :=
    consistent_end ok running (by decide)
  have fst : TableKept tm (tm.commitTransaction ended) t t :=
    tableKept_end ok running wf stamps
  have second := tableKept_vacuum after wf fst.stamps deleters
  have pos : ended ≠ 0 := (ok.active_pos running).ne'
  unfold committedTable
  simp only
  split
  · rename_i canFreeze
    have committed : (tm.commitTransaction ended).isCommitted ended = true := by
      have status : (tm.commitTransaction ended).statuses ended = some .committed :=
        endTxn_status_self
      simp [isCommitted, status]
    exact (fst.trans second).trans
      (tableKept_freeze after second.wf second.stamps pos committed canFreeze)
  · exact fst.trans second

end Kept

section

variable (tracks : Tracks db v)
include tracks

theorem Tracks.ofPass {f : Table → Table}
    (tables : db'.tables = db.tables.map (fun e => (e.1, f e.2)))
    (mgr : db'.transactionManager.Consistent)
    (sess : ∀ s, (db'.sessions s).inTransaction = true → db'.sessions s = db.sessions s)
    (snapshots : ∀ s snap, (db'.sessions s).inTransaction = true →
      db.transactionManager.SnapshotOk (db.sessions s).transactionId snap →
      db'.transactionManager.SnapshotOk (db.sessions s).transactionId snap)
    (kept : ∀ e ∈ db.tables, TableKept db.transactionManager db'.transactionManager e.2 (f e.2)) :
    Tracks db' v := by
  have before : ∀ s, (db'.sessions s).inTransaction = true →
      (db.sessions s).inTransaction = true := fun s inTx => sess s inTx ▸ inTx
  refine ⟨mgr, ⟨?_, ?_⟩, ?_, ?_, ?_, ?_⟩
  · intro e mem
    rw [tables] at mem
    obtain ⟨old, inTables, rfl⟩ := List.mem_map.mp mem
    exact (kept old inTables).wf
  · rw [tables, Misc.keys_mapValues]
    exact tracks.tables.distinct
  · intro e mem
    rw [tables] at mem
    obtain ⟨old, inTables, rfl⟩ := List.mem_map.mp mem
    exact (kept old inTables).stamps
  · intro s inTx
    obtain ⟨snap, snapshot, snapOk⟩ := tracks.snapshots s (before s inTx)
    rw [sess s inTx]
    exact ⟨snap, snapshot, snapshots s snap inTx snapOk⟩
  · intro s s' inTx inTx' equal
    rw [sess s inTx, sess s' inTx'] at equal
    exact tracks.distinct s s' (before s inTx) (before s' inTx') equal
  · intro s inTx name u hit
    rw [tables, Misc.lookup_mapValues] at hit
    obtain ⟨t, inTables, rfl⟩ := Option.map_eq_some_iff.mp hit
    obtain ⟨snap, snapshot, snapOk⟩ := tracks.snapshots s (before s inTx)
    rw [sess s inTx, ← tracks.views s (before s inTx) name t inTables,
      readerOf_inTx (before s inTx) snapshot]
    exact (kept _ (Misc.mem_of_lookup inTables)).seen _ _ snapOk (snapshots s snap inTx snapOk)

theorem Tracks.sameStore (eq : SameStore db db') : Tracks db' v := by
  refine tracks.ofPass (f := id) ?_ ?_ ?_ ?_ ?_
  · rw [eq.tables]
    exact (List.map_id _).symm
  · rw [eq.transactionManager]
    exact tracks.manager
  · intro s inTx
    rw [eq.inTransaction] at inTx
    exact eq.sessions s inTx
  · intro s snap _ snapOk
    rw [eq.transactionManager]
    exact snapOk
  · intro e mem
    rw [eq.transactionManager]
    exact ⟨tracks.tables.wf e mem, tracks.stamps e mem, fun _ _ _ _ => rfl⟩

theorem Tracks.flush : Tracks db.flush v := by
  refine tracks.ofPass rfl tracks.manager (fun _ _ => rfl) (fun _ _ _ snapOk => snapOk) ?_
  intro e mem
  exact ⟨(tracks.tables.wf e mem).clearDirty, tracks.stamps e mem, fun _ _ _ _ => rfl⟩

theorem Tracks.vacuumAll
    (deleters : ∀ e ∈ db.tables, Table.DeletersSeen db.transactionManager e.2) :
    Tracks db.vacuumAllTables.1 v := by
  rw [vacuumAll_ok tracks.tables]
  refine tracks.ofPass (f := fun t => (t.vacuumVersions db.transactionManager).1) rfl tracks.manager (fun _ _ => rfl) (fun _ _ _ snapOk => snapOk) ?_
  intro e mem
  exact tableKept_vacuum tracks.manager (tracks.tables.wf e mem) (tracks.stamps e mem)
    (deleters e mem)

theorem Tracks.vacuum (hit : db.tables.lookup name = some t)
    (deleters : Table.DeletersSeen db.transactionManager t) :
    Tracks (db.setTable name (t.vacuumVersions db.transactionManager).1) v := by
  have mem := Misc.mem_of_lookup hit
  have kept := tableKept_vacuum tracks.manager (tracks.tables.wf _ mem) (tracks.stamps _ mem)
    deleters
  refine tracks.setTable hit kept.wf kept.stamps ?_ (fun _ _ _ => rfl)
  intro s inTx
  obtain ⟨snap, snapshot, snapOk⟩ := tracks.snapshots s inTx
  rw [← tracks.views s inTx name t hit, readerOf_inTx inTx snapshot]
  exact kept.seen _ _ snapOk snapOk

section

variable (inTx : (db.sessions s).inTransaction = true)
include inTx

theorem Tracks.ended (isOver : status ≠ .inProgress) {f : Table → Table}
    (tables : db'.tables = db.tables.map (fun e => (e.1, f e.2)))
    (mgr : db'.transactionManager =
      db.transactionManager.endTransaction (db.sessions s).transactionId status)
    (sess : db'.sessions = update db.sessions s {})
    (kept : ∀ e ∈ db.tables, TableKept db.transactionManager
      (db.transactionManager.endTransaction (db.sessions s).transactionId status) e.2 (f e.2)) :
    Tracks db' v := by
  obtain ⟨snap, -, snapOk⟩ := tracks.snapshots s inTx
  have ne : ∀ s', (db'.sessions s').inTransaction = true → s' ≠ s := by
    rintro s' inTx' rfl
    simp [sess] at inTx'
  have eq : ∀ s', (db'.sessions s').inTransaction = true → db'.sessions s' = db.sessions s' := by
    intro s' inTx'
    rw [sess, update_of_ne (ne s' inTx')]
  refine tracks.ofPass tables ?_ eq ?_ ?_
  · rw [mgr]
    exact consistent_end tracks.manager snapOk.active isOver
  · intro s' snap' inTx' before
    rw [mgr]
    refine before.end_other (fun equal => ?_) isOver
    exact ne s' inTx' (tracks.distinct s' s (eq s' inTx' ▸ inTx') inTx equal)
  · rw [mgr]
    exact kept

theorem Tracks.commit
    (deleters : ∀ e ∈ db.tables, Table.DeletersSeen
      (db.transactionManager.commitTransaction (db.sessions s).transactionId) e.2) :
    Tracks ((db.committing (db.sessions s).transactionId).flush.endSession s) v := by
  obtain ⟨snap, -, snapOk⟩ := tracks.snapshots s inTx
  refine tracks.ended inTx (show TransactionStatus.committed ≠ .inProgress by decide)
    (f := fun t => (committedTable
      (db.transactionManager.commitTransaction (db.sessions s).transactionId)
      (db.sessions s).transactionId t).clearDirty) ?_ ?_ ?_ ?_
  · simp [Database.flush, committing]
  · simp [Database.flush, committing, commitTransaction]
  · simp [Database.flush, committing]
  · intro e mem
    exact (tableKept_committedTable tracks.manager snapOk.active (tracks.tables.wf e mem)
      (tracks.stamps e mem) (deleters e mem)).clearDirty

theorem Tracks.rollback
    (deleters : ∀ e ∈ db.tables, Table.DeletersSeen
      (db.transactionManager.abortTransaction (db.sessions s).transactionId) e.2) :
    Tracks ((db.aborting (db.sessions s).transactionId).endSession s) v := by
  obtain ⟨snap, -, snapOk⟩ := tracks.snapshots s inTx
  have after : (db.transactionManager.abortTransaction (db.sessions s).transactionId).Consistent :=
    consistent_end tracks.manager snapOk.active (by decide)
  refine tracks.ended inTx (show TransactionStatus.aborted ≠ .inProgress by decide)
    (f := fun t => (t.vacuumVersions
      (db.transactionManager.abortTransaction (db.sessions s).transactionId)).1) ?_ ?_ ?_ ?_
  · simp [aborting]
  · simp [aborting, abortTransaction]
  · simp [aborting]
  · intro e mem
    have fst : TableKept db.transactionManager
        (db.transactionManager.abortTransaction (db.sessions s).transactionId) e.2 e.2 :=
      tableKept_end tracks.manager snapOk.active (tracks.tables.wf e mem) (tracks.stamps e mem)
    exact fst.trans (tableKept_vacuum after fst.wf fst.stamps (deleters e mem))

end

theorem Tracks.begin (outside : (db.sessions s).inTransaction = false) :
    Tracks (db.executeBegin s).1 (update v s db.committedRows) := by
  have ok := tracks.manager
  let session : Transaction := ⟨true, db.transactionManager.nextXid,
    some db.transactionManager.beginTransaction.1.captureSnapshot⟩
  have begins : (db.executeBegin s).1 =
      { db.setSession s session with transactionManager := db.transactionManager.begun } := by
    simp only [executeBegin, outside, Bool.false_eq_true, if_false]
    rfl
  rw [begins]
  have self : update db.sessions s session s = session := Function.update_self _ _ _
  have other : ∀ s', s' ≠ s → update db.sessions s session s' = db.sessions s' :=
    fun s' ne => update_of_ne ne _ _
  -- The new id is above every id handed out before.
  have fresh : ∀ s', (db.sessions s').inTransaction = true →
      (db.sessions s').transactionId ≠ db.transactionManager.nextXid := by
    intro s' inTx
    obtain ⟨snap, -, snapOk⟩ := tracks.snapshots s' inTx
    exact (ok.active_lt snapOk.active).ne
  refine ⟨consistent_begun ok, ⟨tracks.tables.wf, tracks.tables.distinct⟩, ?_, ?_, ?_, ?_⟩
  · exact fun e mem row inRows =>
      stampsOk_begun ok (tracks.stamps e mem row inRows)
  · intro s' inTx
    simp only [setSession] at inTx ⊢
    by_cases eq : s' = s
    · subst eq
      rw [self]
      exact ⟨_, rfl, TransactionManager.SnapshotOk.begun_self ok⟩
    · rw [other s' eq] at inTx ⊢
      obtain ⟨snap, snapshot, snapOk⟩ := tracks.snapshots s' inTx
      exact ⟨snap, snapshot, snapOk.begun_other ok⟩
  · intro s' s'' inTx inTx' equal
    simp only [setSession] at inTx inTx' equal
    by_cases eq : s' = s
    · by_cases same' : s'' = s
      · exact eq.trans same'.symm
      · subst eq
        rw [self, other s'' same'] at equal
        rw [other s'' same'] at inTx'
        exact absurd equal.symm (fresh s'' inTx')
    · by_cases same' : s'' = s
      · subst same'
        rw [self, other s' eq] at equal
        rw [other s' eq] at inTx
        exact absurd equal (fresh s' inTx)
      · rw [other s' eq] at inTx equal
        rw [other s'' same'] at inTx' equal
        exact tracks.distinct s' s'' inTx inTx' equal
  · intro s' inTx name t hit
    replace hit : db.tables.lookup name = some t := hit
    simp only [setSession] at inTx ⊢
    by_cases eq : s' = s
    · subst eq
      rw [self, Function.update_self]
      rw [committedRows, @storedIn_of_lookup db t name hit]
      exact seen_begun ok (tracks.stamps _ (Misc.mem_of_lookup hit))
    · rw [other s' eq] at inTx ⊢
      rw [update_of_ne eq]
      obtain ⟨snap, snapshot, snapOk⟩ := tracks.snapshots s' inTx
      rw [← tracks.views s' inTx name t hit, readerOf_inTx inTx snapshot]
      exact seen_of_settled (ok.active_pos snapOk.active) (settled_begun ok) _

end

/-! ## Writes -/

end Database

namespace Op

/-- The operation writes, stamps or removes row versions. -/
def writesRows : Op → Bool
  | .insert _ _ | .update _ _ _ | .delete _ _ _ | .updateInPlace _ _ _ | .deleteInPlace _ _ => true
  | _ => false

/-- The tables the operation vacuums, each with the transactions as the vacuum finds them. -/
def vacuums (s : Nat) (db : Database) : Op → List (TransactionManager × Table)
  | .commit =>
    if (db.sessions s).inTransaction then
      db.tables.map (fun e =>
        (db.transactionManager.commitTransaction (db.sessions s).transactionId, e.2))
    else []
  | .rollback =>
    if (db.sessions s).inTransaction then
      db.tables.map (fun e =>
        (db.transactionManager.abortTransaction (db.sessions s).transactionId, e.2))
    else []
  | .vacuum none => db.tables.map (fun e => (db.transactionManager, e.2))
  | .vacuum (some name) =>
    ((db.tables.lookup name).map (fun t => (db.transactionManager, t))).toList
  | _ => []

/-- The operation of session `s` leaves the other transactions what they read. -/
structure Undisturbing (s : Nat) (db : Database) (op : Op) : Prop where
  /-- The row it writes fits a page. -/
  small : op.Small
  /-- A session in a transaction does not write in place. -/
  versioned : op.writesInPlace = true → (db.sessions s).inTransaction = false
  /-- A session outside transactions writes only when there are none. -/
  alone : op.writesRows = true → (db.sessions s).inTransaction = false →
    db.transactionManager.activeXids = ∅
  /-- A transaction stamps a version that nobody has stamped, and that it sees. -/
  latest : (db.sessions s).inTransaction = true →
    (db.rowAt op).all (fun row => row.xmax == 0 && db.transactionManager.isVisible row.xmin row.xmax
      (db.sessions s).transactionId (db.sessions s).snapshot) = true
  /-- A vacuum drops no version whose deletion a snapshot has not seen. -/
  vacuums : ∀ p ∈ op.vacuums s db, Table.DeletersSeen p.1 p.2

instance (tm : TransactionManager) (t : Table) : Decidable (Table.DeletersSeen tm t) :=
  decidable_of_iff
    (∀ row ∈ t.storedRows,
      (tm.isAborted row.xmin = false ∧ row.xmax ≠ 0 ∧ tm.isCommitted row.xmax = true ∧
        row.xmax < tm.getVacuumHorizon) →
      ∀ p ∈ tm.activeSnapshots, p.1 ∈ tm.activeXids →
        ¬ (row.xmin = p.1 ∨ ((row.xmin = 0 ∨ (p.2.unseen row.xmin = false ∧
          tm.isCommitted row.xmin = true)) ∧ row.xmax ∈ p.2.activeXids)))
    ⟨fun h row member collected reader snap registered =>
        h row member collected (reader, snap) registered,
      fun h row member collected p registered => h row member collected p.1 p.2 registered⟩

instance (s : Nat) (db : Database) (op : Op) : Decidable (op.Undisturbing s db) :=
  decidable_of_iff
    ((op.written.all (fun values => Table.fits ⟨values, 0, 0⟩) = true) ∧
      (op.writesInPlace = true → (db.sessions s).inTransaction = false) ∧
      (op.writesRows = true → (db.sessions s).inTransaction = false →
        db.transactionManager.activeXids = ∅) ∧
      ((db.sessions s).inTransaction = true →
        (db.rowAt op).all (fun row => row.xmax == 0 && db.transactionManager.isVisible row.xmin
          row.xmax (db.sessions s).transactionId (db.sessions s).snapshot) = true) ∧
      ∀ p ∈ op.vacuums s db, Table.DeletersSeen p.1 p.2)
    ⟨fun ⟨small, versioned, alone, latest, vacuums⟩ => ⟨small, versioned, alone, latest, vacuums⟩,
      fun h => ⟨h.small, h.versioned, h.alone, h.latest, h.vacuums⟩⟩

end Op

/-- The call is in the handler of `DeadlockException`. -/
def Phase.isDeadlocked : Phase → Bool
  | .deadlocked _ => true
  | _ => false

namespace Database

variable {db db' : Database} {s : Nat} {v v' : View} {t u : Table} {name : String} {op : Op}

theorem stamps_of_outside (ok : db.transactionManager.Consistent)
    (reader : db.reader = (0, none)) (unversioned : db.writesVersioned = false) {rows : List Row}
    (stamps : ∀ row ∈ rows, db.transactionManager.StampsOk row)
    (isIn : ∀ i, op.position = some i → i < rows.length) :
    ∀ row ∈ op.rowsAfter db rows, db.transactionManager.StampsOk row := by
  have fresh : ∀ vals, db.transactionManager.StampsOk ⟨vals, 0, 0⟩ :=
    fun vals => ⟨ok.next_pos, ok.next_pos, fun ne => absurd rfl ne⟩
  have changed : ∀ (f : Row → Row) (i : Nat), op.position = some i →
      (∀ row, db.transactionManager.StampsOk row → db.transactionManager.StampsOk (f row)) →
      ∀ row ∈ rows.modify i f, db.transactionManager.StampsOk row := by
    intro f i position keeps row mem
    have stored := List.getElem?_eq_getElem (isIn i position)
    rw [modify_of_stored stored] at mem
    rcases List.mem_or_eq_of_mem_set mem with mem | rfl
    · exact stamps row mem
    · exact keeps _ (stamps _ (List.getElem_mem _))
  have erased : ∀ i, ∀ row ∈ rows.eraseIdx i, db.transactionManager.StampsOk row :=
    fun i row mem => stamps row (List.mem_of_mem_eraseIdx mem)
  have revalued : ∀ vals row, db.transactionManager.StampsOk row →
      db.transactionManager.StampsOk ⟨vals, row.xmin, row.xmax⟩ :=
    fun vals row rowOk => { rowOk with }
  cases op with
  | insert _ vals =>
    intro row mem
    simp only [Op.rowsAfter, reader] at mem
    rcases List.mem_append.mp mem with mem | mem
    · exact stamps row mem
    · rw [List.mem_singleton.mp mem]
      exact fresh vals
  | update _ i vals =>
    simp only [Op.rowsAfter, unversioned, Bool.false_eq_true, if_false]
    exact changed _ i rfl (revalued vals)
  | delete _ i inTx =>
    cases inTx with
    | false => exact erased i
    | true =>
      simp only [Op.rowsAfter, if_true, reader]
      exact changed _ i rfl (fun row rowOk =>
        ⟨rowOk.xmin_lt, ok.next_pos, fun ne => absurd rfl ne⟩)
  | updateInPlace _ i vals => exact changed _ i rfl (revalued vals)
  | deleteInPlace _ i => exact erased i
  | _ => exact stamps

theorem Tracks.ownWrite (tracks : Tracks db v) (hit : db.tables.lookup name = some t)
    (inTx : (db.sessions s).inTransaction = true)
    (snapshot : (db.sessions s).snapshot = some snap) (wf : u.WellFormed)
    {rows : Multiset (List Value)}
    (stamps : ∀ row ∈ u.storedRows, db.transactionManager.StampsOk row)
    (own : db.transactionManager.seen ((db.sessions s).transactionId, some snap) u.storedRows = rows)
    (foreign : ∀ xid snap', db.transactionManager.SnapshotOk xid snap' →
      (db.sessions s).transactionId ≠ xid →
      db.transactionManager.seen (xid, some snap') u.storedRows =
        db.transactionManager.seen (xid, some snap') t.storedRows) :
    Tracks (db.setTable name u) (v.set s name rows) := by
  refine tracks.setTable hit wf stamps ?_ (fun s' other ne => View.set_other_table v rows ne)
  intro s' inTx'
  by_cases eq : s' = s
  · subst eq
    rw [View.set_self, readerOf_inTx inTx snapshot]
    exact own
  · obtain ⟨snap', snapshot', snapOk'⟩ := tracks.snapshots s' inTx'
    rw [View.set_other_session v name name rows eq, ← tracks.views s' inTx' name t hit,
      readerOf_inTx inTx' snapshot']
    exact foreign _ _ snapOk' (fun equal => eq (tracks.distinct s s' inTx inTx' equal).symm)

theorem Tracks.wroteVersioned (tracks : Tracks db v) (active : db.activeSession = some s)
    (inTx : (db.sessions s).inTransaction = true) (calm : op.Undisturbing s db)
    (tgt : op.target db = some name) (hit : db.tables.lookup name = some t)
    (wrote : Wrote db op t u) : Tracks (db.setTable name u) (v.write s db op) := by
  obtain ⟨snap, snapshot, snapOk⟩ := tracks.snapshots s inTx
  have ok := tracks.manager
  have stamps := tracks.stamps _ (Misc.mem_of_lookup hit)
  have reader : db.reader = ((db.sessions s).transactionId, some snap) := by
    simp only [Database.reader, active]
    exact readerOf_inTx inTx snapshot
  have vers : db.writesVersioned = true := by simp only [writesVersioned, active, inTx]
  have seen : db.transactionManager.seen ((db.sessions s).transactionId, some snap) t.storedRows =
      v s name := by
    rw [← tracks.views s inTx name t hit, readerOf_inTx inTx snapshot]
  have rows := wrote.rows
  have inPlace : op.writesInPlace ≠ true := by
    intro h
    have := calm.versioned h
    simp [inTx] at this
  -- The version that is stamped is the latest, and the transaction sees it.
  have latest : ∀ i, op.position = some i → ∃ old, t.storedRows[i]? = some old ∧
      db.rowAt op = some old ∧ old.xmax = 0 ∧
      db.transactionManager.isVisible old.xmin old.xmax (db.sessions s).transactionId (some snap) =
        true := by
    intro i position
    have inside := wrote.inside i position
    have stored := List.getElem?_eq_getElem inside
    have row : db.rowAt op = some t.storedRows[i] := by
      simp only [rowAt, tgt, position, Option.bind_eq_bind, Option.bind_some,
        storedIn_of_lookup hit, stored]
    have fresh := calm.latest inTx
    rw [row, snapshot] at fresh
    simp only [Option.all_some, Bool.and_eq_true, beq_iff_eq] at fresh
    exact ⟨_, stored, row, fresh.1, fresh.2⟩
  have quiet : v.write s db op = v → u.storedRows = t.storedRows →
      Tracks (db.setTable name u) (v.write s db op) := by
    intro eq sameRows
    rw [eq]
    refine tracks.setTable hit wrote.wf (sameRows ▸ stamps) ?_ (fun _ _ _ => rfl)
    intro s' inTx'
    rw [sameRows]
    exact tracks.views s' inTx' name t hit
  have appended {rows : List Row} (rowsOk : ∀ row ∈ rows, db.transactionManager.StampsOk row)
      (vals : List Value) :
      ∀ row ∈ rows ++ [⟨vals, (db.sessions s).transactionId, 0⟩],
        db.transactionManager.StampsOk row := by
    intro row mem
    rcases List.mem_append.mp mem with mem | mem
    · exact rowsOk row mem
    · rw [List.mem_singleton.mp mem]
      exact ⟨ok.active_lt snapOk.active, ok.next_pos, fun ne => absurd rfl ne⟩
  have stamped {i : Nat} {old : Row} (stored : t.storedRows[i]? = some old)
      (vis : db.transactionManager.isVisible old.xmin old.xmax (db.sessions s).transactionId
        (some snap) = true) :
      ∀ row ∈ t.storedRows.set i (old.setXmax (db.sessions s).transactionId),
        db.transactionManager.StampsOk row := by
    intro row mem
    rcases List.mem_or_eq_of_mem_set mem with mem | rfl
    · exact stamps row mem
    · exact stampsOk_delete ok snapOk (stamps old (List.mem_of_getElem? stored)) vis
  cases op with
  | insert tab vals =>
    obtain rfl : tab = name := Option.some.inj tgt
    simp only [Op.rowsAfter, reader] at rows
    refine tracks.ownWrite hit inTx snapshot wrote.wf (rows ▸ appended stamps vals) ?_ ?_
    · rw [rows, seen_append, seen_single,
        share_own ok snapOk, seen, add_comm, Multiset.singleton_add]
    · intro xid snap' snapOk' ne
      rw [rows, seen_append, seen_single, share_foreign ok snapOk' snapOk.active ne, add_zero]
  | update tab i vals =>
    obtain rfl : tab = name := Option.some.inj tgt
    obtain ⟨old, stored, row, undeleted, vis⟩ := latest i rfl
    simp only [Op.rowsAfter, vers, if_true, reader, modify_of_stored stored] at rows
    simp only [View.write, row]
    refine tracks.ownWrite hit inTx snapshot wrote.wf
      (rows ▸ appended (stamped stored vis) vals) ?_ ?_
    · rw [rows, seen_append, seen_single,
        share_own ok snapOk,
        seen_delete_own ok snapOk stored vis, seen, add_comm,
        Multiset.singleton_add]
      rfl
    · intro xid snap' snapOk' ne
      rw [rows, seen_append, seen_single, share_foreign ok snapOk' snapOk.active ne, add_zero,
        seen_delete_foreign ok snapOk' stored snapOk.active ne undeleted]
  | delete tab i flag =>
    obtain rfl : tab = name := Option.some.inj tgt
    obtain rfl : flag = true := by
      cases flag
      · exact absurd rfl inPlace
      · rfl
    obtain ⟨old, stored, row, undeleted, vis⟩ := latest i rfl
    simp only [Op.rowsAfter, if_true, reader, modify_of_stored stored] at rows
    simp only [View.write, row]
    refine tracks.ownWrite hit inTx snapshot wrote.wf (rows ▸ stamped stored vis) ?_ ?_
    · rw [rows, seen_delete_own ok snapOk stored vis, seen]
      rfl
    · intro xid snap' snapOk' ne
      rw [rows, seen_delete_foreign ok snapOk' stored snapOk.active ne undeleted]
  | updateInPlace _ _ _ | deleteInPlace _ _ => exact absurd rfl inPlace
  | _ => exact quiet rfl rows

theorem Tracks.wroteOutside (tracks : Tracks db v) (active : db.activeSession = some s)
    (outside : (db.sessions s).inTransaction = false) (calm : op.Undisturbing s db)
    (hit : db.tables.lookup name = some t) (wrote : Wrote db op t u) :
    Tracks (db.setTable name u) v := by
  have stamps := tracks.stamps _ (Misc.mem_of_lookup hit)
  have unversioned : db.writesVersioned = false := by simp only [writesVersioned, active, outside]
  refine tracks.setTable hit wrote.wf ?_ ?_ (fun _ _ _ => rfl)
  · rw [wrote.rows]
    exact stamps_of_outside tracks.manager (reader_of_unversioned unversioned) unversioned stamps
      wrote.inside
  · intro s' inTx'
    cases writes : op.writesRows with
    | true =>
      have inactive := calm.alone writes outside
      rw [tracks.outside_of_inactive inactive s'] at inTx'
      cases inTx'
    | false =>
      have eq : op.rowsAfter db t.storedRows = t.storedRows := by
        cases op <;> first | rfl | cases writes
      rw [wrote.rows, eq]
      exact tracks.views s' inTx' name t hit

theorem follow_of_ne_begin (ne : op ≠ .begin) :
    View.follow fns s v (db, op) =
      if (db.sessions s).inTransaction && db.succeeds fns s op then v.write s db op else v := by
  cases op <;> first | rfl | exact absurd rfl ne

theorem write_of_no_target (noTarget : op.target db = none) : v.write s db op = v := by
  cases op <;> first | rfl | cases noTarget

theorem Tracks.perform {resp : Response} (tracks : Tracks db v)
    (active : db.activeSession = some s) (calm : op.Undisturbing s db)
    (ran : db.perform fns s op = some (db', resp)) : Tracks db' (View.follow fns s v (db, op)) := by
  have effect := perform_effect tracks.tables tracks.id_ne_zero calm.small ran
  have succeeds : db.succeeds fns s op = resp.outcome.isOk := by
    simp only [Database.succeeds, ran]
  have stays : op ≠ .begin → op.target db = none → View.follow fns s v (db, op) = v := by
    intro ne noTarget
    rw [follow_of_ne_begin ne, write_of_no_target noTarget, ite_self]
  generalize resp.outcome = outcome at effect succeeds
  cases effect with
  | failed target =>
    have ne : op ≠ .begin := by
      rintro rfl
      cases target
    rw [follow_of_ne_begin ne, succeeds]
    simpa [Except.isOk, Except.toBool] using tracks
  | @wrote _ name t u target hit wrote =>
    have ne : op ≠ .begin := by
      rintro rfl
      cases target
    rw [follow_of_ne_begin ne, succeeds]
    cases inTx : (db.sessions s).inTransaction with
    | true => exact tracks.wroteVersioned active inTx calm target hit wrote
    | false => exact tracks.wroteOutside active inTx calm hit wrote
  | quiet noTarget notBegun eq =>
    have follows : View.follow fns s v (db, op) = v := by
      by_cases begins : op = .begin
      · subst begins
        simp [View.follow, notBegun rfl]
      · exact stays begins noTarget
    rw [follows]
    exact tracks.sameStore eq
  | flushed =>
    rw [stays nofun rfl]
    exact tracks.flush
  | begun outside =>
    have follows : View.follow fns s v (db, .begin) = update v s db.committedRows := by
      simp [View.follow, outside]
    rw [follows]
    exact tracks.begin outside
  | committed inTx =>
    rw [stays nofun rfl]
    refine tracks.commit inTx (fun e mem => calm.vacuums (_, e.2) ?_)
    simp only [Op.vacuums, inTx, if_true]
    exact List.mem_map_of_mem mem
  | rolledBack inTx =>
    rw [stays nofun rfl]
    refine tracks.rollback inTx (fun e mem => calm.vacuums (_, e.2) ?_)
    simp only [Op.vacuums, inTx, if_true]
    exact List.mem_map_of_mem mem
  | vacuumedAll =>
    rw [stays nofun rfl]
    exact tracks.vacuumAll (fun e mem =>
      calm.vacuums (_, e.2) (List.mem_map_of_mem mem))
  | vacuumed hit =>
    rw [stays nofun rfl]
    exact tracks.vacuum hit (calm.vacuums (_, _) (by simp [Op.vacuums, hit]))

end Database

/-! ## Runs -/

def Response.readRows (response : Response) (name : String) : Multiset (List Value) :=
  (response.visible.filterMap (fun i =>
    ((response.tables.lookup name).bind (·.directory[i]?)).join.map Row.values) :
      Multiset (List Value))

namespace View

/-- A read of a table by a session in a transaction does not fail and finds the rows of the
    session's view. -/
def Shows (fns : Functions) (s : Nat) (v : View) (access : Database × Op) : Prop :=
  (match access.2 with
    | .visible name =>
      !(access.1.sessions s).inTransaction || (access.1.tables.lookup name).isNone ||
        (access.1.perform fns s access.2).any (fun result =>
          result.2.outcome.isOk && result.2.readRows name == v s name)
    | _ => true) = true

instance (fns : Functions) (s : Nat) (v : View) (access : Database × Op) :
    Decidable (View.Shows fns s v access) := inferInstanceAs (Decidable (_ = true))

end View

/-- What the database shows a transaction is what its view holds. -/
theorem Database.Tracks.shows {db : Database} {s : Nat} {v : View} {op : Op}
    (tracks : db.Tracks v) (active : db.activeSession = some s) : View.Shows fns s v (db, op) := by
  cases op with
  | visible name =>
    unfold View.Shows
    simp only
    cases inTx : (db.sessions s).inTransaction with
    | false => rfl
    | true =>
      cases hit : db.tables.lookup name with
      | none => rfl
      | some t =>
        have wf := tracks.tables.lookup hit
        have reader : db.reader = Database.readerOf (db.sessions s) := by
          simp only [Database.reader, active]
        have visible : t.getVisibleRowIndices db.transactionManager db.reader.1 db.reader.2 =
            .ok (Table.positions (fun row => db.transactionManager.isVisible row.xmin row.xmax
              db.reader.1 db.reader.2) t.storedRows) := by
          unfold Table.getVisibleRowIndices
          rw [wf.getAllRows_eq]
          rfl
        have rows : ∀ i : Nat, (t.directory[i]?).join.map Row.values =
            t.storedRows[i]?.map Row.values := by
          intro i
          rw [wf.dir_eq, List.getElem?_map]
          cases t.storedRows[i]? <;> rfl
        simp only [Database.perform, hit, visible, Option.any_some]
        have seen := tracks.views s inTx name t hit
        rw [seen_eq_filter, ← Table.filterMap_pos, List.map_filterMap] at seen
        simp only [Response.readRows, Database.respond, hit, Option.bind_some, rows, reader, seen]
        simp [Except.isOk, Except.toBool]
  | _ => rfl

structure Viewed where
  engine : Engine
  view : View := fun _ _ => 0

namespace Viewed

def step (x : Viewed) (a : Action) : Viewed where
  engine := x.engine.step a
  view :=
    match a with
    | .resume s =>
      match x.engine.calls s with
      | some call =>
        (x.engine.performed s).foldl (View.follow call.env.functions s) x.view
      | none => x.view
    | _ => x.view

/-- Every read of the action by a session in a transaction shows the rows committed at its BEGIN
    as changed by its own writes. -/
def ReadsSnapshot (x : Viewed) : Action → Prop
  | .resume s =>
    match x.engine.calls s with
    | some call =>
      Meets (View.follow call.env.functions s) (View.Shows call.env.functions s) x.view
        (x.engine.performed s)
    | none => True
  | _ => True

instance (x : Viewed) : (a : Action) → Decidable (x.ReadsSnapshot a)
  | .resume s =>
    match inCall : x.engine.calls s with
    | some call =>
      decidable_of_iff
        (Meets (View.follow call.env.functions s) (View.Shows call.env.functions s) x.view
          (x.engine.performed s)) (by simp only [ReadsSnapshot, inCall])
    | none => .isTrue (by simp only [ReadsSnapshot, inCall])
  | .call _ _ _ => .isTrue trivial
  | .vacuumWorker => .isTrue trivial

end Viewed

namespace Engine

/-- The action leaves open transactions what they read. -/
def Undisturbing (e : Engine) : Action → Prop
  | .resume s =>
    (∀ access ∈ e.performed s, access.2.Undisturbing s access.1) ∧
    ((e.calls s).any (·.phase.isDeadlocked) = true → Op.Undisturbing s e.db .rollback)
  | .vacuumWorker => Op.Undisturbing 0 e.db (.vacuum none)
  | .call _ _ _ => True

instance (e : Engine) : (a : Action) → Decidable (e.Undisturbing a)
  | .resume _ => inferInstanceAs (Decidable (_ ∧ (_ → _)))
  | .vacuumWorker => inferInstanceAs (Decidable (Op.Undisturbing 0 e.db _))
  | .call _ _ _ => .isTrue trivial

variable {e : Engine} {s : Nat} {call : Call} {v : View}

theorem keptOutside_tracks (inCall : e.calls s = some call) (calm : e.Undisturbing (.resume s)) :
    KeptOutside Database.Tracks e s call where
  clear := fun db v tracks => tracks.sameStore ⟨rfl, rfl, rfl, fun _ => rfl, fun _ _ => rfl⟩
  release := fun db v tracks => tracks.sameStore Database.sameStore_releaseLocks
  flush := fun res v _ tracks => tracks.flush
  rollback := by
    intro exn v phase tracks
    have deadlocked : (e.calls s).any (·.phase.isDeadlocked) = true := by
      simp [inCall, phase, Phase.isDeadlocked]
    have vacuums := (calm.2 deadlocked).vacuums
    cases inTx : (e.db.sessions s).inTransaction with
    | false =>
      have stays : (e.db.executeRollback s).1 = e.db := by
        simp [Database.executeRollback, inTx]
      rw [stays]
      exact tracks
    | true =>
      rw [Database.executeRollback_ok tracks.tables inTx]
      refine tracks.rollback inTx (fun entry mem => vacuums (_, entry.2) ?_)
      simp only [Op.vacuums, inTx, if_true]
      exact List.mem_map_of_mem mem

theorem performed_tracks (owns : e.OwnsActive) (calm : e.Undisturbing (.resume s)) :
    ∀ acc ∈ e.performed s, ∀ db' resp v,
      acc.1.perform fns s acc.2 = some (db', resp) →
      acc.1.Tracks v → db'.Tracks (View.follow fns s v acc) :=
  fun acc mem _ _ _ ran tracks =>
    tracks.perform (owns.performed mem) (calm.1 acc mem) ran

end Engine

/-- A database as it is opened: nothing is stamped, and no transaction has begun. -/
structure Database.Fresh (db : Database) : Prop where
  tables : db.TablesOk
  unstamped : ∀ e ∈ db.tables, ∀ row ∈ e.2.storedRows, row.xmin = 0 ∧ row.xmax = 0
  manager : db.transactionManager = {}
  sessions : ∀ s, (db.sessions s).inTransaction = false

theorem Database.Fresh.tracks {db : Database} (fresh : db.Fresh) (v : View) : db.Tracks v := by
  have outside : ∀ s, ¬ (db.sessions s).inTransaction = true := by simp [fresh.sessions]
  refine ⟨?_, fresh.tables, ?_, fun s inTx => absurd inTx (outside s),
    fun s _ inTx => absurd inTx (outside s), fun s inTx => absurd inTx (outside s)⟩
  · rw [fresh.manager]
    exact consistent_init
  · intro e mem row inRows
    obtain ⟨xmin, xmax⟩ := fresh.unstamped e mem row inRows
    rw [fresh.manager]
    exact ⟨by rw [xmin]; decide, by rw [xmax]; decide, fun ne => absurd xmax ne⟩

namespace Viewed

/-- The statements find their session, and the transactions what they should read. -/
def Sound (x : Viewed) : Prop := x.engine.OwnsActive ∧ x.engine.db.Tracks x.view

variable {x : Viewed} {a : Action}

theorem tracks_step (sound : x.Sound) (calm : x.engine.Undisturbing a) :
    (x.step a).engine.db.Tracks (x.step a).view := by
  obtain ⟨owns, tracks⟩ := sound
  cases a with
  | call env s stmt =>
    simp only [step, Engine.step]
    split
    · exact tracks
    · exact tracks.sameStore ⟨rfl, rfl, rfl, fun _ => rfl, fun _ _ => rfl⟩
  | resume s =>
    simp only [step, Engine.step]
    cases inCall : x.engine.calls s with
    | none => exact tracks
    | some call =>
      exact Engine.resume_simulation inCall (Engine.performed_tracks owns calm)
        (Engine.keptOutside_tracks inCall calm) tracks
  | vacuumWorker =>
    simp only [step, Engine.step]
    split
    · exact tracks
    · exact tracks.vacuumAll (fun e mem =>
        calm.vacuums (_, e.2) (List.mem_map_of_mem mem))

theorem readsSnapshot_of_sound (sound : x.Sound) (calm : x.engine.Undisturbing a) :
    x.ReadsSnapshot a := by
  obtain ⟨owns, tracks⟩ := sound
  cases a with
  | resume s =>
    simp only [ReadsSnapshot]
    cases inCall : x.engine.calls s with
    | none => trivial
    | some call =>
      exact Engine.performed_meets inCall (Engine.performed_tracks owns calm)
        (fun acc mem v kept => kept.shows (owns.performed mem)) tracks
  | _ => trivial

def selectAccount : Statement := .select (.read "account" (fun _ => .result (.successResult "")))

theorem account_fresh : ({ tables := [("account", Engine.account)] } : Database).Fresh where
  tables :=
    { wf := by
        intro e mem
        obtain rfl := List.mem_singleton.mp mem
        refine ⟨?_, nofun, nofun, nofun, nofun⟩
        intro slot inDirectory
        exact ⟨⟨[.int 1, .int 10], 0, 0⟩, List.mem_singleton.mp inDirectory, rfl, by decide⟩
      distinct := by simp }
  unstamped := by
    intro e mem row inRows
    obtain rfl := List.mem_singleton.mp mem
    obtain rfl := List.mem_singleton.mp inRows
    exact ⟨rfl, rfl⟩
  manager := rfl
  sessions := fun _ => rfl

end Viewed

end NobugDb
