import NobugDb.Core.Proofs.Snapshots
import NobugDb.Core.Proofs.WellFormed

/-!
# The rows a reader sees

The values a reader sees in a table, as a multiset, and how the writes of transactions change
it: a transaction's own writes for itself only, everything else not at all.
-/

namespace NobugDb.TransactionManager

/-- Who reads: an id and, in a transaction, its snapshot. -/
abbrev Reader := Nat × Option TransactionSnapshot

/-- What the reader sees of a row version. -/
def share (tm : TransactionManager) (reader : Reader) (row : Row) : Multiset (List Value) :=
  if tm.isVisible row.xmin row.xmax reader.1 reader.2 then {row.values} else 0

def seen (tm : TransactionManager) (reader : Reader) (rows : List Row) : Multiset (List Value) :=
  (rows.map (tm.share reader)).sum

variable {tm : TransactionManager} {reader : Reader} {rows : List Row} {row : Row} {i : Nat}
  {tm' : TransactionManager}

theorem seen_eq_filter (tm : TransactionManager) (reader : Reader) (rows : List Row) :
    tm.seen reader rows =
      ((rows.filter (fun row => tm.isVisible row.xmin row.xmax reader.1 reader.2)).map Row.values :
        Multiset (List Value)) := by
  induction rows with
  | nil => rfl
  | cons row rows ih =>
    simp only [seen, List.map_cons, List.sum_cons, List.filter_cons, share] at ih ⊢
    split
    · rw [ih]
      rfl
    · rw [ih, zero_add]

theorem share_visible (vis : tm.isVisible row.xmin row.xmax reader.1 reader.2 = true) :
    tm.share reader row = {row.values} := by
  simp [share, vis]

theorem share_hidden (hidden : tm.isVisible row.xmin row.xmax reader.1 reader.2 = false) :
    tm.share reader row = 0 := by
  simp [share, hidden]

theorem seen_append (tm : TransactionManager) (reader : Reader) (rows more : List Row) :
    tm.seen reader (rows ++ more) = tm.seen reader rows + tm.seen reader more := by
  simp [seen]

@[simp] theorem seen_single (tm : TransactionManager) (reader : Reader) (row : Row) :
    tm.seen reader [row] = tm.share reader row := by
  simp [seen]

theorem seen_set {old : Row} (stored : rows[i]? = some old) (new : Row) :
    tm.seen reader (rows.set i new) + tm.share reader old =
      tm.seen reader rows + tm.share reader new := by
  obtain ⟨isIn, rfl⟩ := List.getElem?_eq_some_iff.mp stored
  have split : rows = rows.take i ++ rows[i] :: rows.drop (i + 1) := by simp
  have changed : rows.set i new = rows.take i ++ new :: rows.drop (i + 1) :=
    List.set_eq_take_append_cons_drop.trans (if_pos isIn)
  conv_rhs => rw [split]
  rw [changed]
  simp only [seen, List.map_append, List.map_cons, List.sum_append, List.sum_cons]
  abel

theorem seen_congr {reader' : Reader}
    (eq : ∀ row ∈ rows, tm'.share reader' row = tm.share reader row) :
    tm'.seen reader' rows = tm.seen reader rows :=
  congrArg List.sum (List.map_congr_left eq)

/-! ## Stamps -/

/-- The stamps of a stored version: handed out, and the deleter saw the creator's work. -/
structure StampsOk (tm : TransactionManager) (row : Row) : Prop where
  xmin_lt : row.xmin < tm.nextXid
  xmax_lt : row.xmax < tm.nextXid
  deleter : row.xmax ≠ 0 → row.xmin = 0 ∨ row.xmin = row.xmax ∨ tm.isCommitted row.xmin = true

section Writes

variable {xid : Nat} {snap : TransactionSnapshot} {other : Nat} {otherSnap : TransactionSnapshot}

variable (ok : tm.Consistent)
include ok

theorem share_own (snapOk : tm.SnapshotOk xid snap) (vals : List Value) :
    tm.share (xid, some snap) ⟨vals, xid, 0⟩ = {vals} := by
  have pos := ok.active_pos snapOk.active
  refine share_visible ((isVisible_snap pos).mpr (.inl ⟨rfl, ?_⟩))
  show 0 ≠ xid
  omega

theorem not_settled_active (active : xid ∈ tm.activeXids)
    (snap : TransactionSnapshot) : ¬ tm.Settled snap xid := by
  intro settled
  rw [Settled, ok.active_not_committed active] at settled
  exact absurd settled.2 (by simp)

variable (snapOk : tm.SnapshotOk xid snap)
include snapOk

theorem share_foreign (active : other ∈ tm.activeXids) (ne : other ≠ xid) (vals : List Value) :
    tm.share (xid, some snap) ⟨vals, other, 0⟩ = 0 := by
  have pos := ok.active_pos snapOk.active
  have otherPos := ok.active_pos active
  have unsettled := not_settled_active ok active snap
  refine share_hidden (Bool.eq_false_iff.mpr fun vis => ?_)
  rcases (isVisible_snap pos).mp vis with ⟨own, -⟩ | ⟨-, zero | settled, -⟩
  · exact ne own
  · have : other = 0 := zero
    omega
  · exact unsettled settled

theorem share_deleted (row : Row) : tm.share (xid, some snap) (row.setXmax xid) = 0 := by
  have pos := ok.active_pos snapOk.active
  refine share_hidden (Bool.eq_false_iff.mpr fun vis => ?_)
  rcases (isVisible_snap pos).mp vis with ⟨-, ne⟩ | ⟨-, -, zero | ⟨ne, -⟩⟩
  · exact ne rfl
  · have : xid = 0 := zero
    omega
  · exact ne rfl

theorem share_deleted_foreign
    (active : other ∈ tm.activeXids) (ne : other ≠ xid) (undeleted : row.xmax = 0) :
    tm.share (xid, some snap) (row.setXmax other) = tm.share (xid, some snap) row := by
  have pos := ok.active_pos snapOk.active
  have unsettled := not_settled_active ok active snap
  have eq : tm.isVisible row.xmin other xid (some snap) =
      tm.isVisible row.xmin row.xmax xid (some snap) := by
    have zeroNe : (0 : Nat) ≠ xid := by omega
    rw [Bool.eq_iff_iff, isVisible_snap pos, isVisible_snap pos, undeleted]
    simp [ne, unsettled, zeroNe]
  simp only [share, Row.setXmax_xmin, Row.setXmax_xmax, Row.setXmax_values, eq]

theorem seen_delete_own
    (stored : rows[i]? = some row) (vis : tm.isVisible row.xmin row.xmax xid (some snap) = true) :
    tm.seen (xid, some snap) (rows.set i (row.setXmax xid)) =
      (tm.seen (xid, some snap) rows).erase row.values := by
  have exchanged := @seen_set tm (xid, some snap) rows i row stored (row.setXmax xid)
  rw [share_deleted ok snapOk, share_visible vis, add_zero] at exchanged
  rw [← exchanged, add_comm, Multiset.singleton_add, Multiset.erase_cons_head]

theorem seen_delete_foreign
    (stored : rows[i]? = some row) (active : other ∈ tm.activeXids) (ne : other ≠ xid)
    (undeleted : row.xmax = 0) :
    tm.seen (xid, some snap) (rows.set i (row.setXmax other)) = tm.seen (xid, some snap) rows := by
  have exchanged := @seen_set tm (xid, some snap) rows i row stored (row.setXmax other)
  rw [share_deleted_foreign ok snapOk active ne undeleted] at exchanged
  exact add_right_cancel exchanged

theorem stampsOk_delete
    (stamps : tm.StampsOk row) (vis : tm.isVisible row.xmin row.xmax xid (some snap) = true) :
    tm.StampsOk (row.setXmax xid) where
  xmin_lt := stamps.xmin_lt
  xmax_lt := ok.active_lt snapOk.active
  deleter := by
    intro _
    rcases (isVisible_snap (ok.active_pos snapOk.active)).mp vis with
      ⟨own, -⟩ | ⟨-, zero | settled, -⟩
    · exact .inr (.inl own)
    · exact .inl zero
    · exact .inr (.inr settled.2)

end Writes

/-! ## Transactions beginning and ending -/

section Ends

variable {xid : Nat} {snap : TransactionSnapshot} {status : TransactionStatus}

theorem seen_of_settled (pos : 0 < xid)
    (eq : ∀ x, tm'.Settled snap x ↔ tm.Settled snap x) (rows : List Row) :
    tm'.seen (xid, some snap) rows = tm.seen (xid, some snap) rows :=
  seen_congr (fun row _ => by simp only [share, isVisible_of_settled pos eq])

section

variable (ok : tm.Consistent)
include ok

theorem settled_captured {x : Nat} (nonzero : x ≠ 0) :
    tm.begun.Settled tm.beginTransaction.1.captureSnapshot x ↔ tm.isCommitted x = true := by
  rw [settled_begun ok]
  refine ⟨fun h => h.2, fun committed => ⟨?_, committed⟩⟩
  obtain ⟨below, inactive⟩ := ok.committed_known nonzero committed
  have notActive : x ∉ tm.beginTransaction.1.captureSnapshot.activeXids := by
    intro mem
    rcases Finset.mem_insert.mp mem with rfl | mem
    · exact absurd below (lt_irrefl _)
    · exact inactive mem
  have early : ¬ tm.beginTransaction.1.captureSnapshot.xmax ≤ x := by
    show ¬ tm.nextXid + 1 ≤ x
    omega
  simp [TransactionSnapshot.unseen, notActive, early]

theorem isVisible_begun {xmin xmax : Nat} :
    tm.begun.isVisible xmin xmax tm.nextXid (some tm.beginTransaction.1.captureSnapshot) = true ↔
      (xmin = tm.nextXid ∧ xmax ≠ tm.nextXid) ∨
        (xmin ≠ tm.nextXid ∧ tm.isCommitted xmin = true ∧
          (xmax = 0 ∨ (xmax ≠ tm.nextXid ∧ tm.isCommitted xmax = false))) := by
  have creator : (xmin = 0 ∨ tm.begun.Settled tm.beginTransaction.1.captureSnapshot xmin) ↔
      tm.isCommitted xmin = true := by
    by_cases zero : xmin = 0
    · simp [zero, isCommitted]
    · simp [zero, settled_captured ok zero]
  have deleter : (xmax = 0 ∨ (xmax ≠ tm.nextXid ∧
      ¬ tm.begun.Settled tm.beginTransaction.1.captureSnapshot xmax)) ↔
      (xmax = 0 ∨ (xmax ≠ tm.nextXid ∧ tm.isCommitted xmax = false)) := by
    by_cases zero : xmax = 0
    · simp [zero]
    · simp [zero, settled_captured ok zero]
  rw [isVisible_snap ok.next_pos, creator, deleter]

theorem seen_begun (stamps : ∀ row ∈ rows, tm.StampsOk row) :
    tm.begun.seen (tm.nextXid, some tm.beginTransaction.1.captureSnapshot) rows =
      tm.seen (0, none) rows := by
  refine seen_congr (fun row mem => ?_)
  have xminNe : row.xmin ≠ tm.nextXid := (stamps row mem).xmin_lt.ne
  have xmaxNe : row.xmax ≠ tm.nextXid := (stamps row mem).xmax_lt.ne
  have vis : tm.begun.isVisible row.xmin row.xmax tm.nextXid
      (some tm.beginTransaction.1.captureSnapshot) =
      tm.isVisible row.xmin row.xmax 0 none := by
    rw [Bool.eq_iff_iff, isVisible_begun ok, isVisible_auto]
    simp [xminNe, xmaxNe]
  simp only [share, vis]

theorem stampsOk_begun (stamps : tm.StampsOk row) : tm.begun.StampsOk row where
  xmin_lt := Nat.lt_succ_of_lt stamps.xmin_lt
  xmax_lt := Nat.lt_succ_of_lt stamps.xmax_lt
  deleter := by
    intro nonzero
    rw [isCommitted_begun ok]
    exact stamps.deleter nonzero

end

theorem isCommitted_end {ended x : Nat}
    (running : tm.statuses ended = some .inProgress) (committed : tm.isCommitted x = true) :
    (tm.endTransaction ended status).isCommitted x = true := by
  by_cases eq : x = ended
  · subst eq
    by_cases zero : x = 0
    · simp [isCommitted, zero]
    · simp [isCommitted, zero, running] at committed
  · simpa [isCommitted, endTxn_statuses eq] using committed

theorem stampsOk_end {ended : Nat}
    (running : tm.statuses ended = some .inProgress) (stamps : tm.StampsOk row) :
    (tm.endTransaction ended status).StampsOk row :=
  ⟨stamps.xmin_lt, stamps.xmax_lt, fun nonzero =>
    (stamps.deleter nonzero).imp id (Or.imp id (isCommitted_end running))⟩

end Ends

/-! ## Vacuum and freezing -/

section Passes

open Table (vacuumRow freezeRows DeletersSeen)

variable {xid : Nat} {snap : TransactionSnapshot}

theorem seen_vacuum (ok : tm.Consistent) (snapOk : tm.SnapshotOk xid snap) {t : Table}
    (read : t.getAllRows = .ok rows) (deleters : DeletersSeen tm t) :
    tm.seen (xid, some snap) (rows.filterMap (vacuumRow tm tm.getVacuumHorizon)) =
      tm.seen (xid, some snap) rows := by
  have values := (Table.vacuumKeepsVisible_of_deletersSeen ok.activeOk deleters xid snap
    snapOk.registered snapOk.active).2
  simp only [Table.getVisibleRows, Table.vacuumVersions_rows read tm, read] at values
  rw [seen_eq_filter, seen_eq_filter]
  exact congrArg _ (Except.ok.inj values)

theorem stampsOk_vacuum {horizon : Nat} {kept : Row} (ok : tm.Consistent) (stamps : tm.StampsOk row)
    (keeps : vacuumRow tm horizon row = some kept) : tm.StampsOk kept := by
  rw [Table.vacuumRow_eq_some keeps]
  unfold Table.undoAbortedDeletion
  split
  · exact ⟨stamps.xmin_lt, ok.next_pos, fun ne => absurd rfl ne⟩
  · exact stamps

/-- The reader sees the same of a version when `frozen` is frozen: nothing of one it deleted,
    and the same of one it created as of one without a creator. -/
structure FreezeUnseen (tm : TransactionManager) (reader : Reader) (frozen : Nat) (row : Row) :
    Prop where
  deleted : row.xmax = frozen → tm.isVisible row.xmin row.xmax reader.1 reader.2 = false
  created : row.xmin = frozen → tm.isVisible 0 row.xmax reader.1 reader.2 =
    tm.isVisible row.xmin row.xmax reader.1 reader.2

variable {frozen : Nat}

/-- A committed transaction that every snapshot has seen end can be frozen. Of a reader's own
    versions nothing is said: nobody else may have deleted them. -/
theorem freezeUnseen_snap (ok : tm.Consistent) (snapOk : tm.SnapshotOk xid snap)
    (committed : tm.isCommitted frozen = true) (canFreeze : tm.canFreezeCommitted frozen = true)
    (own : row.xmin = xid → row.xmax ≠ frozen) : tm.FreezeUnseen (xid, some snap) frozen row := by
  obtain ⟨pos, all⟩ := Bool.and_eq_true_iff.mp canFreeze
  have pos : frozen ≠ 0 := by simpa using pos
  have readerPos := ok.active_pos snapOk.active
  have zeroNe : (0 : Nat) ≠ xid := by omega
  have ne : frozen ≠ xid := by
    rintro rfl
    exact (ok.committed_known pos committed).2 snapOk.active
  have settled : tm.Settled snap frozen := by
    refine ⟨?_, committed⟩
    simpa using List.all_eq_true.mp all _ snapOk.registered
  constructor
  · intro deleted
    refine Bool.eq_false_iff.mpr fun vis => ?_
    rcases (isVisible_snap readerPos).mp vis with ⟨isOwn, -⟩ | ⟨-, -, zero | ⟨-, unsettled⟩⟩
    · exact own isOwn deleted
    · omega
    · rw [deleted] at unsettled
      exact unsettled settled
  · intro created
    rw [Bool.eq_iff_iff, isVisible_snap readerPos, isVisible_snap readerPos, created]
    simp [ne, zeroNe, settled]

theorem visible_freezeRows (each : ∀ row ∈ rows, tm.FreezeUnseen reader frozen row) :
    ((freezeRows frozen rows).filter
        (fun row => tm.isVisible row.xmin row.xmax reader.1 reader.2)).map Row.values =
      (rows.filter (fun row => tm.isVisible row.xmin row.xmax reader.1 reader.2)).map Row.values := by
  have vals : (Row.values ∘ fun row => if row.xmin = frozen then row.setXmin 0 else row) =
      Row.values := by
    funext row
    exact apply_ite Row.values _ _ _ |>.trans (ite_self _)
  rw [freezeRows, List.filter_map, List.map_map, List.filter_filter, vals]
  refine congrArg _ (List.filter_congr fun row mem => ?_)
  obtain ⟨hidden, eq⟩ := each row mem
  by_cases deleted : row.xmax = frozen
  · rw [hidden deleted]
    simp [deleted]
  · by_cases created : row.xmin = frozen
    · simpa [deleted, created] using eq created
    · simp [deleted, created]

theorem seen_freeze (ok : tm.Consistent) (snapOk : tm.SnapshotOk xid snap)
    (pos : frozen ≠ 0) (committed : tm.isCommitted frozen = true)
    (canFreeze : tm.canFreezeCommitted frozen = true) (stamps : ∀ row ∈ rows, tm.StampsOk row) :
    tm.seen (xid, some snap) (freezeRows frozen rows) = tm.seen (xid, some snap) rows := by
  rw [seen_eq_filter, seen_eq_filter]
  refine congrArg _ (visible_freezeRows fun row mem => ?_)
  refine freezeUnseen_snap ok snapOk committed canFreeze (fun own deleted => ?_)
  -- Whoever deletes a version has seen its creator's commit, so it is not the reader's.
  have inactive := (ok.committed_known pos committed).2
  rcases (stamps row mem).deleter (by omega) with zero | eq | created
  · exact (ok.active_pos snapOk.active).ne' (own.symm.trans zero)
  · exact inactive (deleted ▸ eq ▸ own ▸ snapOk.active)
  · rw [own, ok.active_not_committed snapOk.active] at created
    cases created

theorem stampsOk_freeze (ok : tm.Consistent)
    (stamps : ∀ row ∈ rows, tm.StampsOk row) : ∀ row ∈ freezeRows frozen rows, tm.StampsOk row := by
  intro row mem
  obtain ⟨old, inRows, rfl⟩ := List.mem_map.mp mem
  have oldOk := stamps old (List.mem_filter.mp inRows).1
  split
  · exact ⟨ok.next_pos, oldOk.xmax_lt, fun _ => .inl rfl⟩
  · exact oldOk

end Passes

end NobugDb.TransactionManager
