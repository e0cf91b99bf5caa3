import NobugDb.Core.Proofs.Vacuum

/-!
# What a snapshot sees

A transaction that has begun sees a fixed set of other transactions as committed: what the
ones still running do later is not seen, and those that had ended stay as they are. So
beginning and ending other transactions changes nothing for it, and the rows it sees change
only by its own writes, unless row versions are written outside transactions or dropped.
-/

namespace NobugDb.TransactionManager

variable {tm : TransactionManager} {xid reader : Nat} {snap : TransactionSnapshot}

/-- The statuses fit the counters of the transaction manager. -/
structure Consistent (tm : TransactionManager) : Prop where
  next_pos : 0 < tm.nextXid
  active : ∀ x ∈ tm.activeXids, tm.statuses x = some .inProgress
  running : ∀ x, tm.statuses x = some .inProgress → x ∈ tm.activeXids
  known : ∀ x, tm.statuses x ≠ none → 0 < x ∧ x < tm.nextXid

theorem consistent_init : Consistent {} := ⟨by decide, by simp, by simp, by simp⟩

section

variable (ok : tm.Consistent)
include ok

theorem Consistent.activeOk : ActiveOk tm :=
  ⟨ok.next_pos, fun x mem =>
    ⟨(ok.known x (by rw [ok.active x mem]; simp)).1, ok.active x mem⟩⟩

section

variable (mem : xid ∈ tm.activeXids)
include mem

theorem Consistent.active_pos : 0 < xid :=
  (ok.activeOk.active xid mem).1

theorem Consistent.active_lt : xid < tm.nextXid :=
  (ok.known xid (by rw [ok.active xid mem]; simp)).2

theorem Consistent.active_not_committed : tm.isCommitted xid = false := by
  have pos := ok.active_pos mem
  have : xid ≠ 0 := by omega
  simp [isCommitted, ok.active xid mem, this]

end

theorem Consistent.committed_known (pos : xid ≠ 0)
    (committed : tm.isCommitted xid = true) : xid < tm.nextXid ∧ xid ∉ tm.activeXids := by
  have status : tm.statuses xid = some .committed := by simpa [isCommitted, pos] using committed
  refine ⟨(ok.known xid (by rw [status]; simp)).2, fun mem => ?_⟩
  rw [ok.active xid mem] at status
  cases status

end

/-- A running transaction's snapshot: registered, and of everything it has seen end, nothing
    is in progress. -/
structure SnapshotOk (tm : TransactionManager) (xid : Nat) (snap : TransactionSnapshot) : Prop where
  registered : (xid, snap) ∈ tm.activeSnapshots
  active : xid ∈ tm.activeXids
  before : snap.xmax ≤ tm.nextXid
  ended : ∀ x, snap.unseen x = false → tm.statuses x ≠ some .inProgress

/-! ## BEGIN -/

/-- BEGIN as `execute_begin` runs it on the transaction manager. -/
def begun (tm : TransactionManager) : TransactionManager :=
  tm.beginTransaction.1.registerSnapshot tm.nextXid tm.beginTransaction.1.captureSnapshot

theorem begun_statuses {x : Nat} (ne : x ≠ tm.nextXid) : tm.begun.statuses x = tm.statuses x :=
  Function.update_of_ne ne _ _

theorem begun_status_self : tm.begun.statuses tm.nextXid = some .inProgress :=
  Function.update_self _ _ _

theorem consistent_begun (ok : tm.Consistent) : tm.begun.Consistent where
  next_pos := Nat.succ_pos _
  active := by
    intro x mem
    rcases Finset.mem_insert.mp mem with rfl | mem
    · exact begun_status_self
    · rw [begun_statuses (ok.active_lt mem).ne]
      exact ok.active x mem
  running := by
    intro x inProgress
    by_cases fresh : x = tm.nextXid
    · exact Finset.mem_insert.mpr (.inl fresh)
    · rw [begun_statuses fresh] at inProgress
      exact Finset.mem_insert.mpr (.inr (ok.running x inProgress))
  known := by
    intro x isKnown
    show 0 < x ∧ x < tm.nextXid + 1
    by_cases fresh : x = tm.nextXid
    · have := ok.next_pos
      omega
    · rw [begun_statuses fresh] at isKnown
      have := ok.known x isKnown
      omega

theorem SnapshotOk.begun_other (ok : tm.Consistent) (snapOk : tm.SnapshotOk xid snap) :
    tm.begun.SnapshotOk xid snap where
  registered := by
    have ne : xid ≠ tm.nextXid := (ok.active_lt snapOk.active).ne
    refine List.mem_cons_of_mem _ (List.mem_filter.mpr ⟨snapOk.registered, ?_⟩)
    simpa using ne
  active := Finset.mem_insert_of_mem snapOk.active
  before := Nat.le_succ_of_le snapOk.before
  ended := by
    intro x seenEnd
    have ne : x ≠ tm.nextXid := by
      rintro rfl
      have := snapOk.before
      simp [TransactionSnapshot.unseen] at seenEnd
      omega
    rw [begun_statuses ne]
    exact snapOk.ended x seenEnd

theorem SnapshotOk.begun_self (ok : tm.Consistent) :
    tm.begun.SnapshotOk tm.nextXid tm.beginTransaction.1.captureSnapshot where
  registered := List.mem_cons_self
  active := Finset.mem_insert_self _ _
  before := le_rfl
  ended := by
    intro x seenEnd inProgress
    have mem : x ∈ tm.begun.activeXids := (consistent_begun ok).running x inProgress
    have : x ∈ tm.beginTransaction.1.captureSnapshot.activeXids := mem
    simp [TransactionSnapshot.unseen, this] at seenEnd

/-! ## COMMIT and ROLLBACK -/

variable {status : TransactionStatus}

theorem endTxn_statuses {x : Nat} (ne : x ≠ xid) :
    (tm.endTransaction xid status).statuses x = tm.statuses x :=
  Function.update_of_ne ne _ _

theorem endTxn_status_self : (tm.endTransaction xid status).statuses xid = some status :=
  Function.update_self _ _ _

theorem consistent_end (ok : tm.Consistent) (mem : xid ∈ tm.activeXids)
    (isOver : status ≠ .inProgress) : (tm.endTransaction xid status).Consistent where
  next_pos := ok.next_pos
  active := by
    intro x inActive
    obtain ⟨ne, inActive⟩ := Finset.mem_erase.mp inActive
    rw [endTxn_statuses ne]
    exact ok.active x inActive
  running := by
    intro x inProgress
    by_cases eq : x = xid
    · subst eq
      rw [endTxn_status_self, Option.some.injEq] at inProgress
      exact absurd inProgress isOver
    · rw [endTxn_statuses eq] at inProgress
      exact Finset.mem_erase.mpr ⟨eq, ok.running x inProgress⟩
  known := by
    intro x isKnown
    by_cases eq : x = xid
    · rw [eq]
      exact ⟨ok.active_pos mem, ok.active_lt mem⟩
    · rw [endTxn_statuses eq] at isKnown
      exact ok.known x isKnown

theorem SnapshotOk.end_other {ended : Nat} (snapOk : tm.SnapshotOk xid snap) (ne : xid ≠ ended)
    (isOver : status ≠ .inProgress) : (tm.endTransaction ended status).SnapshotOk xid snap where
  registered := List.mem_filter.mpr ⟨snapOk.registered, by simpa using ne⟩
  active := Finset.mem_erase.mpr ⟨ne, snapOk.active⟩
  before := snapOk.before
  ended := by
    intro x seenEnd
    by_cases eq : x = ended
    · subst eq
      rw [endTxn_status_self]
      simpa using isOver
    · rw [endTxn_statuses eq]
      exact snapOk.ended x seenEnd

/-! ## What a snapshot knows does not change -/

theorem isCommitted_begun (ok : tm.Consistent) (x : Nat) :
    tm.begun.isCommitted x = tm.isCommitted x := by
  by_cases fresh : x = tm.nextXid
  · have unknown : tm.statuses x = none := by
      by_contra isKnown
      have := (ok.known x isKnown).2
      omega
    have started : tm.begun.statuses x = some .inProgress := fresh ▸ begun_status_self
    simp [isCommitted, unknown, started]
  · simp [isCommitted, begun_statuses fresh]

theorem settled_begun (ok : tm.Consistent) (x : Nat) :
    tm.begun.Settled snap x ↔ tm.Settled snap x := by
  simp only [Settled, isCommitted_begun ok]

theorem settled_end (snapOk : tm.SnapshotOk xid snap) {ended : Nat}
    (running : tm.statuses ended = some .inProgress) (x : Nat) :
    (tm.endTransaction ended status).Settled snap x ↔ tm.Settled snap x := by
  by_cases eq : x = ended
  · subst eq
    have unseen : snap.unseen x = true := by
      cases seen : snap.unseen x with
      | true => rfl
      | false => exact absurd running (snapOk.ended x seen)
    simp [Settled, unseen]
  · simp [Settled, isCommitted, endTxn_statuses eq]

theorem isVisible_of_settled {tm' : TransactionManager} (pos : 0 < reader)
    (eq : ∀ x, tm'.Settled snap x ↔ tm.Settled snap x) (xmin xmax : Nat) :
    tm'.isVisible xmin xmax reader (some snap) = tm.isVisible xmin xmax reader (some snap) := by
  rw [Bool.eq_iff_iff, isVisible_snap pos, isVisible_snap pos, eq, eq]

end NobugDb.TransactionManager
