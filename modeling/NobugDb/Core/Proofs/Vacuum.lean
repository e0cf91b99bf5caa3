import NobugDb.Core.Proofs.Rows
import NobugDb.Core.Proofs.TransactionManagerRun
import NobugDb.Core.Proofs.Visibility

/-!
# What a vacuum takes from active transactions

`vacuum_versions` drops a version whose deleter has committed with an id below the horizon,
the lowest `xmax` of the registered snapshots. A deleter that was still in progress when such
a snapshot was taken has an id below its `xmax` too, and the snapshot goes on seeing the
version. These are exactly the versions that active transactions lose.
-/

namespace NobugDb.Table

open Misc (run)
open TransactionManager (ActiveOk isAborted isCommitted)
open TransactionManager (isAborted_not_committed isVisible_snap)

variable {tm : TransactionManager}

/-- The version is one that `vacuum_versions` drops for its deletion. -/
def deletionCollected (tm : TransactionManager) (row : Row) : Prop :=
  tm.isAborted row.xmin = false ∧ row.xmax ≠ 0 ∧ tm.isCommitted row.xmax = true ∧
    row.xmax < tm.getVacuumHorizon

/-- The snapshot still sees the version: the reader wrote it, or the snapshot knows its
    creator's commit and had the deleter among the transactions in progress. -/
def deletionUnseen (tm : TransactionManager) (reader : Nat) (snap : TransactionSnapshot)
    (row : Row) : Prop :=
  row.xmin = reader ∨
    ((row.xmin = 0 ∨ tm.Settled snap row.xmin) ∧ row.xmax ∈ snap.activeXids)

/-- No dropped version was deleted by a transaction some active snapshot saw in progress. -/
def DeletersSeen (tm : TransactionManager) (t : Table) : Prop :=
  ∀ row ∈ t.storedRows, deletionCollected tm row →
    ∀ reader snap, (reader, snap) ∈ tm.activeSnapshots → reader ∈ tm.activeXids →
      ¬ deletionUnseen tm reader snap row

/-- Vacuuming the table removes no version an active transaction sees, and each of them sees
    the same values before and after. -/
def VacuumKeepsVisible (tm : TransactionManager) (t : Table) : Prop :=
  ∀ reader snap, (reader, snap) ∈ tm.activeSnapshots → reader ∈ tm.activeXids →
    (∀ row ∈ t.storedRows, tm.isVisible row.xmin row.xmax reader (some snap) = true →
      vacuumRow tm tm.getVacuumHorizon row ≠ none) ∧
    ((t.vacuumVersions tm).1.getVisibleRows tm reader (some snap)).map (·.map Row.values) =
      (t.getVisibleRows tm reader (some snap)).map (·.map Row.values)

variable {row : Row} {reader : Nat} {snap : TransactionSnapshot}

theorem vacuumRow_eq_none {horizon : Nat} :
    vacuumRow tm horizon row = none ↔
      tm.isAborted row.xmin = true ∨
        (row.xmax ≠ 0 ∧ tm.isCommitted row.xmax = true ∧ row.xmax < horizon) := by
  unfold vacuumRow undoAbortedDeletion
  by_cases gone : tm.isAborted row.xmin = true
  · simp [gone]
  · by_cases undone : row.xmax ≠ 0 ∧ tm.isAborted row.xmax = true
    · have := isAborted_not_committed undone.2
      simp [gone, undone, this]
    · simp [gone, undone]

section

variable (ok : ActiveOk tm)
include ok

theorem visible_not_aborted (active : reader ∈ tm.activeXids)
    (vis : tm.isVisible row.xmin row.xmax reader (some snap) = true) :
    tm.isAborted row.xmin = false := by
  obtain ⟨pos, inProgress⟩ := ok.active reader active
  cases aborted : tm.isAborted row.xmin with
  | false => rfl
  | true =>
    exfalso
    have notCommitted := isAborted_not_committed aborted
    rcases (isVisible_snap pos).mp vis with ⟨own, -⟩ | ⟨-, seen, -⟩
    · rw [own] at aborted
      simp [isAborted, inProgress] at aborted
    · rcases seen with zero | settled
      · simp [zero, isAborted] at aborted
      · rw [settled.2] at notCommitted
        exact absurd notCommitted (by simp)

theorem undoDeletion_visible (active : reader ∈ tm.activeXids)
    (snap : TransactionSnapshot) (row : Row) :
    tm.isVisible (undoAbortedDeletion tm row).xmin (undoAbortedDeletion tm row).xmax reader
        (some snap) =
      tm.isVisible row.xmin row.xmax reader (some snap) := by
  obtain ⟨pos, inProgress⟩ := ok.active reader active
  unfold undoAbortedDeletion
  split
  case isFalse => rfl
  case isTrue undone =>
    have notCommitted := isAborted_not_committed undone.2
    have ne : row.xmax ≠ reader := by
      intro same
      have := undone.2
      simp [same, isAborted, inProgress] at this
    have unsettled : ¬ tm.Settled snap row.xmax := by
      intro settled
      rw [settled.2] at notCommitted
      exact absurd notCommitted (by simp)
    have zeroNe : (0 : Nat) ≠ reader := by omega
    rw [Bool.eq_iff_iff, isVisible_snap pos, isVisible_snap pos]
    simp [ne, unsettled, zeroNe]

/-- Among the versions dropped for their deletion, an active transaction sees those whose
    deletion is unseen. -/
theorem visible_of_collected
    (reg : (reader, snap) ∈ tm.activeSnapshots) (active : reader ∈ tm.activeXids)
    (coll : deletionCollected tm row) :
    tm.isVisible row.xmin row.xmax reader (some snap) = true ↔
      deletionUnseen tm reader snap row := by
  obtain ⟨pos, inProgress⟩ := ok.active reader active
  obtain ⟨-, nonzero, committed, below⟩ := coll
  have ne : row.xmax ≠ reader := by
    intro eq
    rw [eq] at committed
    simp [isCommitted, inProgress] at committed
    omega
  have early : row.xmax < snap.xmax :=
    below.trans_le (TransactionManager.getVacuumHorizon_le reg)
  have unsettled : ¬ tm.Settled snap row.xmax ↔ row.xmax ∈ snap.activeXids := by
    simp [TransactionManager.Settled, TransactionSnapshot.unseen, committed]
    omega
  rw [isVisible_snap pos, deletionUnseen]
  by_cases own : row.xmin = reader
  · simp [own, ne]
  · simp [own, nonzero, ne, unsettled]

/-- The values an active transaction sees after a vacuum: those of the visible versions kept. -/
theorem visible_values_after (active : reader ∈ tm.activeXids)
    (snap : TransactionSnapshot) (horizon : Nat) (rows : List Row) :
    ((rows.filterMap (vacuumRow tm horizon)).filter
        (fun row => tm.isVisible row.xmin row.xmax reader (some snap))).map Row.values =
      ((rows.filter (fun row => tm.isVisible row.xmin row.xmax reader (some snap))).filter
        (fun row => (vacuumRow tm horizon row).isSome)).map Row.values := by
  induction rows with
  | nil => rfl
  | cons row rows ih =>
    cases h : vacuumRow tm horizon row with
    | none =>
      rw [List.filterMap_cons_none h, ih]
      by_cases vis : tm.isVisible row.xmin row.xmax reader (some snap) = true
      · simp [vis, h]
      · simp [vis]
    | some kept =>
      have same := vacuumRow_eq_some h
      have values := undoDeletion_values tm row
      have visibleSame := undoDeletion_visible ok active snap row
      rw [List.filterMap_cons_some h]
      by_cases vis : tm.isVisible row.xmin row.xmax reader (some snap) = true
      · have keptVisible : tm.isVisible kept.xmin kept.xmax reader (some snap) = true := by
          rw [same, visibleSame, vis]
        simp only [List.filter_cons, keptVisible, vis, h, Option.isSome_some, if_true,
          List.map_cons, ih]
        rw [same, values]
      · have keptHidden : ¬ tm.isVisible kept.xmin kept.xmax reader (some snap) = true := by
          rw [same, visibleSame]
          exact vis
        simpa [List.filter_cons, keptHidden, vis] using ih

/-- Active transactions keep what they see when the vacuum drops no version whose deletion one of
    their snapshots has not seen. -/
theorem vacuumKeepsVisible_of_deletersSeen {t : Table}
    (seen : DeletersSeen tm t) : VacuumKeepsVisible tm t := by
  intro reader snap reg active
  unfold DeletersSeen at seen
  cases read : t.getAllRows with
  | error e =>
    have unchanged : (t.vacuumVersions tm).1 = t := by simp [vacuumVersions, read]
    simp [storedRows, read, unchanged]
  | ok rows =>
    simp only [storedRows, read] at seen ⊢
    have kept : ∀ row ∈ rows, tm.isVisible row.xmin row.xmax reader (some snap) = true →
        vacuumRow tm tm.getVacuumHorizon row ≠ none := by
      intro row mem visible dropped
      have created := visible_not_aborted ok active visible
      rcases vacuumRow_eq_none.mp dropped with aborted | deletion
      · rw [created] at aborted
        exact absurd aborted (by simp)
      · have coll : deletionCollected tm row := ⟨created, deletion⟩
        exact seen row mem coll reader snap reg active
          ((visible_of_collected ok reg active coll).mp visible)
    refine ⟨kept, ?_⟩
    have all : (rows.filter (fun row => tm.isVisible row.xmin row.xmax reader (some snap))).filter
        (fun row => (vacuumRow tm tm.getVacuumHorizon row).isSome) =
        rows.filter (fun row => tm.isVisible row.xmin row.xmax reader (some snap)) := by
      refine List.filter_eq_self.mpr ?_
      intro row mem
      obtain ⟨mem, visible⟩ := List.mem_filter.mp mem
      exact Option.isSome_iff_ne_none.mpr (kept row mem visible)
    have values := visible_values_after ok active snap tm.getVacuumHorizon rows
    rw [all] at values
    simp only [getVisibleRows, vacuumVersions_rows read tm, read]
    exact congrArg Except.ok values

end

/-- A vacuum keeps what the active transactions see exactly when no version it drops was
    deleted by a transaction that one of their snapshots saw in progress. -/
theorem vacuum_keeps_visible_iff (ops : List TransactionManager.Op) (t : Table) :
    VacuumKeepsVisible (run TransactionManager.step {} ops) t ↔
      DeletersSeen (run TransactionManager.step {} ops) t := by
  have ok := TransactionManager.activeOk_run ops
  generalize run TransactionManager.step {} ops = tm at ok ⊢
  refine ⟨?_, vacuumKeepsVisible_of_deletersSeen ok⟩
  intro keeps row member collected reader snap registered active unseen
  have visible := (visible_of_collected ok registered active collected).mpr unseen
  refine (keeps reader snap registered active).1 row member visible ?_
  exact vacuumRow_eq_none.mpr (.inr collected.2)

/-- Transaction 1 begins, then transaction 2; 1 deletes a row and commits. The horizon is 3,
    the `xmax` of 2's snapshot, so a vacuum drops the row, which 2 goes on seeing. -/
theorem vacuum_drops_visible_row :
    ¬ VacuumKeepsVisible
      (run TransactionManager.step {}
        [.begin, .register 1 ⟨2, {1}⟩, .begin, .register 2 ⟨3, {1, 2}⟩, .commit 1])
      { name := "t", directory := [some ⟨[.int 7], 0, 1⟩] } := by
  intro keeps
  obtain ⟨kept, -⟩ := keeps 2 ⟨3, {1, 2}⟩ (by decide) (by decide)
  exact kept ⟨[.int 7], 0, 1⟩ (by decide) (by decide) (by decide)

end NobugDb.Table
