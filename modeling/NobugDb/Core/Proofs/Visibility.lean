import NobugDb.Core.TransactionManager

/-!
# What a reader sees

`isVisible` in one formula: the reader sees the version's creator and does not see a deleter.
Two deletions do not count: by a transaction the reader's snapshot has not seen end, and,
on a version the reader wrote itself, by anyone else.
-/

namespace NobugDb.TransactionManager

variable {tm : TransactionManager} {reader xmin xmax : Nat}

/-- The transaction ended with a commit the snapshot knows of. -/
def Settled (tm : TransactionManager) (snap : TransactionSnapshot) (xid : Nat) : Prop :=
  snap.unseen xid = false ∧ tm.isCommitted xid = true

theorem isVisible_snap {snap : TransactionSnapshot} (readerPos : 0 < reader) :
    tm.isVisible xmin xmax reader (some snap) = true ↔
      (xmin = reader ∧ xmax ≠ reader) ∨
        (xmin ≠ reader ∧ (xmin = 0 ∨ tm.Settled snap xmin) ∧
          (xmax = 0 ∨ (xmax ≠ reader ∧ ¬ tm.Settled snap xmax))) := by
  have readerNe : reader ≠ 0 := by omega
  have zeroNe : (0 : Nat) ≠ reader := by omega
  unfold isVisible Settled
  by_cases minZero : xmin = 0
  · subst minZero
    by_cases maxZero : xmax = 0
    · simp [maxZero, zeroNe]
    · by_cases own : xmax = reader
      · simp [own, readerNe, zeroNe]
      · cases late : snap.unseen xmax <;> simp [maxZero, own, zeroNe, late]
  · by_cases self : xmin = reader
    · simp [self, readerNe]
    · simp only [minZero, self, if_false, false_and, false_or, ne_eq, not_false_eq_true, true_and]
      cases lateMin : snap.unseen xmin with
      | true => simp
      | false =>
        cases committedMin : tm.isCommitted xmin with
        | false => simp
        | true =>
          by_cases maxZero : xmax = 0
          · simp [maxZero]
          · by_cases own : xmax = reader
            · simp [own, readerNe]
            · cases lateMax : snap.unseen xmax <;> simp [maxZero, own]

theorem isVisible_auto :
    tm.isVisible xmin xmax 0 none = true ↔
      tm.isCommitted xmin = true ∧ (xmax = 0 ∨ tm.isCommitted xmax = false) := by
  unfold isVisible
  by_cases minZero : xmin = 0
  · by_cases maxZero : xmax = 0
    · simp [minZero, maxZero, isCommitted]
    · simp [minZero, maxZero, isCommitted]
  · by_cases maxZero : xmax = 0
    · simp [minZero, maxZero]
    · simp [minZero, maxZero]

theorem xmax_ne_of_isVisible {snap : Option TransactionSnapshot} (pos : reader ≠ 0)
    (vis : tm.isVisible xmin xmax reader snap = true) : xmax ≠ reader := by
  rintro rfl
  unfold isVisible at vis
  rw [if_neg pos, if_pos rfl] at vis
  split at vis
  · cases vis
  · split at vis
    · simp at vis
    · split at vis <;> simp at vis

theorem isVisible_own (snap : Option TransactionSnapshot) :
    tm.isVisible reader 0 reader snap = true := by
  unfold isVisible
  by_cases zero : reader = 0
  · simp [zero]
  · rw [if_neg zero, if_pos rfl]
    simpa using fun eq => zero eq.symm

theorem isAborted_not_committed {xid : Nat} (aborted : tm.isAborted xid = true) :
    tm.isCommitted xid = false := by
  simp only [isAborted, Bool.and_eq_true, bne_iff_ne, ne_eq, beq_iff_eq] at aborted
  simp [isCommitted, aborted.1, aborted.2]

end NobugDb.TransactionManager
