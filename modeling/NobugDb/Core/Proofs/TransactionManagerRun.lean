import NobugDb.Core.TransactionManager
import NobugDb.Misc.Run

/-!
# Reachable states of the transaction manager

The calls that change a `TransactionManager`, in any order and with any arguments, and what
every state they reach has in common: a transaction among the active ones is in progress.
-/

namespace NobugDb.TransactionManager

open Misc (run)

inductive Op where
  | begin
  | register (xid : Nat) (snapshot : TransactionSnapshot)
  | commit (xid : Nat)
  | abort (xid : Nat)

def step (tm : TransactionManager) : Op → TransactionManager
  | .begin => tm.beginTransaction.1
  | .register xid snapshot => tm.registerSnapshot xid snapshot
  | .commit xid => tm.commitTransaction xid
  | .abort xid => tm.abortTransaction xid

/-- Active transactions have positive ids and are in progress. -/
structure ActiveOk (tm : TransactionManager) : Prop where
  next_pos : 0 < tm.nextXid
  active : ∀ xid ∈ tm.activeXids, 0 < xid ∧ tm.statuses xid = some .inProgress

theorem activeOk_init : ActiveOk {} := ⟨by decide, by simp⟩

variable {tm : TransactionManager}

theorem activeOk_end (ok : ActiveOk tm) (xid : Nat) (status : TransactionStatus) :
    ActiveOk (tm.endTransaction xid status) := by
  refine ⟨ok.next_pos, ?_⟩
  intro x mem
  obtain ⟨ne, mem⟩ := Finset.mem_erase.mp mem
  obtain ⟨pos, inProgress⟩ := ok.active x mem
  refine ⟨pos, ?_⟩
  simpa [endTransaction, setStatus, Function.update_of_ne ne] using inProgress

theorem activeOk_step (ok : ActiveOk tm) (op : Op) : ActiveOk (tm.step op) := by
  cases op with
  | begin =>
    refine ⟨Nat.succ_pos _, ?_⟩
    intro x mem
    simp only [step, beginTransaction, Finset.mem_insert] at mem
    simp only [step, beginTransaction, setStatus]
    rcases mem with rfl | mem
    · exact ⟨ok.next_pos, by simp⟩
    · obtain ⟨pos, inProgress⟩ := ok.active x mem
      refine ⟨pos, ?_⟩
      by_cases fresh : x = tm.nextXid
      · simp [fresh]
      · rw [Function.update_of_ne fresh]
        exact inProgress
  | register xid snap => exact ⟨ok.next_pos, ok.active⟩
  | commit xid => exact activeOk_end ok xid .committed
  | abort xid => exact activeOk_end ok xid .aborted

theorem activeOk_run (ops : List Op) : ActiveOk (run step {} ops) := by
  suffices h : ∀ tm, ActiveOk tm → ActiveOk (run step tm ops) from h {} activeOk_init
  induction ops with
  | nil => exact fun _ ok => ok
  | cons op ops ih => exact fun tm ok => ih _ (activeOk_step ok op)

theorem getVacuumHorizon_le {r : Nat} {snap : TransactionSnapshot}
    (reg : (r, snap) ∈ tm.activeSnapshots) : tm.getVacuumHorizon ≤ snap.xmax := by
  -- The fold only ever lowers the bound it starts from.
  have lowers : ∀ (l : List (Nat × TransactionSnapshot)) (bound : Nat),
      l.foldl (fun h p => if p.2.xmax < h then p.2.xmax else h) bound ≤ bound ∧
        ∀ p ∈ l, l.foldl (fun h p => if p.2.xmax < h then p.2.xmax else h) bound ≤ p.2.xmax := by
    intro l
    induction l with
    | nil => simp
    | cons q l ih =>
      intro bound
      simp only [List.foldl_cons]
      obtain ⟨le, all⟩ := ih (if q.2.xmax < bound then q.2.xmax else bound)
      have fst : (if q.2.xmax < bound then q.2.xmax else bound) ≤ bound ∧
          (if q.2.xmax < bound then q.2.xmax else bound) ≤ q.2.xmax := by
        split <;> omega
      refine ⟨le.trans fst.1, ?_⟩
      intro p mem
      rcases List.mem_cons.mp mem with rfl | mem
      · exact le.trans fst.2
      · exact all p mem
  have nonempty : tm.activeSnapshots.isEmpty = false := by
    cases h : tm.activeSnapshots with
    | nil => simp [h] at reg
    | cons _ _ => rfl
  simp only [getVacuumHorizon, nonempty, Bool.false_eq_true, if_false]
  exact (lowers _ _).2 _ reg

end NobugDb.TransactionManager
