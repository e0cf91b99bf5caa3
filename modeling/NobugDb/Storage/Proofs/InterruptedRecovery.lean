import NobugDb.Storage.Proofs.FlushSteps

/-!
# Recovery interrupted by crashes

`recover` writes the images of the log back and removes the log at the end. Crashes before that,
even within a write, do no harm: the next run leaves the directory as a run without a crash does.
-/

namespace NobugDb.Disk

open WalManager (recovered)
open Relation (ReflTransGen)

/-- A file operation of `recover`, the write perhaps cut short by a crash. -/
inductive Restoring (tables : List (Bytes × Bytes)) (disk : Disk) : Disk → Prop
  | write {t : Bytes × Bytes} (cut : Nat) : t ∈ tables →
      Restoring tables disk (disk.apply (.write (.dbTmp t.1) (t.2.take cut)))
  | rename {t : Bytes × Bytes} : t ∈ tables →
      Restoring tables disk (disk.apply (.rename (.dbTmp t.1) (.db t.1)))

/-- The disks differ only in files that restoring the tables writes. -/
def Agree (tables : List (Bytes × Bytes)) (disk disk' : Disk) : Prop :=
  ∀ file, (∀ t ∈ tables, file ≠ .db t.1 ∧ file ≠ .dbTmp t.1) → disk' file = disk file

variable {disk disk' : Disk} {tables : List (Bytes × Bytes)} {log : Bytes}

theorem Restoring.agree (step : Restoring tables disk disk') : Agree tables disk disk' := by
  intro file apart
  cases step with
  | write cut mem => rw [apply_write, if_neg (apart _ mem).2]
  | @rename t mem =>
    cases has : disk (.dbTmp t.1) with
    | none => simp only [apply, has]
    | some bytes => rw [apply_rename has, if_neg (apart t mem).1, if_neg (apart t mem).2]

theorem restore_congr (agree : Agree tables disk disk') :
    let restore (disk : Disk) (t : Bytes × Bytes) :=
      disk.applyAll [.write (.dbTmp t.1) t.2, .rename (.dbTmp t.1) (.db t.1)]
    tables.foldl restore disk' = tables.foldl restore disk := by
  intro restore
  induction tables generalizing disk disk' with
  | nil => exact funext fun file => agree file (by simp)
  | cons t tables ih =>
    have restored (disk : Disk) (file : FileName) : restore disk t file =
        if file = .db t.1 then some t.2 else if file = .dbTmp t.1 then none else disk file := by
      have has : disk.apply (.write (.dbTmp t.1) t.2) (.dbTmp t.1) = some t.2 := by simp
      simp only [restore, applyAll_cons, applyAll_nil, apply_rename has, apply_write]
      split_ifs <;> rfl
    apply ih
    intro file apart
    rw [restored, restored]
    split_ifs with table temp
    · rfl
    · rfl
    · exact agree file (List.forall_mem_cons.2 ⟨⟨table, temp⟩, apart⟩)

theorem recover_after_crashes (found : disk .walLog = some log)
    (run : ReflTransGen (Restoring (recovered log)) disk disk') : disk'.recover = disk.recover := by
  have agree : Agree (recovered log) disk disk' := by
    induction run with
    | refl => exact fun _ _ => rfl
    | tail _ step ih => exact fun file apart => (step.agree file apart).trans (ih file apart)
  have kept : disk' .walLog = some log := (agree .walLog (by simp)).trans found
  simp only [recover, found, kept]
  exact congrArg (·.apply (.remove .walLog)) (restore_congr agree)

/-- The image of `t` is to be restored, and a crash cuts it off. -/
theorem torn_image_restored :
    let log := WalManager.blobRecord [116] [1, 2] ++ WalManager.commitRecord 0
    let disk : Disk := fun file => if file = .walLog then some log else none
    (disk.apply (.write (.dbTmp [116]) [1])).recover = disk.recover :=
  recover_after_crashes rfl
    (.single (.write (t := ([116], [1, 2])) 1 (by decide)))

end NobugDb.Disk
