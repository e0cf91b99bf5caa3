import NobugDb.Misc.AssocMap
import NobugDb.Storage.Flush
import NobugDb.Storage.Proofs.WalRecords

/-!
# The phases of a flush

What a prefix of each phase of `flush_dirty_tables_locked` leaves in the table files, the
stage files and the log, and what recovery makes of it. Temporary files are never read, so
nothing is said about them.
-/

namespace NobugDb.Disk

open Misc (lookup_cons_if lookup_eq_none_of_notMem)

variable (disk : Disk) (file other : FileName)

@[simp] theorem applyAll_nil : disk.applyAll [] = disk := rfl

@[simp] theorem applyAll_cons (op : FileOp) (ops : List FileOp) :
    disk.applyAll (op :: ops) = (disk.apply op).applyAll ops := rfl

theorem applyAll_append (ops more : List FileOp) :
    disk.applyAll (ops ++ more) = (disk.applyAll ops).applyAll more :=
  List.foldl_append

@[simp] theorem apply_write (bytes : Bytes) :
    disk.apply (.write file bytes) other = if other = file then some bytes else disk other := by
  simp [apply, Function.update_apply]

@[simp] theorem apply_append (bytes : Bytes) :
    disk.apply (.append file bytes) other =
      if other = file then some ((disk file).getD [] ++ bytes) else disk other := by
  simp [apply, Function.update_apply]

@[simp] theorem apply_remove :
    disk.apply (.remove file) other = if other = file then none else disk other := by
  simp [apply, Function.update_apply]

theorem apply_rename {disk : Disk} {source : FileName} {bytes : Bytes}
    (has : disk source = some bytes) (tgt other : FileName) :
    disk.apply (.rename source tgt) other =
      if other = tgt then some bytes else if other = source then none else disk other := by
  simp [apply, has, Function.update_apply]

/-! ## The phases -/

/-- Staging completes a stage file every second operation and touches no table file. -/
theorem stage_phase (images : List (Bytes × Bytes)) (nodup : (images.map Prod.fst).Nodup)
    (disk : Disk) (p : Nat) :
    (∀ n, disk.applyAll ((images.flatMap stageOps).take p) (.db n) = disk (.db n)) ∧
    disk.applyAll ((images.flatMap stageOps).take p) .walLog = disk .walLog ∧
    ∀ n, disk.applyAll ((images.flatMap stageOps).take p) (.stage n) =
      ((images.take (p / 2)).lookup n).or (disk (.stage n)) := by
  induction images generalizing disk p with
  | nil => simp
  | cons t images ih =>
    obtain ⟨head, tail⟩ := List.nodup_cons.mp nodup
    match p with
    | 0 => simp
    | 1 => simp [stageOps]
    | p + 2 =>
      set moved := (disk.apply (.write (.stageTmp t.1) t.2)).apply
        (.rename (.stageTmp t.1) (.stage t.1)) with movedDef
      have has : disk.apply (.write (.stageTmp t.1) t.2) (.stageTmp t.1) = some t.2 := by
        simp
      obtain ⟨dbs, log, stages⟩ := ih tail moved p
      have ops : ((t :: images).flatMap stageOps).take (p + 2) =
          .write (.stageTmp t.1) t.2 :: .rename (.stageTmp t.1) (.stage t.1) ::
            (images.flatMap stageOps).take p := by
        simp [stageOps]
      have half : (p + 2) / 2 = p / 2 + 1 := by omega
      rw [ops, half, List.take_succ_cons]
      simp only [applyAll_cons, ← movedDef]
      refine ⟨fun n => ?_, ?_, fun n => ?_⟩
      · rw [dbs, movedDef, apply_rename has]
        simp
      · rw [log, movedDef, apply_rename has]
        simp
      · rw [stages, movedDef, apply_rename has]
        by_cases eq : n = t.1
        · subst eq
          have absent : t.1 ∉ (images.take (p / 2)).map Prod.fst := fun mem =>
            head ((List.take_sublist _ _).map _ |>.subset mem)
          simp [lookup_cons_if, lookup_eq_none_of_notMem absent]
        · simp [lookup_cons_if, eq]

/-- Appending to the log leaves every other file alone. -/
theorem log_phase (recs : List Bytes) (disk : Disk) :
    (∀ file, file ≠ .walLog → disk.applyAll (recs.map (.append .walLog)) file = disk file) ∧
    (disk.applyAll (recs.map (.append .walLog)) .walLog).getD [] =
      (disk .walLog).getD [] ++ recs.flatten := by
  induction recs generalizing disk with
  | nil => simp
  | cons r recs ih =>
    obtain ⟨others, log⟩ := ih (disk.apply (.append .walLog r))
    simp only [List.map_cons, applyAll_cons]
    refine ⟨fun file differ => ?_, ?_⟩
    · rw [others file differ]
      simp [differ]
    · rw [log]
      simp

/-- Each rename moves a stage file over the table file. -/
theorem rename_phase (images : List (Bytes × Bytes)) (nodup : (images.map Prod.fst).Nodup)
    (disk : Disk) (staged : ∀ t ∈ images, disk (.stage t.1) = some t.2) (j : Nat) :
    (∀ n, disk.applyAll ((images.map fun t => .rename (.stage t.1) (.db t.1)).take j) (.db n) =
      ((images.take j).lookup n).or (disk (.db n))) ∧
    (∀ n, disk.applyAll ((images.map fun t => .rename (.stage t.1) (.db t.1)).take j)
        (.stage n) = none ∨
      disk.applyAll ((images.map fun t => .rename (.stage t.1) (.db t.1)).take j) (.stage n) =
        disk (.stage n)) ∧
    disk.applyAll ((images.map fun t => .rename (.stage t.1) (.db t.1)).take j) .walLog =
      disk .walLog := by
  induction images generalizing disk j with
  | nil => simp
  | cons t images ih =>
    obtain ⟨head, tail⟩ := List.nodup_cons.mp nodup
    match j with
    | 0 => simp
    | j + 1 =>
      have has := staged t (by simp)
      set moved := disk.apply (.rename (.stage t.1) (.db t.1)) with movedDef
      have rest : ∀ u ∈ images, moved (.stage u.1) = some u.2 := by
        intro u mem
        have differ : u.1 ≠ t.1 := fun equal => head (equal ▸ List.mem_map_of_mem mem)
        rw [movedDef, apply_rename has]
        simp [differ, staged u (by simp [mem])]
      obtain ⟨dbs, stages, log⟩ := ih tail moved rest j
      simp only [List.map_cons, List.take_succ_cons, applyAll_cons, ← movedDef]
      refine ⟨fun n => ?_, fun n => ?_, ?_⟩
      · rw [dbs, movedDef, apply_rename has]
        by_cases eq : n = t.1
        · subst eq
          have absent : t.1 ∉ (images.take j).map Prod.fst := fun mem =>
            head ((List.take_sublist _ _).map _ |>.subset mem)
          simp [lookup_cons_if, lookup_eq_none_of_notMem absent]
        · simp [lookup_cons_if, eq]
      · rcases stages n with gone | kept
        · exact Or.inl gone
        · rw [kept, movedDef, apply_rename has]
          by_cases eq : n = t.1
          · simp [eq]
          · simp [eq]
      · rw [log, movedDef, apply_rename has]
        simp

/-- Writing blobs back replaces the table files they name. -/
theorem restore_phase (tables : List (Bytes × Bytes)) (nodup : (tables.map Prod.fst).Nodup)
    (disk : Disk) :
    (∀ n, tables.foldl (fun disk t =>
        disk.applyAll [.write (.dbTmp t.1) t.2, .rename (.dbTmp t.1) (.db t.1)]) disk (.db n) =
      (tables.lookup n).or (disk (.db n))) ∧
    ∀ n, tables.foldl (fun disk t =>
        disk.applyAll [.write (.dbTmp t.1) t.2, .rename (.dbTmp t.1) (.db t.1)]) disk (.stage n) =
      disk (.stage n) := by
  induction tables generalizing disk with
  | nil => simp
  | cons t tables ih =>
    obtain ⟨head, tail⟩ := List.nodup_cons.mp nodup
    have has : disk.apply (.write (.dbTmp t.1) t.2) (.dbTmp t.1) = some t.2 := by simp
    obtain ⟨dbs, stages⟩ := ih tail
      (disk.applyAll [.write (.dbTmp t.1) t.2, .rename (.dbTmp t.1) (.db t.1)])
    simp only [List.foldl_cons]
    refine ⟨fun n => ?_, fun n => ?_⟩
    · rw [dbs, applyAll_cons, applyAll_cons, applyAll_nil, apply_rename has]
      by_cases eq : n = t.1
      · subst eq
        simp [lookup_cons_if, lookup_eq_none_of_notMem head]
      · simp [lookup_cons_if, eq]
    · rw [stages, applyAll_cons, applyAll_cons, applyAll_nil, apply_rename has]
      simp

/-- Recovery writes back what the log commits to and leaves the stage files. -/
theorem recover_files (nodup : ((WalManager.recovered ((disk .walLog).getD [])).map Prod.fst).Nodup) :
    (∀ n, disk.recover (.db n) =
      ((WalManager.recovered ((disk .walLog).getD [])).lookup n).or (disk (.db n))) ∧
    ∀ n, disk.recover (.stage n) = disk (.stage n) := by
  cases log : disk .walLog with
  | none =>
    have nothing : WalManager.recovered [] = [] := by decide
    simp [recover, log, nothing]
  | some bytes =>
    rw [log] at nodup
    obtain ⟨dbs, stages⟩ := restore_phase _ nodup disk
    refine ⟨fun n => ?_, fun n => ?_⟩
    · simp only [recover, log, apply_remove, reduceCtorEq, if_false]
      exact dbs n
    · simp only [recover, log, apply_remove, reduceCtorEq, if_false]
      exact stages n

/-! ## Finitely many files -/

/-- A directory holds finitely many files. -/
def FiniteFiles (disk : Disk) : Prop := {file | (disk file).isSome = true}.Finite

theorem FiniteFiles.apply {disk : Disk} (finite : disk.FiniteFiles) (op : FileOp) :
    (disk.apply op).FiniteFiles := by
  -- an operation creates at most one file
  have grows : ∀ tgt : FileName, (∀ file, file ≠ tgt → (disk.apply op file).isSome = true →
      (disk file).isSome = true) → (disk.apply op).FiniteFiles := by
    intro tgt only
    refine (finite.insert tgt).subset fun file has => ?_
    by_cases eq : file = tgt
    · exact Or.inl eq
    · exact Or.inr (only file eq has)
  cases op with
  | write tgt bytes | append tgt bytes | remove tgt => exact grows tgt (by intro file differ; simp [differ])
  | rename source tgt =>
    apply grows tgt
    intro file differ
    cases has : disk source with
    | none => simp [Disk.apply, has]
    | some bytes =>
      rw [apply_rename has, if_neg differ]
      by_cases eq : file = source
      · simp [eq]
      · simp [eq]

theorem FiniteFiles.applyAll {disk : Disk} (finite : disk.FiniteFiles) (ops : List FileOp) :
    (disk.applyAll ops).FiniteFiles := by
  induction ops generalizing disk with
  | nil => exact finite
  | cons op ops ih => exact ih (finite.apply op)

theorem FiniteFiles.recover {disk : Disk} (finite : disk.FiniteFiles) :
    disk.recover.FiniteFiles := by
  cases log : disk .walLog with
  | none => simpa [Disk.recover, log] using finite
  | some bytes =>
    simp only [Disk.recover, log]
    refine FiniteFiles.apply ?_ _
    generalize WalManager.recovered bytes = tables
    clear log
    induction tables generalizing disk with
    | nil => exact finite
    | cons t tables ih => exact ih (finite.applyAll _)

theorem FiniteFiles.exists_enumerates {disk : Disk} (finite : disk.FiniteFiles) :
    ∃ entries, disk.Enumerates entries := by
  obtain ⟨files, members⟩ := Set.Finite.exists_finset finite
  refine ⟨files.toList, files.nodup_toList, fun file => ?_⟩
  rw [Finset.mem_toList]
  exact members file

end NobugDb.Disk
