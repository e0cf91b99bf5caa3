import NobugDb.Storage.Proofs.FlushSteps

/-!
# A crash during a flush

What a restart loads when the process stops after any number of the file operations of
`flush_dirty_tables_locked`. Before the commit record is in the log, the table files are the
old ones, but the stage files also end in `.db` and `load_database` reads them: which of the
two contents a staged table gets depends on the order of the directory entries. From the
commit record on every table has its new content.
-/

namespace NobugDb.Disk

open Misc (lookup_eq_some_iff_mem)
open List (mem_of_mem_take take_of_length_le)
open Option (bind_eq_some_iff bind_some getD_none none_or or_none some.injEq some_or)
open FileName (isDb)

variable {T : Type} {loadTable : Bytes → Option (Bytes × T)}

/-! ## Loading a directory -/

/-- The table a directory entry adds, if any. -/
def content (loadTable : Bytes → Option (Bytes × T)) (disk : Disk) (file : FileName) :
    Option (Bytes × T) :=
  if file.isDb then (disk file).bind loadTable else none

variable {p : Nat} {name : Bytes} {disk : Disk} {entries : List FileName} {t : Bytes × Bytes}
  {file : FileName} {tab : T}

theorem loadEntry_of_content (loads : content loadTable disk file = some (name, tab))
    (tables : Bytes → Option T) :
    loadEntry loadTable disk tables file = Function.update tables name (some tab) := by
  unfold content at loads
  split at loads
  · rename_i isDb
    simp [loadEntry, isDb, loads]
  · simp at loads

theorem loadEntry_of_content_ne (skips : ∀ tab, content loadTable disk file ≠ some (name, tab))
    (tables : Bytes → Option T) : loadEntry loadTable disk tables file name = tables name := by
  cases loads : content loadTable disk file with
  | none =>
    unfold content at loads
    unfold loadEntry
    split at loads
    · rename_i isDb
      simp [isDb, loads]
    · rename_i isDb
      simp [isDb]
  | some loaded =>
    obtain ⟨other, tab⟩ := loaded
    have differ : name ≠ other := fun eq => skips tab (by rw [loads, eq])
    rw [loadEntry_of_content loads, Function.update_of_ne differ]

theorem isSome_of_content {loaded : Bytes × T} (loads : content loadTable disk file = some loaded) :
    (disk file).isSome = true := by
  unfold content at loads
  split at loads
  · obtain ⟨bytes, has, _⟩ := bind_eq_some_iff.mp loads
    simp [has]
  · simp at loads

theorem foldl_loadEntry_cases (disk : Disk) (entries : List FileName) (name : Bytes)
    (tables : Bytes → Option T) :
    (∃ file ∈ entries, ∃ tab, content loadTable disk file = some (name, tab) ∧
      entries.foldl (loadEntry loadTable disk) tables name = some tab) ∨
    ((∀ file ∈ entries, ∀ tab, content loadTable disk file ≠ some (name, tab)) ∧
      entries.foldl (loadEntry loadTable disk) tables name = tables name) := by
  induction entries generalizing tables with
  | nil => simp
  | cons file entries ih =>
    rw [List.foldl_cons]
    rcases ih (loadEntry loadTable disk tables file) with ⟨later, mem, tab, hit⟩ | rest
    · exact Or.inl ⟨later, by simp [mem], tab, hit⟩
    · by_cases head : ∃ tab, content loadTable disk file = some (name, tab)
      · obtain ⟨tab, loads⟩ := head
        refine Or.inl ⟨file, by simp, tab, loads, ?_⟩
        rw [rest.2, loadEntry_of_content loads, Function.update_self]
      · have skips : ∀ tab, content loadTable disk file ≠ some (name, tab) :=
          fun tab loads => head ⟨tab, loads⟩
        refine Or.inr ⟨?_, by rw [rest.2, loadEntry_of_content_ne skips]⟩
        intro ne mem
        rcases List.mem_cons.mp mem with rfl | mem
        · exact skips
        · exact rest.1 ne mem

theorem loadDatabase_cases (enum : disk.Enumerates entries) (name : Bytes) :
    (∃ file tab, content loadTable disk file = some (name, tab) ∧
      loadDatabase loadTable disk entries name = some tab) ∨
    ((∀ file tab, content loadTable disk file ≠ some (name, tab)) ∧
      loadDatabase loadTable disk entries name = none) := by
  rcases @foldl_loadEntry_cases T loadTable disk entries name (fun _ => none) with
    ⟨file, _, tab, loads, loaded⟩ | ⟨absent, loaded⟩
  · exact Or.inl ⟨file, tab, loads, loaded⟩
  · refine Or.inr ⟨fun file tab loads => ?_, loaded⟩
    exact absent file ((enum.2 file).mpr (isSome_of_content loads)) tab loads

/-- The later part of the directory decides about the tables it has entries for. -/
theorem loadDatabase_append_of_agree {fst snd : List FileName} {table : T}
    (agree : ∀ file ∈ snd, ∀ ne, content loadTable disk file = some (name, ne) →
      ne = table) (has : ∃ file ∈ snd, content loadTable disk file = some (name, table)) :
    loadDatabase loadTable disk (fst ++ snd) name = some table := by
  rw [loadDatabase, List.foldl_append]
  rcases foldl_loadEntry_cases disk snd name
    (fst.foldl (loadEntry loadTable disk) fun _ => none) with
    ⟨file, mem, ne, loads, loaded⟩ | ⟨absent, _⟩
  · rw [loaded, agree file mem ne loads]
  · obtain ⟨file, mem, loads⟩ := has
    exact absurd loads (absent file mem table)

theorem Enumerates.reorder (enum : disk.Enumerates entries) (early : FileName → Bool) :
    disk.Enumerates (entries.filter early ++ entries.filter (fun file => !early file)) := by
  have permuted := List.filter_append_perm early entries
  refine ⟨permuted.nodup_iff.mpr enum.1, fun file => ?_⟩
  rw [permuted.mem_iff]
  exact enum.2 file

/-! ## The directory and the flush -/

/-- A storage directory between two flushes: no log, no stage files, and a table file that
    loads holds the table it is named after. -/
structure Directory (loadTable : Bytes → Option (Bytes × T)) where
  disk : Disk
  finite : disk.FiniteFiles
  noLog : disk .walLog = none
  noStage : ∀ name, disk (.stage name) = none
  named : ∀ name bytes other table,
    disk (.db name) = some bytes → loadTable bytes = some (other, table) → other = name

/-- The dirty tables with the images `save_table` writes of them. The sizes are those that
    the length fields of the log can hold. -/
structure DirtyTables (loadTable : Bytes → Option (Bytes × T)) where
  images : List (Bytes × Bytes)
  distinct : (images.map Prod.fst).Nodup
  loads : ∀ t ∈ images, ∃ table, loadTable t.2 = some (t.1, table)
  fits : ∀ t ∈ images, WalManager.Fits t

/-- The table contents before the flush. -/
def Directory.before (dir : Directory loadTable) (name : Bytes) : Option T :=
  ((dir.disk (.db name)).bind loadTable).map Prod.snd

/-- The table contents after the flush. -/
def Directory.after (dir : Directory loadTable) (dirty : DirtyTables loadTable) (name : Bytes) :
    Option T :=
  match dirty.images.lookup name with
  | some image => (loadTable image).map Prod.snd
  | none => dir.before name

/-- The dirty table differs from what the directory holds of it. -/
def Directory.Changed (dir : Directory loadTable) (dirty : DirtyTables loadTable)
    (t : Bytes × Bytes) : Prop :=
  t ∈ dirty.images ∧ dir.after dirty t.1 ≠ dir.before t.1

/-- The directory that recovery leaves after a crash behind `p` operations of the flush. -/
def Directory.crashed (dir : Directory loadTable) (dirty : DirtyTables loadTable) (p : Nat) :
    Disk :=
  (dir.disk.applyAll ((flushOps dirty.images).take p)).recover

/-- The tables whose stage file is complete after `p` operations. -/
def DirtyTables.staged (dirty : DirtyTables loadTable) (p : Nat) : List (Bytes × Bytes) :=
  dirty.images.take (p / 2)

/-- The commit record is in the log after `p` operations. -/
def DirtyTables.committed (dirty : DirtyTables loadTable) (p : Nat) : Prop :=
  3 * dirty.images.length + 1 ≤ p

/-! ## What a crash leaves -/

def flushRecords (images : List (Bytes × Bytes)) : List Bytes :=
  images.map (fun t => WalManager.blobRecord t.1 t.2) ++ [WalManager.commitRecord 0]

theorem flushOps_phases {images : List (Bytes × Bytes)} (nonempty : images ≠ []) :
    flushOps images = images.flatMap stageOps ++ ((flushRecords images).map (.append .walLog) ++
      (images.map (fun t => .rename (.stage t.1) (.db t.1)) ++ [.remove .walLog])) := by
  simp [flushOps, nonempty, flushRecords]

theorem length_stageOps (images : List (Bytes × Bytes)) :
    (images.flatMap stageOps).length = 2 * images.length := by
  induction images with
  | nil => rfl
  | cons t images ih =>
    rw [List.flatMap_cons, List.length_append, ih, List.length_cons]
    simp only [stageOps, List.length_cons, List.length_nil]
    omega

namespace Directory

variable (dir : Directory loadTable) (dirty : DirtyTables loadTable)

theorem crashed_of_no_images (p : Nat) (empty : dirty.images = []) :
    dir.crashed dirty p = dir.disk := by
  simp [crashed, empty, flushOps, recover, dir.noLog]

/-- Before the commit record the table files are the old ones, beside the complete stage
    files. -/
theorem crashed_uncommitted (p : Nat) (early : ¬ dirty.committed p) :
    (∀ n, dir.crashed dirty p (.db n) = dir.disk (.db n)) ∧
    ∀ n, dir.crashed dirty p (.stage n) = (dirty.staged p).lookup n := by
  by_cases nonempty : dirty.images = []
  · rw [dir.crashed_of_no_images dirty p nonempty]
    exact ⟨fun _ => rfl, fun n => by simp [DirtyTables.staged, nonempty, dir.noStage n]⟩
  have bound : p ≤ 3 * dirty.images.length := by
    unfold DirtyTables.committed at early
    omega
  have stageLength := length_stageOps dirty.images
  -- only staging and the first blob records have happened
  have logged : (flushRecords dirty.images).take (p - 2 * dirty.images.length) =
      (dirty.images.take (p - 2 * dirty.images.length)).map
        (fun t => WalManager.blobRecord t.1 t.2) := by
    rw [flushRecords, List.take_append_of_le_length (by simp; omega), List.map_take]
  have ops : (flushOps dirty.images).take p = (dirty.images.flatMap stageOps).take p ++
      ((dirty.images.take (p - 2 * dirty.images.length)).map
        (fun t => WalManager.blobRecord t.1 t.2)).map (.append .walLog) := by
    rw [flushOps_phases nonempty, List.take_append, stageLength,
      List.take_append_of_le_length (by simp [flushRecords]; omega), ← List.map_take, logged]
  obtain ⟨dbs, log, stages⟩ := stage_phase dirty.images dirty.distinct dir.disk p
  obtain ⟨others, appended⟩ := log_phase ((dirty.images.take (p - 2 * dirty.images.length)).map
      (fun t => WalManager.blobRecord t.1 t.2))
    (dir.disk.applyAll ((dirty.images.flatMap stageOps).take p))
  have nothing : WalManager.recovered
      ((dir.disk.applyAll ((flushOps dirty.images).take p) .walLog).getD []) = [] := by
    rw [ops, applyAll_append, appended, log, dir.noLog, getD_none, List.nil_append,
      ← List.flatMap_def]
    exact WalManager.recovered_uncommitted _ fun t mem =>
      dirty.fits t (mem_of_mem_take mem)
  obtain ⟨tables, kept⟩ := recover_files (dir.disk.applyAll ((flushOps dirty.images).take p))
    (by rw [nothing]; exact List.nodup_nil)
  refine ⟨fun n => ?_, fun n => ?_⟩
  · rw [crashed, tables, nothing, List.lookup_nil, none_or, ops, applyAll_append,
      others _ (by simp), dbs]
  · rw [crashed, kept, ops, applyAll_append, others _ (by simp), stages, dir.noStage,
      or_none, DirtyTables.staged]

theorem logged :
    let disk := dir.disk.applyAll (dirty.images.flatMap stageOps ++
      (flushRecords dirty.images).map (.append .walLog))
    (∀ n, disk (.db n) = dir.disk (.db n)) ∧
    (∀ n, disk (.stage n) = dirty.images.lookup n) ∧
    WalManager.recovered ((disk .walLog).getD []) = dirty.images := by
  intro disk
  obtain ⟨dbs, log, stages⟩ := stage_phase dirty.images dirty.distinct dir.disk
    (2 * dirty.images.length)
  obtain ⟨others, appended⟩ := log_phase (flushRecords dirty.images)
    (dir.disk.applyAll (dirty.images.flatMap stageOps))
  rw [take_of_length_le (by rw [length_stageOps])] at dbs log stages
  have split : disk = (dir.disk.applyAll (dirty.images.flatMap stageOps)).applyAll
      ((flushRecords dirty.images).map (.append .walLog)) := applyAll_append _ _ _
  refine ⟨fun n => ?_, fun n => ?_, ?_⟩
  · rw [split, others _ (by simp), dbs]
  · rw [split, others _ (by simp), stages, dir.noStage, or_none,
      take_of_length_le (by omega)]
  · rw [split, appended, log, dir.noLog, getD_none, List.nil_append, flushRecords,
      List.flatten_append, ← List.flatMap_def]
    simpa using WalManager.recovered_committed dirty.images dirty.fits

theorem lookup_take_none {tables : List (Bytes × Bytes)} (absent : tables.lookup name = none) (j : Nat) :
    (tables.take j).lookup name = none := by
  rw [List.lookup_eq_none_iff] at absent ⊢
  exact fun t mem => absent t (mem_of_mem_take mem)

/-- From the commit record on every dirty table file is the new one, and what is left of the
    stage files agrees with them. -/
theorem crashed_committed (p : Nat) (late : dirty.committed p) :
    (∀ n, dir.crashed dirty p (.db n) = (dirty.images.lookup n).or (dir.disk (.db n))) ∧
    ∀ n bytes, dir.crashed dirty p (.stage n) = some bytes →
      dirty.images.lookup n = some bytes := by
  by_cases nonempty : dirty.images = []
  · rw [dir.crashed_of_no_images dirty p nonempty]
    exact ⟨fun n => by simp [nonempty], fun n bytes present => by simp [dir.noStage n] at present⟩
  unfold DirtyTables.committed at late
  obtain ⟨dbs, stages, log⟩ := dir.logged dirty
  set disk := dir.disk.applyAll (dirty.images.flatMap stageOps ++
    (flushRecords dirty.images).map (FileOp.append .walLog)) with diskDef
  obtain ⟨j, rfl⟩ : ∃ j, p = 3 * dirty.images.length + 1 + j := ⟨_, (Nat.add_sub_of_le late).symm⟩
  have lengths : (dirty.images.flatMap stageOps ++
      (flushRecords dirty.images).map (FileOp.append .walLog)).length =
      3 * dirty.images.length + 1 := by
    rw [List.length_append, length_stageOps]
    simp only [flushRecords, List.length_map, List.length_append, List.length_singleton]
    omega
  have ops : dir.disk.applyAll
      ((flushOps dirty.images).take (3 * dirty.images.length + 1 + j)) = disk.applyAll
        ((dirty.images.map (fun t => FileOp.rename (.stage t.1) (.db t.1)) ++ [FileOp.remove .walLog]).take
          j) := by
    rw [flushOps_phases nonempty, ← List.append_assoc, List.take_append, lengths,
      take_of_length_le (by rw [lengths]; omega), applyAll_append, Nat.add_sub_cancel_left]
  have staged : ∀ t ∈ dirty.images, disk (.stage t.1) = some t.2 := fun t mem => by
    rw [stages]
    exact (lookup_eq_some_iff_mem dirty.distinct).mpr mem
  obtain ⟨renamed, moved, sameLog⟩ := rename_phase dirty.images dirty.distinct disk staged j
  -- the stage files only ever disappear
  have stageImages : ∀ n bytes, disk.applyAll
      ((dirty.images.map (fun t => FileOp.rename (.stage t.1) (.db t.1))).take j) (.stage n) =
        some bytes → dirty.images.lookup n = some bytes := by
    intro n bytes present
    rcases moved n with gone | kept
    · rw [gone] at present
      simp at present
    · rw [← stages, ← kept, present]
  unfold crashed
  rw [ops]
  by_cases within : j ≤ dirty.images.length
  · -- the log is still there: recovery writes every image back
    rw [List.take_append_of_le_length (by simpa using within)]
    rw [← sameLog] at log
    obtain ⟨tables, kept⟩ := recover_files (disk.applyAll
      ((dirty.images.map (fun t => FileOp.rename (.stage t.1) (.db t.1))).take j))
      (by rw [log]; exact dirty.distinct)
    refine ⟨fun n => ?_, fun n bytes present => stageImages n bytes (kept n ▸ present)⟩
    rw [tables, log, renamed, dbs]
    cases hit : dirty.images.lookup n with
    | some image => rfl
    | none => rw [lookup_take_none hit, none_or, none_or]
  · -- everything has happened, so there is nothing to recover
    have all : dirty.images.length ≤ j := by omega
    rw [take_of_length_le (by simp; omega), applyAll_append, applyAll_cons, applyAll_nil]
    rw [take_of_length_le (by simpa using all)] at stageImages renamed
    rw [take_of_length_le all] at renamed
    have noLog : ∀ d : Disk, (d.apply (.remove .walLog)).recover = d.apply (.remove .walLog) := by
      intro d
      simp [recover]
    rw [noLog]
    refine ⟨fun n => ?_, fun n bytes present => stageImages n bytes (by simpa using present)⟩
    rw [apply_remove, if_neg (by simp), renamed, dbs]

/-! ## What is loaded -/

variable {dir dirty}

theorem before_eq_some_iff :
    dir.before name = some tab ↔ (dir.disk (.db name)).bind loadTable = some (name, tab) := by
  unfold before
  rw [Option.map_eq_some_iff]
  constructor
  · rintro ⟨⟨ne, cont⟩, loads, rfl⟩
    obtain ⟨bytes, has, read⟩ := bind_eq_some_iff.mp loads
    rw [loads, dir.named name bytes ne cont has read]
  · intro loads
    exact ⟨(name, tab), loads, rfl⟩

theorem after_of_mem {image : Bytes} (mem : (name, image) ∈ dirty.images) :
    ∃ table, loadTable image = some (name, table) ∧ dir.after dirty name = some table := by
  obtain ⟨table, loads⟩ := dirty.loads _ mem
  refine ⟨table, loads, ?_⟩
  rw [after, (lookup_eq_some_iff_mem dirty.distinct).mpr mem]
  simp [loads]

theorem staged_lookup {image : Bytes} :
    (dirty.staged p).lookup name = some image ↔ (name, image) ∈ dirty.staged p := by
  apply lookup_eq_some_iff_mem
  exact dirty.distinct.sublist ((List.take_sublist _ _).map _)

/-- Before the commit record an entry that names a table is its old file or its stage file. -/
theorem content_uncommitted (early : ¬ dirty.committed p) :
    content loadTable (dir.crashed dirty p) file = some (name, tab) ↔
      file = .db name ∧ dir.before name = some tab ∨
      file = .stage name ∧ dir.after dirty name = some tab ∧
        ∃ image, (name, image) ∈ dirty.staged p := by
  obtain ⟨dbs, stages⟩ := dir.crashed_uncommitted dirty p early
  cases file with
  | db owner =>
    simp only [content, isDb, if_true, dbs, FileName.db.injEq, reduceCtorEq, false_and,
      or_false]
    constructor
    · intro loads
      obtain ⟨bytes, has, read⟩ := bind_eq_some_iff.mp loads
      obtain rfl := dir.named owner bytes name tab has read
      exact ⟨rfl, before_eq_some_iff.mpr loads⟩
    · rintro ⟨rfl, old⟩
      exact before_eq_some_iff.mp old
  | stage owner =>
    simp only [content, isDb, if_true, stages, FileName.stage.injEq, reduceCtorEq,
      false_and, false_or]
    constructor
    · intro loads
      obtain ⟨image, hit, read⟩ := bind_eq_some_iff.mp loads
      have mem := (staged_lookup).mp hit
      obtain ⟨new, newLoads, newAfter⟩ := after_of_mem (mem_of_mem_take mem)
      rw [read, some.injEq, Prod.mk.injEq] at newLoads
      obtain ⟨rfl, rfl⟩ := newLoads
      exact ⟨rfl, newAfter, image, mem⟩
    · rintro ⟨rfl, new, image, mem⟩
      obtain ⟨ne, loads, newAfter⟩ := after_of_mem (mem_of_mem_take mem)
      rw [new, some.injEq] at newAfter
      rw [(staged_lookup).mpr mem, bind_some, loads, newAfter]
  | _ => simp [content, isDb]

/-- From the commit record on a restart loads the new contents. -/
theorem load_committed (late : dirty.committed p)
    (enum : (dir.crashed dirty p).Enumerates entries) :
    loadDatabase loadTable (dir.crashed dirty p) entries = dir.after dirty := by
  obtain ⟨dbs, stages⟩ := dir.crashed_committed dirty p late
  -- an entry of a dirty table loads as its image, any other table file as before
  have loaded : ∀ file name table,
      content loadTable (dir.crashed dirty p) file = some (name, table) →
      dir.after dirty name = some table := by
    intro file name table loads
    have ofImage : ∀ owner image, dirty.images.lookup owner = some image →
        loadTable image = some (name, table) → dir.after dirty name = some table := by
      intro owner image hit read
      obtain ⟨ne, otherLoads, new⟩ :=
        after_of_mem ((lookup_eq_some_iff_mem dirty.distinct).mp hit)
      rw [read, some.injEq, Prod.mk.injEq] at otherLoads
      obtain ⟨rfl, rfl⟩ := otherLoads
      exact new
    cases file with
    | db owner =>
      simp only [content, isDb, if_true, dbs] at loads
      cases hit : dirty.images.lookup owner with
      | some image =>
        rw [hit, some_or, bind_some] at loads
        exact ofImage owner image hit loads
      | none =>
        rw [hit, none_or] at loads
        obtain ⟨bytes, has, read⟩ := bind_eq_some_iff.mp loads
        obtain rfl := dir.named owner bytes name table has read
        rw [after, hit]
        exact before_eq_some_iff.mpr loads
    | stage owner =>
      simp only [content, isDb, if_true] at loads
      obtain ⟨image, has, read⟩ := bind_eq_some_iff.mp loads
      exact ofImage owner image (stages owner image has) read
    | _ => simp [content, isDb] at loads
  funext name
  rcases loadDatabase_cases enum name with ⟨file, table, loads, hit⟩ | ⟨absent, hit⟩
  · rw [hit, loaded file name table loads]
  · -- a table of the new contents would have an entry
    rw [hit, eq_comm, Option.eq_none_iff_forall_ne_some]
    intro table new
    apply absent (.db name) table
    simp only [content, isDb, if_true, dbs]
    unfold after at new
    cases image : dirty.images.lookup name with
    | some bytes =>
      obtain ⟨ne, read⟩ := dirty.loads _ ((lookup_eq_some_iff_mem dirty.distinct).mp image)
      simp only [image, read, Option.map_some, some.injEq] at new
      rw [some_or, bind_some, read, new]
    | none =>
      simp only [image] at new
      rw [none_or]
      exact before_eq_some_iff.mp new

/-- Before the commit record a table has its old content, or the new one if it is staged. -/
theorem load_uncommitted (early : ¬ dirty.committed p)
    (enum : (dir.crashed dirty p).Enumerates entries) (name : Bytes) :
    loadDatabase loadTable (dir.crashed dirty p) entries name = dir.before name ∨
    loadDatabase loadTable (dir.crashed dirty p) entries name = dir.after dirty name ∧
      ∃ image, (name, image) ∈ dirty.staged p := by
  rcases loadDatabase_cases enum name with ⟨file, tab, loads, hit⟩ | ⟨absent, hit⟩
  · rcases (content_uncommitted early).mp loads with ⟨_, old⟩ | ⟨_, new, staged⟩
    · exact Or.inl (hit.trans old.symm)
    · exact Or.inr ⟨hit.trans new.symm, staged⟩
  · left
    rw [hit, eq_comm, Option.eq_none_iff_forall_ne_some]
    intro tab old
    exact absent _ tab ((content_uncommitted early).mpr (Or.inl ⟨rfl, old⟩))

theorem load_new_table (early : ¬ dirty.committed p)
    (enum : (dir.crashed dirty p).Enumerates entries) (staged : t ∈ dirty.staged p)
    (isNew : dir.before t.1 = none) :
    loadDatabase loadTable (dir.crashed dirty p) entries t.1 = dir.after dirty t.1 := by
  obtain ⟨tab, _, new⟩ := after_of_mem (mem_of_mem_take staged)
  rcases loadDatabase_cases enum t.1 with ⟨file, ne, loads, hit⟩ | ⟨absent, _⟩
  · rcases (content_uncommitted early).mp loads with ⟨_, old⟩ | ⟨_, after, _⟩
    · rw [isNew] at old
      simp at old
    · exact hit.trans after.symm
  · exact absurd ((content_uncommitted early).mpr (Or.inr ⟨rfl, new, t.2, staged⟩))
      (absent _ tab)

/-- The entries in front when `name` is to be loaded new and every other table old. -/
def readsFirst (name : Bytes) : FileName → Bool
  | .db owner => owner = name
  | .stage owner => owner ≠ name
  | _ => false

/-- Some order of the entries loads one staged table new and another table old. -/
theorem exists_mixed_load (early : ¬ dirty.committed p) (staged : t ∈ dirty.staged p)
    {other : Bytes} (differ : other ≠ t.1)
    (hasOld : dir.before other ≠ none ∨ ∀ image, (other, image) ∉ dirty.staged p) :
    ∃ entries, (dir.crashed dirty p).Enumerates entries ∧
      loadDatabase loadTable (dir.crashed dirty p) entries t.1 = dir.after dirty t.1 ∧
      loadDatabase loadTable (dir.crashed dirty p) entries other = dir.before other := by
  have finite : (dir.crashed dirty p).FiniteFiles := (dir.finite.applyAll _).recover
  obtain ⟨entries, enum⟩ := finite.exists_enumerates
  have has : ∀ file loaded, content loadTable (dir.crashed dirty p) file = some loaded →
      file ∈ entries := fun file _ loads => (enum.2 file).mpr (isSome_of_content loads)
  refine ⟨_, enum.reorder (readsFirst t.1), ?_, ?_⟩
  · obtain ⟨tab, _, new⟩ := after_of_mem (mem_of_mem_take staged)
    have loads := (content_uncommitted early).mpr (Or.inr ⟨rfl, new, t.2, staged⟩)
    rw [new]
    apply loadDatabase_append_of_agree
    · intro file mem x read
      rcases (content_uncommitted early).mp read with ⟨rfl, _⟩ | ⟨_, after, _⟩
      · simp [readsFirst] at mem
      · rw [new, some.injEq] at after
        exact after.symm
    · exact ⟨_, by simpa [readsFirst] using has _ _ loads, loads⟩
  · rcases hasOld with old | unstaged
    · obtain ⟨tab, old⟩ := Option.ne_none_iff_exists'.mp old
      have loads := (content_uncommitted early).mpr (Or.inl ⟨rfl, old⟩)
      rw [old]
      apply loadDatabase_append_of_agree
      · intro file mem x read
        rcases (content_uncommitted early).mp read with ⟨_, before⟩ | ⟨rfl, _⟩
        · rw [old, some.injEq] at before
          exact before.symm
        · simp [readsFirst, differ] at mem
      · exact ⟨_, by simpa [readsFirst, differ] using has _ _ loads, loads⟩
    · rcases load_uncommitted early (enum.reorder (readsFirst t.1)) other with
        old | ⟨_, image, mem⟩
      · exact old
      · exact absurd mem (unstaged image)

theorem after_eq_before (eq : ∀ t, dir.Changed dirty t → t.1 ≠ name) :
    dir.after dirty name = dir.before name := by
  cases hit : dirty.images.lookup name with
  | none => simp [after, hit]
  | some image =>
    have mem := (lookup_eq_some_iff_mem dirty.distinct).mp hit
    by_contra differs
    exact eq (name, image) ⟨mem, differs⟩ rfl

/-! ## Atomicity -/

/-- Whatever the order of the directory entries, a restart after the crash loads all old or
    all new contents. -/
def AllOrNothing (dir : Directory loadTable) (dirty : DirtyTables loadTable) (p : Nat) : Prop :=
  ∀ entries, (dir.crashed dirty p).Enumerates entries →
    loadDatabase loadTable (dir.crashed dirty p) entries = dir.before ∨
    loadDatabase loadTable (dir.crashed dirty p) entries = dir.after dirty

theorem eq_of_name {u : Bytes × Bytes} (memberT : t ∈ dirty.images)
    (memberU : u ∈ dirty.images) (eq : t.1 = u.1) : t = u :=
  List.inj_on_of_nodup_map dirty.distinct memberT memberU eq

section

variable (early : ¬ dirty.committed p)
include early

theorem load_unchanged (enum : (dir.crashed dirty p).Enumerates entries)
    (eq : dir.after dirty name = dir.before name) :
    loadDatabase loadTable (dir.crashed dirty p) entries name = dir.before name := by
  rcases load_uncommitted early enum name with old | ⟨new, _⟩
  · exact old
  · rw [new, eq]

theorem allOrNothing_of_unstaged
    (unstaged : ∀ t ∈ dirty.staged p, ¬ dir.Changed dirty t) : dir.AllOrNothing dirty p := by
  intro entries enum
  left
  funext name
  rcases load_uncommitted early enum name with old | ⟨new, image, staged⟩
  · exact old
  · have eq : dir.after dirty name = dir.before name := by
      by_contra differs
      exact unstaged _ staged ⟨mem_of_mem_take staged, differs⟩
    rw [new, eq]

/-- With a single changed table the directory as a whole is old or new with it. -/
theorem allOrNothing_of_single
    (single : ∀ u, dir.Changed dirty u → u = t) : dir.AllOrNothing dirty p := by
  intro entries enum
  have rest : ∀ name, name ≠ t.1 → dir.after dirty name = dir.before name := by
    intro name differ
    apply after_eq_before
    intro u changed eq
    exact differ (by rw [← eq, single u changed])
  rcases load_uncommitted early enum t.1 with old | ⟨new, _⟩
  · left
    funext name
    by_cases eq : name = t.1
    · rw [eq, old]
    · exact load_unchanged early enum (rest name eq)
  · right
    funext name
    by_cases eq : name = t.1
    · rw [eq, new]
    · rw [load_unchanged early enum (rest name eq), rest name eq]

theorem allOrNothing_of_new (all : ∀ t, dir.Changed dirty t → t ∈ dirty.staged p)
    (isNew : ∀ t, dir.Changed dirty t → dir.before t.1 = none) : dir.AllOrNothing dirty p := by
  intro entries enum
  right
  funext name
  by_cases changed : ∃ t, dir.Changed dirty t ∧ t.1 = name
  · obtain ⟨t, changed, rfl⟩ := changed
    exact load_new_table early enum (all t changed) (isNew t changed)
  · have same := after_eq_before fun t isChanged equal =>
      changed ⟨t, isChanged, equal⟩
    rw [load_unchanged early enum same, same]

end

theorem AllOrNothing.no_clash (atomic : dir.AllOrNothing dirty p) (early : ¬ dirty.committed p)
    {u : Bytes × Bytes} (staged : t ∈ dirty.staged p) (changedT : dir.Changed dirty t) (changedU : dir.Changed dirty u)
    (differ : u ≠ t) (hasOld : dir.before u.1 ≠ none ∨ ∀ image, (u.1, image) ∉ dirty.staged p) :
    False := by
  have names : u.1 ≠ t.1 := fun eq => differ (eq_of_name changedU.1 changedT.1 eq)
  obtain ⟨entries, enum, new, old⟩ := exists_mixed_load early staged names hasOld
  rcases atomic entries enum with allOld | allNew
  · rw [allOld] at new
    exact changedT.2 new.symm
  · rw [allNew] at old
    exact changedU.2 old

theorem AllOrNothing.all_staged (atomic : dir.AllOrNothing dirty p) (early : ¬ dirty.committed p)
    (staged : t ∈ dirty.staged p) (changed : dir.Changed dirty t) (u : Bytes × Bytes) (changedU : dir.Changed dirty u) :
    u ∈ dirty.staged p := by
  by_contra unstaged
  have absent : ∀ image, (u.1, image) ∉ dirty.staged p := by
    intro image mem
    exact unstaged (eq_of_name (mem_of_mem_take mem) changedU.1 rfl ▸ mem)
  have differ : u ≠ t := fun eq => unstaged (eq ▸ staged)
  exact atomic.no_clash early staged changed changedU differ (Or.inr absent)

end Directory

/-- A table file reduced to a byte for the name and the content. -/
def loadTagged : Bytes → Option (Bytes × Bytes)
  | [] => none
  | name :: content => some ([name], content)

/-- Two tables `a` and `b` on disk, both with the content `0`. -/
def twoTables : Directory loadTagged where
  disk file :=
    if file = .db [97] then some [97, 0] else if file = .db [98] then some [98, 0] else none
  finite := by
    refine (Set.toFinite {FileName.db [97], FileName.db [98]}).subset fun file present => ?_
    simp only [Set.mem_ofPred_eq] at present
    split at present
    · exact Or.inl (by assumption)
    · split at present
      · exact Or.inr (by assumption)
      · simp at present
  noLog := by simp
  noStage := by simp
  named := by
    intro name bytes other table present loads
    simp only [FileName.db.injEq] at present
    split at present
    · cases present
      simp_all [loadTagged]
    · split at present
      · cases present
        simp_all [loadTagged]
      · simp at present

/-- Both tables get the content `1`. -/
def twoDirty : DirtyTables loadTagged where
  images := [([97], [97, 1]), ([98], [98, 1])]
  distinct := by decide
  loads := by simp [loadTagged]
  fits := by simp [WalManager.Fits, WalManager.blobPayload]

end NobugDb.Disk
