import NobugDb.Core.TableWrites

/-!
# Which rows the operations of a table leave

Index maintenance touches no row, so a table's rows after an operation are those its own
steps on the row directory leave.
-/

namespace NobugDb.Table

/-- The rows of a table none of whose slots is empty; no row can be read otherwise. -/
def storedRows (t : Table) : List Row :=
  match t.getAllRows with
  | .ok rows => rows
  | .error _ => []

variable {rows : List Row} (t : Table) (name : String) {horizon : Nat}

theorem getAllRows_eq_ok_iff {t : Table} : t.getAllRows = .ok rows ↔ t.directory = rows.map some := by
  have read : (fun slot => (readSlot slot).toOption) = id := by
    funext slot
    cases slot <;> rfl
  rw [getAllRows, Exn.mapM_eq_ok_iff, read, List.map_id]

theorem getAllRows_map_some (rows : List Row) (h : t.directory = rows.map some) :
    t.getAllRows = .ok rows :=
  getAllRows_eq_ok_iff.mpr h

theorem dir_of_getAllRows {t : Table} (h : t.getAllRows = .ok rows) : t.directory = rows.map some :=
  getAllRows_eq_ok_iff.mp h

theorem getRow_eq_ok_iff {t : Table} {i : Nat} {row : Row} :
    t.getRow i = .ok row ↔ t.directory[i]? = some (some row) := by
  unfold getRow
  rcases t.directory[i]? with _ | _ | stored
  · exact ⟨nofun, nofun⟩
  · exact ⟨nofun, nofun⟩
  · simp [readSlot]

theorem filterMap_pos (test : Row → Bool) (rows : List Row) :
    (positions test rows).filterMap (fun i => rows[i]?) = rows.filter test := by
  unfold positions
  induction rows with
  | nil => rfl
  | cons row rows ih =>
    have rest : (rows.findIdxs test 1).filterMap (fun i => (row :: rows)[i]?) =
        rows.filter test := by
      rw [List.findIdxs_start, List.filterMap_map, ← ih]
      rfl
    rw [List.findIdxs_cons, List.filter_cons]
    split
    · exact congrArg (row :: ·) rest
    · exact rest

theorem getAllRows_congr {t u : Table} (h : t.directory = u.directory) :
    t.getAllRows = u.getAllRows := by
  unfold getAllRows
  rw [h]

theorem seq_dir {steps : List (Table → Table × Except Exn Unit)}
    (each : ∀ step ∈ steps, ∀ t, (step t).1.directory = t.directory) (t : Table) :
    (sequence steps t).1.directory = t.directory := by
  induction steps generalizing t with
  | nil => rfl
  | cons step rest ih =>
    have fst := each step (by simp) t
    unfold sequence
    cases h : step t with
    | mk u out =>
      rw [h] at fst
      cases out with
      | error e => exact fst
      | ok _ => exact (ih (fun s m => each s (by simp [m])) u).trans fst

theorem buildIndex_dir : (t.buildIndex name).1.directory = t.directory := by
  unfold buildIndex
  split
  · rfl
  · split <;> rfl

theorem buildNamed_dir (idxs : Misc.AssocMap String (List String)) (name : String) :
    (t.buildNamedIndex idxs name).1.directory = t.directory := by
  unfold buildNamedIndex
  split
  · rfl
  · split <;> rfl

theorem constraintIndex_dir (cols : List String) (t : Table) :
    (t.ensureConstraintIndex name cols).1.directory = t.directory := by
  unfold ensureConstraintIndex
  exact buildNamed_dir _ _ _

theorem ensureMissing_dir (cols : List String) (t : Table) :
    (t.ensureMissing name cols).1.directory = t.directory := by
  unfold ensureMissing
  split
  · rfl
  · exact constraintIndex_dir name cols t

theorem syncMetadata_dir : t.syncKeyMetadata.directory = t.directory := by
  unfold syncKeyMetadata
  split <;> rfl

theorem rebuildIndexes_dir : t.rebuildIndexes.1.directory = t.directory := by
  unfold rebuildIndexes
  refine (seq_dir ?_ _).trans (syncMetadata_dir _)
  intro step mem u
  simp only [List.mem_append, List.mem_map] at mem
  rcases mem with (((⟨c, -, rfl⟩ | ⟨e, -, rfl⟩) | ⟨e, -, rfl⟩) | mem) | ⟨uq, -, rfl⟩
  · exact buildIndex_dir u c.name
  · exact buildNamed_dir u _ _
  · exact buildNamed_dir u _ _
  · split at mem
    · simp at mem
    · simp only [List.mem_singleton] at mem
      subst mem
      exact ensureMissing_dir _ _ u
  · exact ensureMissing_dir _ _ u

theorem andThen_markDirty_dir (fst : Table × Except Exn Unit) :
    (andThen fst (fun t => (t.markDirty, .ok ()))).1.directory = fst.1.directory := by
  obtain ⟨t, out⟩ := fst
  cases out <;> rfl

section Vacuumed

variable {tm : TransactionManager} {row : Row}

theorem vacuumRow_eq_some {kept : Row} (h : vacuumRow tm horizon row = some kept) :
    kept = undoAbortedDeletion tm row := by
  unfold vacuumRow at h
  split at h
  · cases h
  · simp only at h
    split at h
    · cases h
    · exact (Option.some.inj h).symm

theorem undoDeletion_values (tm : TransactionManager) (row : Row) :
    (undoAbortedDeletion tm row).values = row.values := by
  unfold undoAbortedDeletion
  split <;> rfl

theorem vacuumRow_values {new : Row} (kept : vacuumRow tm horizon row = some new) :
    new.values = row.values :=
  (congrArg Row.values (vacuumRow_eq_some kept)).trans (undoDeletion_values tm row)

end Vacuumed

theorem freezeRows_values {xid : Nat} :
    ∀ row ∈ freezeRows xid rows, ∃ old ∈ rows, row.values = old.values := by
  intro row mem
  obtain ⟨old, kept, eq⟩ := List.mem_map.mp mem
  refine ⟨old, List.mem_of_mem_filter kept, ?_⟩
  rw [← eq]
  split <;> rfl

theorem vacuumRows_values {tm : TransactionManager} :
    ∀ row ∈ rows.filterMap (vacuumRow tm horizon), ∃ old ∈ rows, row.values = old.values := by
  intro row mem
  obtain ⟨old, isOld, kept⟩ := List.mem_filterMap.mp mem
  exact ⟨old, isOld, vacuumRow_values kept⟩

theorem vacuumVersions_rows {t : Table} (h : t.getAllRows = .ok rows) (tm : TransactionManager) :
    (t.vacuumVersions tm).1.getAllRows =
      .ok (rows.filterMap (vacuumRow tm tm.getVacuumHorizon)) := by
  refine getAllRows_map_some _ _ ?_
  unfold vacuumVersions
  rw [h]
  simp only [andThen_markDirty_dir, rebuildIndexes_dir]

end NobugDb.Table
