import NobugDb.Core.Proofs.IndexBuilding

/-!
# Indexes under changes of the definition

Columns, indexes and keys come and go while a table has rows. The indexes stay exact through
every sequence of calls in which no column of a key is renamed, no index takes the name of a
key's index, and no row outgrows a page in place.
-/

namespace NobugDb

open Misc (AssocMap Meets run lookup_assign lookup_erase)
open List (getElem?_map mem_filter mem_map mem_of_mem_filter not_mem_nil)

namespace Table


variable {t u : Table} {row : Row} {i : Nat} {c name : String} {columns : List String}

/-! ## Rows and checks -/

variable {rows : List Row} {f : Column → Column}

/-- The stored rows are replaced by versions of some of them, and the indexes rebuilt. -/
theorem Indexed.rewrite (idx : t.Indexed) {kept : List Row} (stored : t.getAllRows = .ok rows)
    (vals : ∀ row ∈ kept, ∃ old ∈ rows, row.values = old.values) :
    (andThen (Table.rebuildIndexes { t with directory := kept.map some })
      (fun t => (t.markDirty, .ok ()))).1.Indexed := by
  have maint : Maintained { t with directory := kept.map some } :=
    idx.maintained.of_same ⟨rfl, rfl, rfl, rfl, rfl⟩ (idx.maintained.versions stored vals)
  obtain ⟨u, rebuilt, done⟩ := maint.rebuildIndexes
  rw [rebuilt]
  exact done.mark

theorem Indexed.setChecks (idx : t.Indexed) (checks : List CheckConstraint) :
    Indexed { t with checks := checks } :=
  idx.redefine ⟨rfl, rfl, rfl, rfl, rfl, fun _ _ => id, idx.maintained.primary,
    idx.maintained.unique⟩

/-! ## Dropping indexes and keys -/

/-- The table without the index definitions of some names, and without their indexes. -/
def withoutNames (t : Table) (gone : String → Bool) : Table :=
  { t with
    secondaryIndexes := t.secondaryIndexes.filter (fun e => !gone e.1)
    constraintIndexes := t.constraintIndexes.filter (fun e => !gone e.1)
    namedIndices := t.namedIndices.filter (fun e => !gone e.1) }

theorem Maintained.withoutNames (maint : t.Maintained) (gone : String → Bool) :
    (t.withoutNames gone).Maintained where
  rows := maint.rowsAs rfl
  secondary := fun e mem => maint.secondary e (mem_of_mem_filter mem)
  constraint := fun e mem => maint.constraint e (mem_of_mem_filter mem)
  primary := maint.primary
  unique := maint.unique
  distinct := maint.distinct
  secondaryOrder := maint.secondaryOrder.filter _
  constraintOrder := maint.constraintOrder.filter _
  free := fun e mem => maint.free e (mem_of_mem_filter mem)
  reserved := fun e mem => maint.reserved e (mem_of_mem_filter mem)

theorem Indexed.withoutNames (idx : t.Indexed) (gone : String → Bool) :
    (t.withoutNames gone).Indexed := by
  have defs : (t.withoutNames gone).indexDefinitions =
      t.indexDefinitions.filter (fun e => !gone e.1) := by
    rw [indexDefinitions, indexDefinitions, List.filter_append]
    rfl
  have named : ∀ name, (t.withoutNames gone).namedIndices.lookup name =
      if (!gone name) = true then t.namedIndices.lookup name else none :=
    fun name => Misc.lookup_filter_keys (fun name => !gone name) name t.namedIndices
  refine ⟨idx.maintained.withoutNames gone, idx.exact.columns, ?_, ?_, ?_⟩
  · rw [defs]
    exact fun e mem => idx.exact.known e (mem_of_mem_filter mem)
  · rw [defs]
    intro e mem
    obtain ⟨isDef, stays⟩ := mem_filter.mp mem
    rw [named, if_pos stays]
    exact idx.exact.named e isDef
  · intro name index hit
    rw [named] at hit
    split at hit
    · rename_i stays
      obtain ⟨e, mem, eq⟩ := mem_map.mp (idx.exact.defined name index hit)
      rw [defs]
      exact mem_map.mpr ⟨e, mem_filter.mpr ⟨mem, eq ▸ stays⟩, eq⟩
    · cases hit

theorem Indexed.dropConstraintIndex (idx : t.Indexed) (taken : reservedName name = true) :
    (t.dropConstraintIndex name).Indexed := by
  have eq : t.dropConstraintIndex name = t.withoutNames (fun ne => decide (ne = name)) := by
    have others : t.secondaryIndexes.filter (fun e => !decide (e.1 = name)) = t.secondaryIndexes := by
      refine List.filter_eq_self.mpr (fun e mem => ?_)
      have isFree := idx.maintained.free e mem
      have apart : e.1 ≠ name := by
        rintro rfl
        rw [taken] at isFree
        cases isFree
      simpa using apart
    simp only [Table.dropConstraintIndex, Table.withoutNames, others, AssocMap.erase, ne_eq, decide_not]
  rw [eq]
  exact idx.withoutNames _

theorem modifyColumn_names (c : String) (keeps : ∀ c, (f c).name = c.name) (t : Table) :
    (t.modifyColumn c f).columns.map (·.name) = t.columns.map (·.name) := by
  unfold modifyColumn
  split
  · rfl
  · dsimp only
    refine List.ext_getElem? (fun j => ?_)
    rw [getElem?_map, getElem?_map, List.getElem?_modify]
    cases t.columns[j]? with
    | none => rfl
    | some col =>
      simp only [Option.map_eq_map, Option.map_some]
      split
      · rw [keeps col]
      · rfl

theorem setPrimaryKey_name (isPrimaryKey : Bool) (c : Column) :
    (Column.setPrimaryKey isPrimaryKey c).name = c.name := rfl

theorem setUnique_name (isUnique : Bool) (c : Column) :
    (Column.setUnique isUnique c).name = c.name := rfl

theorem foldl_modifyColumn_names (keeps : ∀ c, (f c).name = c.name) (columns : List String) (t : Table) :
    (columns.foldl (fun t c => t.modifyColumn c f) t).columns.map (·.name) =
      t.columns.map (·.name) := by
  induction columns generalizing t with
  | nil => rfl
  | cons c columns ih =>
    rw [List.foldl_cons, ih]
    exact modifyColumn_names c keeps t

theorem Indexed.modifyColumn (idx : t.Indexed) (c : String) (keeps : ∀ c, (f c).name = c.name) :
    (t.modifyColumn c f).Indexed := by
  refine idx.redefine ?_
  have names := modifyColumn_names c keeps t
  unfold Table.modifyColumn at names ⊢
  split
  · exact ⟨rfl, rfl, rfl, rfl, rfl, fun _ _ => id, idx.maintained.primary,
      idx.maintained.unique⟩
  · rename_i i hit
    rw [hit] at names
    exact ⟨names, rfl, rfl, rfl, rfl, fun _ _ => id, idx.maintained.primary, idx.maintained.unique⟩

theorem Indexed.eraseColumnIndex (idx : t.Indexed) (c : String) :
    Indexed { t with columnIndices := AssocMap.erase c t.columnIndices } := by
  refine idx.redefine ⟨rfl, rfl, rfl, rfl, rfl, ?_, idx.maintained.primary, idx.maintained.unique⟩
  intro d index hit
  rw [lookup_erase] at hit
  split at hit
  · cases hit
  · exact hit

theorem Indexed.clearFlag (idx : t.Indexed) {set : Bool → Column → Column}
    (keeps : ∀ b c, (set b c).name = c.name) (ne : Column → Bool) (c : String) :
    (clearFlag set ne c t).Indexed := by
  unfold Table.clearFlag
  split
  · exact idx
  · dsimp only
    have modified := idx.modifyColumn c (keeps false)
    split
    · exact modified
    · exact modified.eraseColumnIndex c

theorem Indexed.foldl {α : Type} {f : Table → α → Table} (each : ∀ t a, t.Indexed → (f t a).Indexed)
    (idx : t.Indexed) (l : List α) : (l.foldl f t).Indexed := by
  induction l generalizing t with
  | nil => exact idx
  | cons a l ih => exact ih (each t a idx)

section

variable (idx : t.Indexed)
include idx

theorem Indexed.syncKeyMetadata : t.syncKeyMetadata.Indexed :=
  idx.redefine (syncMetadata_redefines idx.maintained)

theorem Indexed.setPrimaryKeyColumns (known : t.KnownColumns columns) :
    Indexed { t with primaryKeyColumns := columns } :=
  idx.redefine ⟨rfl, rfl, rfl, rfl, rfl, fun _ _ => id, known, idx.maintained.unique⟩

theorem Indexed.setUniqueConstraints {constraints : List UniqueConstraint}
    (known : ∀ uq ∈ constraints, t.KnownColumns uq.columns) :
    Indexed { t with uniqueConstraints := constraints } :=
  idx.redefine ⟨rfl, rfl, rfl, rfl, rfl, fun _ _ => id, idx.maintained.primary, known⟩

theorem Indexed.dropPrimaryKey : t.dropPrimaryKey.1.Indexed := by
  have synced := idx.syncKeyMetadata
  unfold Table.dropPrimaryKey
  dsimp only
  split
  · exact synced
  · have dropped := @Indexed.dropConstraintIndex _ primaryKeyIndexName synced (by decide)
    have cleared := Indexed.foldl (fun _ c idx =>
      idx.clearFlag setPrimaryKey_name (·.unique) c) dropped t.syncKeyMetadata.primaryKeyColumns
    exact (cleared.setPrimaryKeyColumns (fun c mem => absurd mem not_mem_nil)).mark

theorem Indexed.dropUniqueConstraint (columns : List String) :
    (t.dropUniqueConstraint columns).1.Indexed := by
  unfold Table.dropUniqueConstraint
  split
  · rename_i uq _
    have dropped := idx.dropConstraintIndex (reservedName_unique uq)
    have removed {u : Table} (cleared : u.Indexed) : Indexed ({ u with
        uniqueConstraints := u.uniqueConstraints.eraseP (fun uq => uq.columns == columns) }).markDirty :=
      (cleared.setUniqueConstraints (fun uq mem =>
        cleared.maintained.unique uq (List.mem_of_mem_eraseP mem))).mark
    dsimp only
    split
    · exact removed (dropped.clearFlag setUnique_name _ _)
    · exact removed dropped
  · split
    · split
      · exact (idx.clearFlag setUnique_name _ _).mark
      · exact idx
    · exact idx

theorem Indexed.dropSecondaryIndex (hit : t.secondaryIndexes.lookup name = some columns) :
    (t.dropSecondaryIndex name columns).Indexed := by
  have isFree := idx.maintained.free _ (Misc.mem_of_lookup hit)
  have erased : Indexed { t with
      secondaryIndexes := AssocMap.erase name t.secondaryIndexes
      namedIndices := AssocMap.erase name t.namedIndices } := by
    have eq : ({ t with
        secondaryIndexes := AssocMap.erase name t.secondaryIndexes
        namedIndices := AssocMap.erase name t.namedIndices } : Table) =
        t.withoutNames (fun ne => decide (ne = name)) := by
      have others : t.constraintIndexes.filter (fun e => !decide (e.1 = name)) =
          t.constraintIndexes := by
        refine List.filter_eq_self.mpr (fun e mem => ?_)
        have apart : e.1 ≠ name := fun eq =>
          idx.maintained.apart (Misc.mem_of_lookup hit) mem eq.symm
        simpa using apart
      simp only [Table.withoutNames, others, AssocMap.erase, ne_eq, decide_not]
    rw [eq]
    exact idx.withoutNames _
  unfold Table.dropSecondaryIndex
  refine Indexed.mark ?_
  split
  · split
    · exact erased
    · exact erased.eraseColumnIndex _
  · exact erased

theorem Indexed.applyPrimaryKey (columns : List String) :
    (t.applyPrimaryKey columns).1.Indexed := by
  have synced := idx.syncKeyMetadata
  unfold Table.applyPrimaryKey
  split
  · exact idx
  · dsimp only
    split
    · exact synced
    · split
      · exact synced
      · rename_i noneMissing
        have known : t.syncKeyMetadata.KnownColumns columns := known_of_missingColumn noneMissing
        have flagged := Indexed.foldl (fun _ c idx =>
          idx.modifyColumn c (setPrimaryKey_name true)) synced columns
        have keyed := known.of_names (foldl_modifyColumn_names (setPrimaryKey_name true) columns
          t.syncKeyMetadata)
        obtain ⟨u, built, idx, -⟩ := @Indexed.ensureConstraintIndex _ primaryKeyIndexName columns
          (flagged.setPrimaryKeyColumns keyed) (by decide) keyed
        rw [built]
        dsimp only [andThen]
        refine andThen_keeps ?_ (fun _ idx => idx.mark)
        split
        · exact idx.buildIndex _
        · exact idx

theorem Indexed.applyUniqueConstraint (uq : UniqueConstraint) :
    (t.applyUniqueConstraint uq).1.Indexed := by
  unfold Table.applyUniqueConstraint
  split
  · exact idx
  · split
    · exact idx
    · rename_i noneMissing
      split
      · exact idx
      · have known : t.KnownColumns (storedUnique uq).columns := by
          have : (storedUnique uq).columns = uq.columns := by
            unfold storedUnique
            split <;> rfl
          rw [this]
          exact known_of_missingColumn noneMissing
        have added : Indexed { t with
            uniqueConstraints := t.uniqueConstraints ++ [storedUnique uq] } := by
          refine idx.setUniqueConstraints (fun ne mem => ?_)
          rcases List.mem_append.mp mem with old | new
          · exact idx.maintained.unique ne old
          · rw [List.mem_singleton.mp new]
            exact known
        -- The column index of a single column, then the constraint's own.
        refine (@andThen_keeps (fun u => u.Indexed ∧ u.KnownColumns (storedUnique uq).columns)
          _ _ ?_ ?_).1
        · split
          · rename_i column _
            have flagged := added.modifyColumn column (setUnique_name true)
            have stillKnown := known.of_names (modifyColumn_names column (setUnique_name true)
              { t with uniqueConstraints := t.uniqueConstraints ++ [storedUnique uq] })
            refine ⟨flagged.buildIndex column, stillKnown.congr ?_⟩
            unfold Table.buildIndex
            split
            · rfl
            · split <;> rfl
          · exact ⟨added, known⟩
        · rintro u ⟨idx, known⟩
          obtain ⟨v, built, next, eq⟩ :=
            idx.ensureConstraintIndex (reservedName_unique (storedUnique uq)) known
          rw [built]
          exact ⟨next.mark, known.congr eq⟩

end

/-! ## Columns -/

theorem reinsert_ok (small : ∀ row ∈ rows, fits row = true) (t : Table) :
    reinsert rows t = ({ t with directory := t.directory ++ rows.map some }, .ok ()) := by
  induction rows generalizing t with
  | nil => simp [reinsert]
  | cons row rows ih =>
    have fitsRow : fits row = true := small row (by simp)
    simp only [reinsert, appendRow, fitsRow, if_true, andThen]
    rw [ih (fun row mem => small row (by simp [mem]))]
    simp

/-- The row with NULL for a new column. -/
def widen (row : Row) : Row := { row with values := row.values ++ [.null] }

theorem columnIndex_append {col : Column} (hit : t.getColumnIndex c = some i) :
    getColumnIndex { t with columns := t.columns ++ [col] } c = some i := by
  unfold getColumnIndex at hit ⊢
  dsimp only
  rw [List.findIdx?_append, hit]
  rfl

theorem Indexed.widen (idx : t.Indexed) {col : Column}
    (isNew : col.name ∉ t.columns.map (·.name)) (isDirectory : t.directory = rows.map some)
    (small : ∀ row ∈ rows, fits (widen row) = true) :
    Indexed { t with
      columns := t.columns ++ [col]
      directory := (rows.map Table.widen).map some } := by
  have known : ∀ {columns : List String}, t.KnownColumns columns →
      KnownColumns { t with columns := t.columns ++ [col] } columns := by
    intro columns known c mem
    obtain ⟨j, hit⟩ := Option.isSome_iff_exists.mp (known c mem)
    exact Option.isSome_of_eq_some (columnIndex_append hit)
  have nodup : ((t.columns ++ [col]).map (·.name)).Nodup := by
    rw [List.map_append]
    exact idx.maintained.distinct.append (List.nodup_singleton _) (by simpa using isNew)
  have carries : Carries id Table.widen t { t with
      columns := t.columns ++ [col]
      directory := (rows.map Table.widen).map some } := by
    refine ⟨?_, ?_, ?_, nodup, by simp, by simp, rfl, fun c index hit => ⟨c, rfl, hit⟩,
      known idx.maintained.primary, fun uq mem => known (idx.maintained.unique uq mem)⟩
    · simp [isDirectory]
    · intro row stored ok
      have mem : row ∈ rows := by simpa [isDirectory] using stored
      refine ⟨?_, small row mem⟩
      simp [Table.widen, ok.arity]
    · intro c j hit
      refine ⟨columnIndex_append hit, fun row stored => ?_⟩
      obtain ⟨ne, eq, ok⟩ := idx.maintained.rows _ stored
      cases eq
      have bound : j < row.values.length := ok.arity ▸ columnIndex_lt hit
      exact List.getElem?_append_left bound
  exact idx.carry carries

theorem Indexed.addColumn (idx : t.Indexed) (col : Column)
    (small : ∀ row, some row ∈ t.directory → fits (Table.widen row) = true) :
    (t.addColumn col).1.Indexed := by
  unfold Table.addColumn
  split
  · exact idx
  · rename_i isNew
    split
    · exact idx
    · obtain ⟨rows, read, ok⟩ := idx.maintained.getAllRows
      have isDirectory := dir_of_getAllRows read
      have roomy : ∀ row ∈ rows, fits (Table.widen row) = true := by
        intro row mem
        refine small row ?_
        rw [isDirectory]
        exact List.mem_map_of_mem mem
      have allFit : ∀ row ∈ rows.map Table.widen, fits row = true := by
        intro row mem
        obtain ⟨old, isOld, rfl⟩ := mem_map.mp mem
        exact roomy old isOld
      have absent : col.name ∉ t.columns.map (·.name) := by
        intro mem
        obtain ⟨d, isCol, eq⟩ := mem_map.mp mem
        exact isNew (List.any_eq_true.mpr ⟨d, isCol, beq_iff_eq.mpr eq⟩)
      have widened := idx.widen absent isDirectory roomy
      rw [read]
      dsimp only
      rw [show (fun row : Row => ({ row with values := row.values ++ [.null] } : Row)) = Table.widen
        from rfl, reinsert_ok allFit]
      dsimp only [andThen]
      refine andThen_keeps ?_ (fun _ idx => idx.mark)
      split
      · exact widened.buildIndex _
      · exact widened

theorem fits_eraseIdx (small : fits row = true) (i : Nat) :
    fits { row with values := row.values.eraseIdx i } = true := by
  unfold fits tupleSize at small ⊢
  rw [decide_eq_true_eq] at small ⊢
  have less : ((row.values.eraseIdx i).map (fun v => 4 + valueSize v)).sum ≤
      (row.values.map (fun v => 4 + valueSize v)).sum :=
    List.Sublist.sum_le_sum ((List.eraseIdx_sublist row.values i).map _) (fun _ _ => Nat.zero_le _)
  dsimp only
  omega

/-- A column goes, with the indexes and keys that have it. -/
theorem Maintained.narrow (maint : t.Maintained) (hit : t.getColumnIndex c = some i)
    (ok : ∀ row ∈ rows, t.RowOk row) :
    Maintained { t.withoutColumn c with
      columns := t.columns.eraseIdx i
      directory := (rows.map (fun row => { row with values := row.values.eraseIdx i })).map some } := by
  have bound := columnIndex_lt hit
  have isName : (t.columns.map (·.name))[i]? = some c :=
    (columnIndex_eq_some_iff maint.distinct).mp hit
  have names : (t.columns.eraseIdx i).map (·.name) = (t.columns.map (·.name)).eraseIdx i :=
    (List.eraseIdx_map _ _ _).symm
  have known : ∀ {columns : List String}, t.KnownColumns columns → c ∉ columns →
      KnownColumns { t with columns := t.columns.eraseIdx i } columns := by
    intro columns known absent d mem
    rw [known_iff_mem]
    dsimp only
    obtain ⟨j, isCol⟩ := Option.isSome_iff_exists.mp (known d mem)
    have isOther := (columnIndex_eq_some_iff maint.distinct).mp isCol
    rw [names, List.mem_eraseIdx_iff_getElem?]
    refine ⟨j, ?_, isOther⟩
    rintro rfl
    rw [isName] at isOther
    exact absent (Option.some.inj isOther ▸ mem)
  have without : ∀ {columns : List String}, (!columns.contains c) = true → c ∉ columns := by
    intro columns kept mem
    simp [mem] at kept
  exact
    { rows := by
        refine WellFormed.rows_of_map (fun row mem => ?_)
        obtain ⟨old, isOld, rfl⟩ := List.mem_map.mp mem
        refine ⟨?_, fits_eraseIdx (ok old isOld).small i⟩
        have arity := (ok old isOld).arity
        dsimp only
        rw [List.length_eraseIdx_of_lt bound, List.length_eraseIdx_of_lt (arity ▸ bound), arity]
      secondary := by
        intro e mem
        obtain ⟨isDef, kept⟩ := List.mem_filter.mp mem
        exact known (maint.secondary e isDef) (without kept)
      constraint := by
        intro e mem
        obtain ⟨isDef, kept⟩ := List.mem_filter.mp mem
        exact known (maint.constraint e isDef) (without kept)
      primary := by
        refine known (fun d mem => ?_) (fun mem => ?_)
        · exact maint.primary d (List.mem_of_mem_filter mem)
        · have := (List.mem_filter.mp mem).2
          simp at this
      unique := by
        intro uq mem
        obtain ⟨isKey, kept⟩ := List.mem_filter.mp mem
        exact known (maint.unique uq isKey) (without kept)
      distinct := by
        dsimp only
        rw [names]
        exact maint.distinct.sublist (List.eraseIdx_sublist _ _)
      secondaryOrder := maint.secondaryOrder.filter _
      constraintOrder := maint.constraintOrder.filter _
      free := fun e mem => maint.free e (List.mem_of_mem_filter mem)
      reserved := fun e mem => maint.reserved e (List.mem_of_mem_filter mem) }

theorem Indexed.dropColumn (idx : t.Indexed) (c : String) : (t.dropColumn c).1.Indexed := by
  unfold Table.dropColumn
  split
  · exact idx
  · rename_i i hit
    split
    · exact idx
    · obtain ⟨rows, read, ok⟩ := idx.maintained.getAllRows
      have bound := columnIndex_lt hit
      have long : ∀ row ∈ rows, i < row.values.length := fun row mem =>
        (ok row mem).arity ▸ bound
      have readAfter : (t.withoutColumn c).getAllRows = .ok rows := read
      have all : removeValues i rows =
          rows.map (fun row => { row with values := row.values.eraseIdx i }) := by
        unfold removeValues
        rw [List.takeWhile_eq_self_iff.mpr (fun row mem => by simpa using long row mem)]
      have allFit : ∀ row ∈ removeValues i rows, fits row = true := by
        rw [all]
        intro row mem
        obtain ⟨old, isOld, rfl⟩ := mem_map.mp mem
        exact fits_eraseIdx (ok old isOld).small i
      have noneShort : rows.any (fun row => decide (row.values.length ≤ i)) = false := by
        rw [List.any_eq_false]
        intro row mem
        have := long row mem
        rw [decide_eq_true_eq]
        omega
      obtain ⟨u, rebuilt, done⟩ := (idx.maintained.narrow hit ok).rebuildIndexes
      dsimp only
      rw [readAfter]
      dsimp only
      rw [reinsert_ok allFit]
      dsimp only [andThen]
      rw [noneShort, all, List.nil_append]
      dsimp only at rebuilt
      simp only [Bool.false_eq_true, if_false]
      exact andThen_keeps (P := fun u => u.Indexed) (rebuilt ▸ done) (fun _ idx => idx.mark)

/-! ## Renaming -/

def renamed (oldName newName name : String) : String := if name = oldName then newName else name

section Renaming

variable {oldName newName : String}

theorem renamed_inj (apart : c ≠ newName) (apart' : name ≠ newName)
    (eq : renamed oldName newName c = renamed oldName newName name) : c = name := by
  unfold renamed at eq
  split at eq
  · rename_i isOld
    split at eq
    · rename_i isOld'
      rw [isOld, isOld']
    · exact absurd eq.symm apart'
  · split at eq
    · exact absurd eq apart
    · exact eq

theorem modify_names (nodup : (t.columns.map (·.name)).Nodup)
    (hit : t.getColumnIndex oldName = some i) (newName : String) :
    (t.columns.modify i (fun c => { c with name := newName })).map (·.name) =
      (t.columns.map (·.name)).map (renamed oldName newName) := by
  have isName := (columnIndex_eq_some_iff nodup).mp hit
  refine List.ext_getElem? (fun j => ?_)
  rw [getElem?_map, List.getElem?_modify, getElem?_map]
  cases here : t.columns[j]? with
  | none => simp [here]
  | some col =>
    have isCol : (t.columns.map (·.name))[j]? = some col.name := by
      rw [getElem?_map, here]
      rfl
    rw [isCol]
    simp only [Option.map_eq_map, Option.map_some, renamed]
    by_cases eq : i = j
    · subst eq
      rw [isName] at isCol
      rw [if_pos rfl, if_pos (Option.some.inj isCol).symm]
    · have ne : col.name ≠ oldName := by
        intro isOld
        rw [isOld] at isCol
        have twice := isName.trans isCol.symm
        have bound := (List.getElem?_eq_some_iff.mp isName).1
        exact eq ((List.getElem?_inj bound nodup).mp twice)
      rw [if_neg eq, if_neg ne]

/-- The columns of `u` are those of `t`, one of them under a new name. -/
structure Renames (oldName newName : String) (t u : Table) : Prop where
  names : u.columns.map (·.name) = (t.columns.map (·.name)).map (renamed oldName newName)
  distinct : (t.columns.map (·.name)).Nodup
  isNew : newName ∉ t.columns.map (·.name)

section

variable (renames : Renames oldName newName t u)
include renames

theorem Renames.distinct' : (u.columns.map (·.name)).Nodup := by
  rw [renames.names]
  refine renames.distinct.map_on (fun a inNames b inNames' eq => ?_)
  have apartA : a ≠ newName := fun equal => renames.isNew (equal ▸ inNames)
  have apartB : b ≠ newName := fun equal => renames.isNew (equal ▸ inNames')
  exact renamed_inj apartA apartB eq

theorem Renames.position (apart : c ≠ newName) :
    u.getColumnIndex (renamed oldName newName c) = t.getColumnIndex c := by
  refine Option.ext (fun j => ?_)
  rw [columnIndex_eq_some_iff renames.distinct', columnIndex_eq_some_iff renames.distinct,
    renames.names, getElem?_map]
  constructor
  · intro here
    obtain ⟨a, isName, eq⟩ := Option.map_eq_some_iff.mp here
    have notNew : a ≠ newName := fun equal => renames.isNew (equal ▸ List.mem_of_getElem? isName)
    rw [isName, renamed_inj notNew apart eq]
  · intro here
    rw [here]
    rfl

theorem Renames.ne_newName (known : t.KnownColumns columns) (mem : c ∈ columns) : c ≠ newName := by
  rintro rfl
  exact renames.isNew (known_iff_mem.mp (known c mem))

end

theorem map_renamed (absent : oldName ∉ columns) : columns.map (renamed oldName newName) = columns := by
  refine (List.map_congr_left (fun c mem => ?_)).trans (List.map_id columns)
  have ne : c ≠ oldName := fun eq => absent (eq ▸ mem)
  exact if_neg ne

variable {indices : AssocMap String BTreeIndex}

theorem lookup_renamed {idx : BTreeIndex}
    (hit : (match indices.lookup oldName with
      | some idx => AssocMap.assign newName idx (AssocMap.erase oldName indices)
      | none => indices).lookup c = some idx) :
    ∃ d, renamed oldName newName d = c ∧ indices.lookup d = some idx := by
  split at hit
  · rename_i moved isMoved
    rw [lookup_assign, lookup_erase] at hit
    split at hit
    · rename_i isNew
      exact ⟨oldName, (if_pos rfl).trans isNew.symm, isMoved.trans hit⟩
    · split at hit
      · cases hit
      · rename_i isNotOld
        exact ⟨c, if_neg isNotOld, hit⟩
  · rename_i noIndex
    refine ⟨c, if_neg ?_, hit⟩
    rintro rfl
    rw [noIndex] at hit
    cases hit

/-- The columns, the column indexes and the secondary indexes take the new name. -/
theorem Indexed.rename (idx : t.Indexed) {columns' : List Column}
    (renames : Renames oldName newName t { t with columns := columns' })
    (moved : ∀ c index, indices.lookup c = some index →
      ∃ d, renamed oldName newName d = c ∧ t.columnIndices.lookup d = some index)
    (constr : ∀ e ∈ t.constraintIndexes, oldName ∉ e.2) (primary : oldName ∉ t.primaryKeyColumns)
    (unique : ∀ uq ∈ t.uniqueConstraints, oldName ∉ uq.columns) :
    Indexed { t with
      columns := columns'
      columnIndices := indices
      secondaryIndexes := t.secondaryIndexes.map (fun e : String × List String =>
        (e.1, e.2.map (renamed oldName newName))) } := by
  have pos : ∀ {columns : List String}, t.KnownColumns columns → oldName ∉ columns →
      KnownColumns { t with columns := columns' } columns := by
    intro columns known absent c mem
    have same := renames.position (renames.ne_newName known mem)
    rw [renamed, if_neg (fun isOld : c = oldName => absent (isOld ▸ mem))] at same
    exact same ▸ known c mem
  have length : columns'.length = t.columns.length := by
    have := congrArg List.length renames.names
    simpa using this
  refine idx.carry (f := renamed oldName newName) (g := id) ⟨?_, ?_, ?_, renames.distinct', rfl, ?_,
    rfl, moved, pos idx.maintained.primary primary,
    fun uq mem => pos (idx.maintained.unique uq mem) (unique uq mem)⟩
  · simp
  · exact fun row _ ok => ⟨ok.arity.trans length.symm, ok.small⟩
  · intro c j hit
    have apart : c ≠ newName := by
      rintro rfl
      exact renames.isNew (known_iff_mem.mp (Option.isSome_of_eq_some hit))
    exact ⟨(renames.position apart).trans hit, fun _ _ => rfl⟩
  · refine ((List.map_congr_left (fun e mem => ?_)).trans (List.map_id _)).symm
    exact Prod.ext rfl (map_renamed (constr e mem))

/-- `rename_column` of a column that is in no key. -/
theorem Indexed.renameColumn (idx : t.Indexed) (newName : String)
    (constr : ∀ e ∈ t.constraintIndexes, oldName ∉ e.2) (primary : oldName ∉ t.primaryKeyColumns)
    (unique : ∀ uq ∈ t.uniqueConstraints, oldName ∉ uq.columns) :
    (t.renameColumn oldName newName).1.Indexed := by
  have distinct := idx.maintained.distinct
  unfold Table.renameColumn
  split
  · exact idx
  · split
    · exact idx
    · rename_i isThere
      split
      · exact idx
      · rename_i isNotThere
        rw [Bool.not_eq_true, Option.isNone_eq_false_iff] at isThere
        obtain ⟨i, hit⟩ := Option.isSome_iff_exists.mp isThere
        have isNew : newName ∉ t.columns.map (·.name) := fun mem =>
          isNotThere (known_iff_mem.mpr mem)
        have modified : t.modifyColumn oldName (fun c => { c with name := newName }) =
            { t with columns := t.columns.modify i (fun c => { c with name := newName }) } := by
          unfold Table.modifyColumn
          rw [hit]
        rw [modified]
        refine Indexed.mark ?_
        have renames : Renames oldName newName t { t with
            columns := t.columns.modify i (fun c => { c with name := newName }) } :=
          ⟨modify_names distinct hit newName, distinct, isNew⟩
        exact idx.rename renames (fun c index isIndex => lookup_renamed isIndex)
          constr primary unique

end Renaming

/-! ## All calls -/

/-- The call gives no index a name that a key's index can have, renames no column of a key, and
    leaves every row within a page. -/
def Op.keepsIndexes (t : Table) : Op → Bool
  | .updateRow _ row => fits row
  | .addColumn _ => t.directory.all (fun slot => slot.all (fun row => fits (widen row)))
  | .renameColumn oldName _ =>
    !t.constraintIndexes.any (·.2.contains oldName) && !t.primaryKeyColumns.contains oldName &&
      !t.uniqueConstraints.any (·.columns.contains oldName)
  | .createSecondaryIndex indexName _ => !reservedName indexName
  | _ => true

theorem Indexed.call (idx : t.Indexed) (fns : Functions) {op : Op}
    (keeps : op.keepsIndexes t = true) : (t.call fns op).1.Indexed := by
  cases op with
  | insertRow row => exact idx.insertRow fns row
  | updateRow i row => exact idx.updateRow fns i keeps
  | updateRowVersioned i row xid => exact idx.updateRowVersioned fns i row xid
  | deleteRow i =>
    simp only [Table.call, Table.deleteRow]
    split
    · exact idx
    · refine andThen_keeps (idx.reindexAfterDelete ?_) (fun _ idx => idx.mark)
      exact fun slot mem => idx.maintained.rows slot (List.mem_of_mem_eraseIdx mem)
  | deleteRowVersioned i xid => exact idx.deleteRowVersioned i xid
  | freezeCommittedVersions xid =>
    simp only [Table.call, Table.freezeCommittedVersions]
    split
    · exact idx
    · split
      · exact idx
      · rename_i rows stored
        split
        · exact idx.rewrite stored freezeRows_values
        · exact idx
  | vacuumVersions tm =>
    simp only [Table.call, Table.vacuumVersions]
    split
    · exact idx
    · rename_i rows stored
      exact idx.rewrite stored vacuumRows_values
  | rebuildIndexes =>
    obtain ⟨u, rebuilt, done⟩ := idx.maintained.rebuildIndexes
    simp only [Table.call, rebuilt]
    exact done
  | addColumn col =>
    refine idx.addColumn col (fun row mem => ?_)
    have roomy := List.all_eq_true.mp keeps _ mem
    simpa using roomy
  | dropColumn c => exact idx.dropColumn c
  | renameColumn oldName newName =>
    simp only [Op.keepsIndexes, Bool.and_eq_true, Bool.not_eq_true', List.any_eq_false,
      List.contains_eq_mem, decide_eq_false_iff_not, decide_eq_true_eq] at keeps
    exact idx.renameColumn newName keeps.1.1 keeps.1.2 keeps.2
  | createSecondaryIndex name columns =>
    exact idx.createSecondaryIndex (by simpa [Op.keepsIndexes] using keeps) columns
  | dropSecondaryIndex name =>
    simp only [Table.call]
    split
    · rename_i columns found
      exact idx.dropSecondaryIndex found
    · exact idx
  | applyPrimaryKey columns => exact idx.applyPrimaryKey columns
  | dropPrimaryKey => exact idx.dropPrimaryKey
  | applyUniqueConstraint uq => exact idx.applyUniqueConstraint uq
  | dropUniqueConstraint columns => exact idx.dropUniqueConstraint columns
  | setNotNull c =>
    simp only [Table.call, Table.setNotNull]
    split
    · split
      · exact idx
      · refine Indexed.mark (idx.modifyColumn c ?_)
        exact fun _ => rfl
    · exact idx
  | dropNotNull c =>
    simp only [Table.call, Table.dropNotNull]
    split
    · exact idx
    · split
      · exact idx
      · refine Indexed.mark (idx.modifyColumn c ?_)
        exact fun _ => rfl
  | addCheck check =>
    simp only [Table.call, Table.addCheck]
    split
    · exact idx
    · exact (idx.setChecks _).mark
  | dropCheck name =>
    simp only [Table.call, Table.dropCheck]
    split
    · exact (idx.setChecks _).mark
    · exact idx

theorem indexed_empty (name : String) : Indexed { name := name } where
  maintained :=
    { rows := fun _ mem => absurd mem List.not_mem_nil
      secondary := fun _ mem => absurd mem List.not_mem_nil
      constraint := fun _ mem => absurd mem List.not_mem_nil
      primary := fun _ mem => absurd mem List.not_mem_nil
      unique := fun _ mem => absurd mem List.not_mem_nil
      distinct := List.nodup_nil
      secondaryOrder := List.Pairwise.nil
      constraintOrder := List.Pairwise.nil
      free := fun _ mem => absurd mem List.not_mem_nil
      reserved := fun _ mem => absurd mem List.not_mem_nil }
  exact :=
    { columns := fun _ _ hit => nomatch hit
      known := fun _ mem => absurd mem List.not_mem_nil
      named := fun _ mem => absurd mem List.not_mem_nil
      defined := fun _ _ hit => nomatch hit }

/-- After every sequence of calls that keep to the condition, each index maps each key without
    NULL to the positions of the rows that hold it, and is over columns of the table. -/
theorem indexes_exact_run (fns : Functions) (name : String) (ops : List Op)
    (keeps : Meets (after fns) (fun t op => op.keepsIndexes t = true) { name := name } ops) :
    (run (after fns) { name := name } ops).IndexesExact :=
  (keeps.invariant (fun _ _ indexed ok => indexed.call fns ok) (indexed_empty name)).exact

section Runs

private def constants : Functions :=
  ⟨fun _ _ err => .ok (.null, err), fun text _ => .ok (.string text)⟩

private def idColumn : Column := ⟨"id", .int, false, true, false, none⟩

private def cityColumn : Column := ⟨"city", .int, true, false, false, none⟩

/-- Users by city: rows come, change and go, the column is renamed, and the key is dropped. -/
private def movingUsers : List Op :=
  [.addColumn idColumn, .addColumn cityColumn, .rebuildIndexes,
    .createSecondaryIndex "by_city" ["city"], .insertRow ⟨[.int 1, .int 7], 0, 0⟩,
    .insertRow ⟨[.int 2, .int 7], 0, 0⟩, .updateRow 0 ⟨[.int 1, .int 9], 0, 0⟩,
    .renameColumn "city" "town", .deleteRow 0, .dropPrimaryKey]

/-- The indexes of the users are exact at the end, and the one by city finds who is left. -/
theorem moving_users_indexed :
    (run (after constants) { name := "users" } movingUsers).IndexesExact ∧
      ((run (after constants) { name := "users" } movingUsers).namedIndices.lookup "by_city").map
        (·.findEqual [.int 7]) = some [0] :=
  ⟨indexes_exact_run constants "users" movingUsers (by decide +kernel), by decide +kernel⟩

/-- A renamed PRIMARY KEY column leaves its index over a column that is not there, and every
    INSERT fails. An index called `__pk` shares the tree of the key's index: the key 7, which no
    user has, leads to the user in city 7. -/
theorem renamed_key_strands_index :
    let t := run (after constants) { name := "users" }
      [.addColumn idColumn, .rebuildIndexes, .renameColumn "id" "uid"]
    let u := run (after constants) { name := "users" }
      [.addColumn idColumn, .addColumn cityColumn, .rebuildIndexes,
        .createSecondaryIndex "__pk" ["city"], .insertRow ⟨[.int 1, .int 7], 0, 0⟩]
    ¬ t.IndexesExact ∧ t.constraintIndexes = [("__pk", ["id"])] ∧ t.getColumnIndex "id" = none ∧
      (t.insertRow constants ⟨[.int 5], 0, 0⟩).2 = .error ⟨.notFound, "Column 'id' not found"⟩ ∧
      u.constraintIndexes = [("__pk", ["id"])] ∧ u.directory = [some ⟨[.int 1, .int 7], 0, 0⟩] ∧
      (u.namedIndices.lookup "__pk").map (·.findEqual [.int 7]) = some [0] := by
  refine ⟨fun exact => ?_, by decide +kernel⟩
  have known := exact.known ("__pk", ["id"]) (by decide +kernel) "id" (by simp)
  revert known
  decide +kernel

end Runs

end Table

end NobugDb
