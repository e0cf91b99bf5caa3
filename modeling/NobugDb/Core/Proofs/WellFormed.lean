import NobugDb.Core.Database
import NobugDb.Core.Proofs.Rows

/-!
# Well-formed tables

A table is well formed when each row it stores has a value for every column and fits a page,
and each index and key names columns the table has. On such a table index maintenance does not
throw, so a write that passes its checks takes effect, and one that fails changes nothing. Every
operation leaves a well-formed table.
-/

namespace NobugDb.Table

open Misc (AssocMap)

/-- Every column is one of the table's. -/
def KnownColumns (t : Table) (columns : List String) : Prop :=
  ∀ c ∈ columns, (t.getColumnIndex c).isSome = true

/-- The row can be stored in the table. -/
structure RowOk (t : Table) (row : Row) : Prop where
  arity : row.values.length = t.columns.length
  small : fits row = true

structure WellFormed (t : Table) : Prop where
  rows : ∀ slot ∈ t.directory, ∃ row, slot = some row ∧ t.RowOk row
  secondary : ∀ e ∈ t.secondaryIndexes, t.KnownColumns e.2
  constraint : ∀ e ∈ t.constraintIndexes, t.KnownColumns e.2
  primary : t.KnownColumns t.primaryKeyColumns
  unique : ∀ uq ∈ t.uniqueConstraints, t.KnownColumns uq.columns

/-- The tables define the same columns, indexes and keys. -/
structure SameDefinitions (t u : Table) : Prop where
  columns : u.columns = t.columns
  secondary : u.secondaryIndexes = t.secondaryIndexes
  constraint : u.constraintIndexes = t.constraintIndexes
  primary : u.primaryKeyColumns = t.primaryKeyColumns
  unique : u.uniqueConstraints = t.uniqueConstraints

variable {t u : Table}

theorem SameDefinitions.refl (t : Table) : SameDefinitions t t := ⟨rfl, rfl, rfl, rfl, rfl⟩

variable {row : Row} {v : Table} {columns : List String} {rows : List Row} (fns : Functions)
  {c : String} {i : Nat} {key : Row → Except Exn IndexKey} {idxs : AssocMap String (List String)}

theorem SameDefinitions.trans (fst : SameDefinitions t u) (snd : SameDefinitions u v) :
    SameDefinitions t v :=
  ⟨snd.columns.trans fst.columns, snd.secondary.trans fst.secondary,
    snd.constraint.trans fst.constraint, snd.primary.trans fst.primary,
    snd.unique.trans fst.unique⟩

theorem KnownColumns.congr (known : t.KnownColumns columns) (eq : u.columns = t.columns) :
    u.KnownColumns columns := by
  intro c mem
  have := known c mem
  unfold getColumnIndex at this ⊢
  rwa [eq]

theorem RowOk.congr (ok : t.RowOk row) (eq : u.columns = t.columns) : u.RowOk row :=
  ⟨by rw [eq]; exact ok.arity, ok.small⟩

theorem WellFormed.rowsAs (wf : u.WellFormed) (eq : t.columns = u.columns) :
    ∀ slot ∈ u.directory, ∃ row, slot = some row ∧ t.RowOk row := by
  intro slot mem
  obtain ⟨row, isRow, ok⟩ := wf.rows slot mem
  exact ⟨row, isRow, ok.congr eq⟩

theorem WellFormed.of_same (wf : t.WellFormed) (eq : SameDefinitions t u)
    (rows : ∀ slot ∈ u.directory, ∃ row, slot = some row ∧ t.RowOk row) : u.WellFormed where
  rows := by
    intro slot mem
    obtain ⟨row, isRow, ok⟩ := rows slot mem
    exact ⟨row, isRow, ok.congr eq.columns⟩
  secondary := by
    rw [eq.secondary]
    exact fun e mem => (wf.secondary e mem).congr eq.columns
  constraint := by
    rw [eq.constraint]
    exact fun e mem => (wf.constraint e mem).congr eq.columns
  primary := by
    rw [eq.primary]
    exact wf.primary.congr eq.columns
  unique := by
    rw [eq.unique]
    exact fun uq mem => (wf.unique uq mem).congr eq.columns

theorem RowOk.of_values {other : Row} (ok : t.RowOk row) (eq : other.values = row.values) :
    t.RowOk other := by
  refine ⟨by rw [eq]; exact ok.arity, ?_⟩
  have := ok.small
  unfold fits tupleSize at this ⊢
  rwa [eq]

/-! ## Reading -/

theorem WellFormed.getAllRows (wf : t.WellFormed) :
    ∃ rows : List Row, t.getAllRows = .ok rows ∧ ∀ row ∈ rows, t.RowOk row := by
  have all : ∀ slots : List (Option Row), (∀ slot ∈ slots, ∃ row, slot = some row ∧ t.RowOk row) →
      ∃ rows : List Row, slots = rows.map some ∧ ∀ row ∈ rows, t.RowOk row := by
    intro slots
    induction slots with
    | nil => exact fun _ => ⟨[], rfl, by simp⟩
    | cons slot slots ih =>
      intro ok
      obtain ⟨row, isRow, rowOk⟩ := ok slot (by simp)
      obtain ⟨rows, isRows, rowsOk⟩ := ih (fun slot mem => ok slot (by simp [mem]))
      refine ⟨row :: rows, by simp [isRow, isRows], ?_⟩
      simpa using ⟨rowOk, rowsOk⟩
  obtain ⟨rows, isRows, ok⟩ := all t.directory wf.rows
  exact ⟨rows, getAllRows_map_some t rows isRows, ok⟩

theorem WellFormed.rows_of_map (ok : ∀ row ∈ rows, t.RowOk row) :
    ∀ slot ∈ rows.map some, ∃ row, slot = some row ∧ t.RowOk row := by
  intro slot mem
  obtain ⟨row, inRows, rfl⟩ := List.mem_map.mp mem
  exact ⟨row, rfl, ok row inRows⟩

/-! ## Index keys -/

theorem columnIndex_lt (hit : t.getColumnIndex c = some i) : i < t.columns.length := by
  obtain ⟨h, -⟩ := List.findIdx?_eq_some_iff_getElem.mp hit
  exact h

theorem buildIndexKey_ok (length : row.values.length = t.columns.length)
    (known : t.KnownColumns columns) : ∃ key, t.buildIndexKey row columns = .ok key := by
  unfold buildIndexKey
  induction columns with
  | nil => exact ⟨[], rfl⟩
  | cons c columns ih =>
    obtain ⟨key, rest⟩ := ih (fun c mem => known c (by simp [mem]))
    obtain ⟨i, hit⟩ := Option.isSome_iff_exists.mp (known c (by simp))
    have inRow : i < row.values.length := by
      rw [length]
      exact columnIndex_lt hit
    refine ⟨row.values[i] :: key, ?_⟩
    rw [List.mapM_cons, rest]
    simp only [hit, Row.getValue?, List.getElem?_eq_getElem inRow]
    rfl

theorem fillIndex_ok_iff :
    (∃ idx, fillIndex key rows = .ok idx) ↔ ∀ row ∈ rows, ∃ k, key row = .ok k := by
  have loop : ∀ (es : List (Row × Nat)) (start : BTreeIndex), (∃ idx, es.foldlM
        (fun idx p => do return idx.insert (← key p.1) p.2) start = Except.ok idx) ↔
      ∀ p ∈ es, ∃ k, key p.1 = .ok k := by
    intro es
    induction es with
    | nil => simp [pure, Except.pure]
    | cons p es ih =>
      intro start
      rw [List.foldlM_cons, List.forall_mem_cons]
      cases isKey : key p.1 with
      | error e => simp [bind, Except.bind]
      | ok k =>
        rw [← ih (start.insert k p.2)]
        exact ⟨fun filled => ⟨⟨k, rfl⟩, filled⟩, fun filled => filled.2⟩
  have firsts := @List.forall_mem_map _ _ Prod.fst rows.zipIdx (fun row => ∃ k, key row = .ok k)
  rw [List.zipIdx_map_fst] at firsts
  exact (loop rows.zipIdx .null).trans firsts.symm

theorem WellFormed.fill (wf : t.WellFormed) (ok : ∀ row, t.RowOk row → ∃ k, key row = .ok k) :
    ∃ idx, t.getAllRows.bind (fillIndex key) = .ok idx := by
  obtain ⟨rows, read, rowsOk⟩ := wf.getAllRows
  rw [read]
  exact fillIndex_ok_iff.mpr (fun row mem => ok row (rowsOk row mem))

/-! ## Index maintenance -/

theorem touchNamed_ok (length : row.values.length = t.columns.length)
    (f : BTreeIndex → IndexKey → BTreeIndex)
    (known : ∀ e ∈ idxs, t.KnownColumns e.2) (named : AssocMap String BTreeIndex) :
    (t.touchNamedIndices row f idxs named).2 = .ok () := by
  induction idxs generalizing named with
  | nil => rfl
  | cons e idxs ih =>
    obtain ⟨name, columns⟩ := e
    have rest := ih (fun e mem => known e (by simp [mem]))
    obtain ⟨key, isKey⟩ := buildIndexKey_ok length (known (name, columns) (by simp))
    unfold touchNamedIndices
    split
    · simp only [isKey]
      exact rest _
    · exact rest _

/-- `insert_into_indexes` and `remove_from_indexes` touch nothing but indexes, and do not throw. -/
theorem touchIndexes_ok (wf : t.WellFormed) (length : row.values.length = t.columns.length)
    (f : BTreeIndex → IndexKey → BTreeIndex) :
    ∃ columnIndices namedIndices, t.touchIndexes row f =
      ({ t with columnIndices := columnIndices, namedIndices := namedIndices }, .ok ()) := by
  unfold touchIndexes
  generalize columnsTouched : ({ t with columnIndices := t.touchColumnIndices row f } : Table) = u
  have columns : row.values.length = u.columns.length := by rw [← columnsTouched, length]
  have sec : ∀ e ∈ u.secondaryIndexes, u.KnownColumns e.2 := by
    rw [← columnsTouched]
    exact wf.secondary
  have constr : ∀ e ∈ u.constraintIndexes, u.KnownColumns e.2 := by
    rw [← columnsTouched]
    exact wf.constraint
  have fst := touchNamed_ok columns f sec u.namedIndices
  have second := touchNamed_ok columns f constr
    (u.touchNamedIndices row f u.secondaryIndexes u.namedIndices).1
  simp only [fst, second]
  subst columnsTouched
  exact ⟨_, _, rfl⟩

/-! ## Building indexes -/

/-- The PRIMARY KEY after `sync_key_metadata_from_column_flags`. -/
def declaredKey (t : Table) : List String :=
  if t.primaryKeyColumns.isEmpty then (t.columns.filter (·.primaryKey)).map (·.name)
  else t.primaryKeyColumns

structure SameKeys (t u : Table) : Prop where
  columns : u.columns = t.columns
  primary : u.declaredKey = t.declaredKey
  unique : u.uniqueConstraints = t.uniqueConstraints

theorem SameKeys.of_left (snd : SameKeys u v) (fst : SameKeys t u) : SameKeys t v :=
  ⟨snd.columns.trans fst.columns, snd.primary.trans fst.primary, snd.unique.trans fst.unique⟩

theorem SameKeys.refl (t : Table) : SameKeys t t := ⟨rfl, rfl, rfl⟩

/-- Nothing but indexes differs: `u` is well formed with the rows of `t`. -/
structure Reindexed (t u : Table) : Prop where
  wf : u.WellFormed
  directory : u.directory = t.directory
  keys : SameKeys t u

theorem Reindexed.refl (wf : t.WellFormed) : Reindexed t t := ⟨wf, rfl, .refl t⟩

theorem Reindexed.trans (fst : Reindexed t u) (snd : Reindexed u v) : Reindexed t v :=
  ⟨snd.wf, snd.directory.trans fst.directory, snd.keys.of_left fst.keys⟩

theorem seq_ok {P : Table → Prop} {steps : List (Table → Table × Except Exn Unit)}
    (each : ∀ step ∈ steps, ∀ u, P u → ∃ v, step u = (v, .ok ()) ∧ P v) {u : Table} (start : P u) :
    ∃ v, sequence steps u = (v, .ok ()) ∧ P v := by
  induction steps generalizing u with
  | nil => exact ⟨u, rfl, start⟩
  | cons step steps ih =>
    obtain ⟨v, taken, holds⟩ := each step (by simp) u start
    obtain ⟨w, rest, holds⟩ := ih (fun step mem => each step (by simp [mem])) holds
    refine ⟨w, ?_, holds⟩
    unfold sequence
    rw [taken]
    exact rest

section

variable (wf : t.WellFormed)
include wf

theorem WellFormed.setIndices (columnIndices namedIndices : AssocMap String BTreeIndex) :
    ({ t with columnIndices := columnIndices, namedIndices := namedIndices } : Table).WellFormed :=
  wf.of_same ⟨rfl, rfl, rfl, rfl, rfl⟩ wf.rows

theorem buildIndex_filled (hit : t.getColumnIndex c = some i) :
    ∃ idx, t.getAllRows.bind (fillIndex (fun row => .ok [(row.getValue? i).getD .null])) = .ok idx ∧
      t.buildIndex c =
        ({ t with columnIndices := AssocMap.assign c idx t.columnIndices }, .ok ()) := by
  obtain ⟨idx, filled⟩ := @WellFormed.fill t (fun row => .ok [(row.getValue? i).getD .null])
    wf (fun row _ => ⟨_, rfl⟩)
  exact ⟨idx, filled, by simp only [buildIndex, hit, filled]⟩

theorem buildIndex_ok (known : (t.getColumnIndex c).isSome = true) :
    ∃ u, t.buildIndex c = (u, .ok ()) ∧ Reindexed t u := by
  obtain ⟨i, hit⟩ := Option.isSome_iff_exists.mp known
  obtain ⟨idx, -, built⟩ := buildIndex_filled wf hit
  exact ⟨_, built, wf.setIndices _ t.namedIndices, rfl, ⟨rfl, rfl, rfl⟩⟩

theorem buildNamed_filled
    {name : String} (hit : idxs.lookup name = some columns) (known : t.KnownColumns columns) :
    ∃ idx, t.getAllRows.bind (fillIndex (fun row => t.buildIndexKey row columns)) = .ok idx ∧
      t.buildNamedIndex idxs name =
        ({ t with namedIndices := AssocMap.assign name idx t.namedIndices }, .ok ()) := by
  obtain ⟨idx, filled⟩ := @WellFormed.fill t (fun row => t.buildIndexKey row columns) wf
    (fun row ok => buildIndexKey_ok ok.arity known)
  exact ⟨idx, filled, by simp only [buildNamedIndex, hit, filled]⟩

theorem buildNamed_ok (known : ∀ e ∈ idxs, t.KnownColumns e.2) (name : String) :
    ∃ u, t.buildNamedIndex idxs name = (u, .ok ()) ∧ Reindexed t u := by
  cases hit : idxs.lookup name with
  | none => exact ⟨t, by simp only [buildNamedIndex, hit], .refl wf⟩
  | some columns =>
    obtain ⟨idx, -, built⟩ := buildNamed_filled wf hit (known _ (Misc.mem_of_lookup hit))
    exact ⟨_, built, wf.setIndices t.columnIndices _, rfl, ⟨rfl, rfl, rfl⟩⟩

theorem constraintIndex_ok (name : String) (known : t.KnownColumns columns) :
    ∃ u, t.ensureConstraintIndex name columns = (u, .ok ()) ∧ Reindexed t u := by
  have reg : ({ t with
      constraintIndexes := AssocMap.assign name columns t.constraintIndexes } : Table).WellFormed :=
    { rows := wf.rowsAs rfl
      secondary := wf.secondary
      constraint := AssocMap.forall_mem_assign known wf.constraint
      primary := wf.primary
      unique := wf.unique }
  obtain ⟨u, built, reindexed⟩ := buildNamed_ok reg reg.constraint name
  exact ⟨u, built, reindexed.wf, reindexed.directory, reindexed.keys.of_left ⟨rfl, rfl, rfl⟩⟩

theorem ensureMissing_ok (name : String) (known : t.KnownColumns columns) :
    ∃ u, t.ensureMissing name columns = (u, .ok ()) ∧ Reindexed t u := by
  unfold ensureMissing
  split
  · exact ⟨t, rfl, .refl wf⟩
  · exact constraintIndex_ok wf name known

end

theorem knownColumns_of_mem {columns : List Column} (sub : ∀ c ∈ columns, c ∈ t.columns) :
    t.KnownColumns (columns.map (·.name)) := by
  intro name mem
  obtain ⟨c, inColumns, rfl⟩ := List.mem_map.mp mem
  unfold getColumnIndex
  rw [List.findIdx?_isSome, List.any_eq_true]
  exact ⟨c, sub c inColumns, by simp⟩

theorem syncMetadata_wf (wf : t.WellFormed) : t.syncKeyMetadata.WellFormed := by
  unfold syncKeyMetadata
  split
  · exact
      { rows := wf.rowsAs rfl
        secondary := wf.secondary
        constraint := wf.constraint
        primary := knownColumns_of_mem (fun c mem => (List.mem_filter.mp mem).1)
        unique := wf.unique }
  · exact wf

theorem syncMetadata_keys : SameKeys t t.syncKeyMetadata := by
  unfold syncKeyMetadata
  split
  · rename_i unset
    refine ⟨rfl, ?_, rfl⟩
    simp only [declaredKey, unset, if_true]
    split <;> rfl
  · exact .refl t

theorem rebuildIndexes_ok (wf : t.WellFormed) :
    ∃ u, t.rebuildIndexes = (u, .ok ()) ∧ Reindexed t u := by
  unfold rebuildIndexes
  generalize cleared : syncKeyMetadata { t with columnIndices := [], namedIndices := [] } = v
  have vwf : v.WellFormed := cleared ▸ syncMetadata_wf (wf.setIndices [] [])
  have vdir : v.directory = t.directory := cleared ▸ syncMetadata_dir _
  have vkeys : SameKeys t v := by
    rw [← cleared]
    exact syncMetadata_keys.of_left ⟨rfl, rfl, rfl⟩
  have known : ∀ {w : Table}, Reindexed t w → ∀ {columns : List String}, v.KnownColumns columns →
      w.KnownColumns columns :=
    fun refill _ known => known.congr (refill.keys.columns.trans vkeys.columns.symm)
  -- Every step works on a table that differs from `t` in its indexes only.
  refine seq_ok ?_ ⟨vwf, vdir, vkeys⟩
  intro step mem w refill
  simp only [List.mem_append, List.mem_map] at mem
  rcases mem with (((⟨c, inColumns, rfl⟩ | ⟨e, -, rfl⟩) | ⟨e, -, rfl⟩) | mem) | ⟨uq, inUnique, rfl⟩
  · have isCol : v.KnownColumns ([c].map (·.name)) :=
      knownColumns_of_mem (by simpa using (List.mem_filter.mp inColumns).1)
    obtain ⟨x, built, next⟩ :=
      buildIndex_ok refill.wf (known refill isCol c.name (by simp))
    exact ⟨x, built, refill.trans next⟩
  · obtain ⟨x, built, next⟩ := buildNamed_ok refill.wf refill.wf.secondary e.1
    exact ⟨x, built, refill.trans next⟩
  · obtain ⟨x, built, next⟩ := buildNamed_ok refill.wf refill.wf.constraint e.1
    exact ⟨x, built, refill.trans next⟩
  · split at mem
    · cases mem
    · obtain rfl := List.mem_singleton.mp mem
      obtain ⟨x, built, next⟩ := ensureMissing_ok refill.wf primaryKeyIndexName
        (known refill vwf.primary)
      exact ⟨x, built, refill.trans next⟩
  · obtain ⟨x, built, next⟩ := ensureMissing_ok refill.wf (uniqueConstraintIndexName uq)
      (known refill (vwf.unique uq inUnique))
    exact ⟨x, built, refill.trans next⟩

/-- `reindex_after_delete` for one named index. -/
def refillNamed (e : String × List String) (t : Table) : Table × Except Exn Unit :=
  if t.namedIndices.contains e.1 then
    match t.getAllRows.bind (fillIndex (fun row => t.buildIndexKey row e.2)) with
    | .error exn =>
      ({ t with namedIndices := AssocMap.adjust e.1 BTreeIndex.clear t.namedIndices }, .error exn)
    | .ok index =>
      ({ t with namedIndices := AssocMap.adjust e.1 (fun _ => index) t.namedIndices }, .ok ())
  else (t, .ok ())

/-- `reindex_after_delete` for one column index. -/
def refillColumn (e : String × BTreeIndex) (t : Table) : Table × Except Exn Unit :=
  match t.getColumnIndex e.1 with
  | none =>
    ({ t with columnIndices := AssocMap.adjust e.1 BTreeIndex.clear t.columnIndices }, .ok ())
  | some _ => t.buildIndex e.1

theorem reindex_ok (wf : t.WellFormed) :
    ∃ u, t.reindexAfterDelete = (u, .ok ()) ∧ Reindexed t u := by
  -- A named index is refilled over its columns.
  have refill : ∀ (e : String × List String) (w : Table), t.KnownColumns e.2 → Reindexed t w →
      ∃ x, refillNamed e w = (x, .ok ()) ∧ Reindexed t x := by
    intro e w knownColumns reindexed
    unfold refillNamed
    split
    · obtain ⟨idx, filled⟩ := @WellFormed.fill w (fun row => w.buildIndexKey row e.2) reindexed.wf
        (fun row ok => buildIndexKey_ok ok.arity (knownColumns.congr reindexed.keys.columns))
      simp only [filled]
      exact ⟨_, rfl, reindexed.trans ⟨reindexed.wf.setIndices w.columnIndices _, rfl, ⟨rfl, rfl, rfl⟩⟩⟩
    · exact ⟨w, rfl, reindexed⟩
  unfold reindexAfterDelete
  refine seq_ok ?_ (.refl wf)
  intro step mem w reindexed
  simp only [List.mem_append, List.mem_map] at mem
  rcases mem with (⟨e, -, rfl⟩ | ⟨e, inIndexes, rfl⟩) | ⟨e, inIndexes, rfl⟩
  · simp only
    cases hit : w.getColumnIndex e.1 with
    | none =>
      exact ⟨_, rfl, reindexed.trans ⟨reindexed.wf.setIndices _ w.namedIndices, rfl, ⟨rfl, rfl, rfl⟩⟩⟩
    | some i =>
      obtain ⟨x, built, next⟩ := buildIndex_ok reindexed.wf (c := e.1) (by simp [hit])
      exact ⟨x, built, reindexed.trans next⟩
  · exact refill e w (wf.secondary e inIndexes) reindexed
  · exact refill e w (wf.constraint e inIndexes) reindexed

/-! ## Writes -/

/-- The table a write leaves, with this directory. -/
structure Became (t u : Table) (directory : List (Option Row)) : Prop where
  wf : u.WellFormed
  directory : u.directory = directory
  keys : SameKeys t u
  dirty : u = t ∨ u.dirty = true

/-- A write that passes its checks takes effect, and one that fails changes nothing. -/
def Writes (t : Table) (result : Table × Except Exn Unit) (directory : List (Option Row)) : Prop :=
  (∃ exn, result = (t, .error exn)) ∨ ∃ u, result = (u, .ok ()) ∧ Became t u directory

theorem checkWrite_arity {fns : Functions} {exclude : Option Nat} {text : String}
    (passed : t.checkWrite fns row exclude text = .ok ()) :
    row.values.length = t.columns.length := by
  by_contra unequal
  unfold checkWrite at passed
  simp only [if_pos unequal] at passed
  cases passed

section

variable (wf : t.WellFormed)
include wf

theorem WellFormed.setDirectory {directory : List (Option Row)}
    (ok : ∀ slot ∈ directory, ∃ row, slot = some row ∧ t.RowOk row) :
    ({ t with directory := directory } : Table).WellFormed :=
  wf.of_same ⟨rfl, rfl, rfl, rfl, rfl⟩ ok

theorem WellFormed.append (ok : t.RowOk row) :
    ({ t with directory := t.directory ++ [some row] } : Table).WellFormed := by
  refine wf.setDirectory (fun slot mem => ?_)
  rcases List.mem_append.mp mem with mem | mem
  · exact wf.rows slot mem
  · exact ⟨row, List.mem_singleton.mp mem, ok⟩

theorem WellFormed.set (i : Nat) (ok : t.RowOk row) :
    ({ t with directory := t.directory.set i (some row) } : Table).WellFormed := by
  refine wf.setDirectory (fun slot mem => ?_)
  rcases List.mem_or_eq_of_mem_set mem with mem | rfl
  · exact wf.rows slot mem
  · exact ⟨row, rfl, ok⟩

theorem WellFormed.markDirty : t.markDirty.WellFormed :=
  wf.of_same ⟨rfl, rfl, rfl, rfl, rfl⟩ wf.rows

end

theorem Reindexed.became (eq : Reindexed v u) (keys : SameKeys t v) :
    Became t u.markDirty v.directory :=
  ⟨eq.wf.markDirty, eq.directory,
    ⟨(eq.keys.of_left keys).columns, (eq.keys.of_left keys).primary,
      (eq.keys.of_left keys).unique⟩, .inr rfl⟩

theorem indexAndMark_ok (wf : u.WellFormed) (arity : row.values.length = u.columns.length)
    (keys : SameKeys t u) (i : Nat) :
    ∃ v, andThen (u.insertIntoIndexes row i) (fun t => (t.markDirty, .ok ())) = (v, .ok ()) ∧
      Became t v u.directory := by
  obtain ⟨colIdx, namedIdx, touched⟩ :=
    touchIndexes_ok wf arity (fun idx key => idx.insert key i)
  unfold insertIntoIndexes
  rw [touched]
  exact ⟨_, rfl, (wf.setIndices _ _).markDirty, rfl, { keys with }, .inr rfl⟩

theorem insertRow_writes (wf : t.WellFormed) (small : fits row = true) :
    t.Writes (t.insertRow fns row) (t.directory ++ [some row]) := by
  unfold insertRow
  cases checked : t.checkWrite fns row none "Row does not satisfy table constraints" with
  | error exn => exact .inl ⟨exn, rfl⟩
  | ok _ =>
    have arity := checkWrite_arity checked
    have appended := wf.append ⟨arity, small⟩
    obtain ⟨u, idx, became⟩ := @indexAndMark_ok t _ _ appended arity ⟨rfl, rfl, rfl⟩
      (({ t with directory := t.directory ++ [some row] } : Table).rowCount - 1)
    refine .inr ⟨u, ?_, became⟩
    simp only [appendRow, small, if_true, andThen]
    exact idx

theorem checkUpdate_ok {fns : Functions} {old : Row} (passed : t.checkUpdate fns i row = .ok old) :
    row.values.length = t.columns.length ∧ t.directory[i]? = some (some old) := by
  unfold checkUpdate at passed
  by_cases outside : t.rowCount ≤ i
  · simp only [if_pos outside] at passed
    cases passed
  · simp only [if_neg outside] at passed
    obtain ⟨_, checked, read⟩ := Exn.bind_eq_ok passed
    exact ⟨checkWrite_arity checked, getRow_eq_ok_iff.mp read⟩

theorem WellFormed.rowOk (wf : t.WellFormed) (stored : t.directory[i]? = some (some row)) :
    t.RowOk row := by
  obtain ⟨ne, eq, ok⟩ := wf.rows (some row) (List.mem_of_getElem? stored)
  cases eq
  exact ok

theorem replaceRow_ok (i : Nat) (small : fits row = true) :
    t.replaceRow i row = ({ t with directory := t.directory.set i (some row) }, .ok ()) := by
  simp [replaceRow, small]

section

variable (wf : t.WellFormed)
include wf

theorem updateRow_writes (i : Nat) (small : fits row = true) :
    (∃ exn, t.updateRow fns i row = (t, .error exn)) ∨
      ∃ old u, t.directory[i]? = some (some old) ∧ t.updateRow fns i row = (u, .ok ()) ∧
        Became t u (t.directory.set i (some ⟨row.values, old.xmin, old.xmax⟩)) := by
  unfold updateRow
  cases checked : t.checkUpdate fns i row with
  | error exn => exact .inl ⟨exn, rfl⟩
  | ok old =>
    obtain ⟨arity, stored⟩ := checkUpdate_ok checked
    have newOk : t.RowOk ⟨row.values, old.xmin, old.xmax⟩ :=
      RowOk.of_values ⟨arity, small⟩ rfl
    obtain ⟨columnIndices, namedIndices, removed⟩ := touchIndexes_ok wf (wf.rowOk stored).arity
      (fun index key => index.remove key i)
    have unindexed := wf.setIndices columnIndices namedIndices
    have replaced := unindexed.set i (newOk.congr rfl)
    obtain ⟨u, idx, became⟩ := @indexAndMark_ok t _ _ replaced newOk.arity ⟨rfl, rfl, rfl⟩ i
    refine .inr ⟨old, u, stored, ?_, became⟩
    simp only [removeFromIndexes, removed, andThen]
    rw [replaceRow_ok i newOk.small]
    exact idx

theorem updateVersion_writes (i : Nat) (small : fits row = true) (xid : Nat) :
    (∃ exn, t.updateRowVersioned fns i row xid = (t, .error exn)) ∨
      ∃ old u, t.directory[i]? = some (some old) ∧
        t.updateRowVersioned fns i row xid = (u, .ok ()) ∧
        Became t u
          (t.directory.set i (some (old.setXmax xid)) ++ [some ⟨row.values, xid, 0⟩]) := by
  unfold updateRowVersioned
  cases checked : t.checkUpdate fns i row with
  | error exn => exact .inl ⟨exn, rfl⟩
  | ok old =>
    obtain ⟨arity, stored⟩ := checkUpdate_ok checked
    have oldOk : t.RowOk (old.setXmax xid) := (wf.rowOk stored).of_values rfl
    have newOk : t.RowOk ⟨row.values, xid, 0⟩ := RowOk.of_values ⟨arity, small⟩ rfl
    have stamped := wf.set i oldOk
    have appended := stamped.append (newOk.congr rfl)
    obtain ⟨u, idx, became⟩ := @indexAndMark_ok t _ _ appended newOk.arity ⟨rfl, rfl, rfl⟩
      (({ t with directory :=
        t.directory.set i (some (old.setXmax xid)) ++ [some ⟨row.values, xid, 0⟩] } :
          Table).rowCount - 1)
    refine .inr ⟨old, u, stored, ?_, became⟩
    have fitsNew : fits ((row.setXmin xid).setXmax 0) = true := newOk.small
    simp only [replaceRow_ok i oldOk.small, andThen, appendRow, fitsNew, if_true]
    exact idx

theorem deleteRow_writes (i : Nat) : t.Writes (t.deleteRow i) (t.directory.eraseIdx i) := by
  unfold deleteRow
  split
  · exact .inl ⟨_, rfl⟩
  · have erased := @WellFormed.setDirectory t wf (t.directory.eraseIdx i)
      (fun slot mem => wf.rows slot (List.mem_of_mem_eraseIdx mem))
    obtain ⟨u, refill, eq⟩ := reindex_ok erased
    refine .inr ⟨u.markDirty, ?_, eq.became ⟨rfl, rfl, rfl⟩⟩
    rw [refill]
    rfl

theorem deleteVersion_writes (i xid : Nat) :
    (∃ exn, t.deleteRowVersioned i xid = (t, .error exn)) ∨
      ∃ old u, t.directory[i]? = some (some old) ∧ t.deleteRowVersioned i xid = (u, .ok ()) ∧
        Became t u (t.directory.set i (some (old.setXmax xid))) := by
  unfold deleteRowVersioned
  cases slot : t.directory[i]? with
  | none =>
    simp only [getRow, slot]
    exact .inl ⟨_, rfl⟩
  | some stored =>
    obtain ⟨row, rfl, ok⟩ := wf.rows stored (List.mem_of_getElem? slot)
    have stampedOk : t.RowOk (row.setXmax xid) := ok.of_values rfl
    simp only [getRow, slot, readSlot, replaceRow_ok i stampedOk.small, andThen]
    exact .inr ⟨row, _, rfl, rfl, (wf.set i stampedOk).markDirty, rfl, ⟨rfl, rfl, rfl⟩, .inr rfl⟩

theorem WellFormed.versions {kept : List Row} (stored : t.getAllRows = .ok rows)
    (vals : ∀ row ∈ kept, ∃ old ∈ rows, row.values = old.values) :
    ∀ slot ∈ kept.map some, ∃ row, slot = some row ∧ t.RowOk row := by
  refine WellFormed.rows_of_map (fun row mem => ?_)
  obtain ⟨old, isOld, eq⟩ := vals row mem
  have inDirectory : some old ∈ t.directory := by
    rw [dir_of_getAllRows stored]
    exact List.mem_map_of_mem isOld
  obtain ⟨ne, isOther, ok⟩ := wf.rows _ inDirectory
  cases isOther
  exact ok.of_values eq

theorem WellFormed.rewrite {kept : List Row} (stored : t.getAllRows = .ok rows)
    (vals : ∀ row ∈ kept, ∃ old ∈ rows, row.values = old.values) :
    ∃ u, andThen (rebuildIndexes { t with directory := kept.map some })
      (fun t => (t.markDirty, .ok ())) = (u, .ok ()) ∧ Became t u (kept.map some) := by
  obtain ⟨u, rebuilt, eq⟩ := rebuildIndexes_ok (wf.setDirectory (wf.versions stored vals))
  rw [rebuilt]
  exact ⟨_, rfl, eq.became ⟨rfl, rfl, rfl⟩⟩

theorem vacuumVersions_writes (tm : TransactionManager) :
    ∃ rows u, t.getAllRows = .ok rows ∧ t.vacuumVersions tm = (u, .ok ()) ∧
      Became t u ((rows.filterMap (vacuumRow tm tm.getVacuumHorizon)).map some) := by
  obtain ⟨rows, read, -⟩ := wf.getAllRows
  obtain ⟨u, rewritten, became⟩ := wf.rewrite read vacuumRows_values
  refine ⟨rows, u, read, ?_, became⟩
  unfold vacuumVersions
  rw [read]
  exact rewritten

end

theorem freezeRows_of_unstamped {xid : Nat}
    (unstamped : rows.any (fun row => row.xmax == xid || row.xmin == xid) = false) :
    freezeRows xid rows = rows := by
  have none : ∀ row ∈ rows, row.xmax ≠ xid ∧ row.xmin ≠ xid := by
    intro row mem
    simpa using List.any_eq_false.mp unstamped row mem
  unfold freezeRows
  rw [List.filter_eq_self.mpr (fun row mem => by simpa using (none row mem).1)]
  refine (List.map_congr_left (fun row mem => ?_)).trans (List.map_id rows)
  simp [(none row mem).2]

section

variable (wf : t.WellFormed)
include wf

theorem freezeVersions_writes {xid : Nat} (pos : xid ≠ 0) :
    ∃ rows u, t.getAllRows = .ok rows ∧ t.freezeCommittedVersions xid = (u, .ok ()) ∧
      Became t u ((freezeRows xid rows).map some) := by
  obtain ⟨rows, read, -⟩ := wf.getAllRows
  unfold freezeCommittedVersions
  simp only [pos, if_false, read]
  by_cases stamped : rows.any (fun row => row.xmax == xid || row.xmin == xid) = true
  · obtain ⟨u, rewritten, became⟩ := wf.rewrite read freezeRows_values
    refine ⟨rows, u, rfl, ?_, became⟩
    rw [if_pos stamped]
    exact rewritten
  · refine ⟨rows, t, rfl, ?_, wf, ?_, .refl t, .inl rfl⟩
    · simp only [stamped, Bool.false_eq_true, if_false]
    · rw [freezeRows_of_unstamped (by simpa using stamped)]
      exact dir_of_getAllRows read

theorem createIndex_writes (name : String) (columns : List String) :
    t.Writes (t.createSecondaryIndex name columns) t.directory := by
  unfold createSecondaryIndex
  split
  · exact .inl ⟨_, rfl⟩
  · split
    · exact .inl ⟨_, rfl⟩
    · split
      · exact .inl ⟨_, rfl⟩
      · rename_i unknown
        have known : t.KnownColumns columns := by
          intro c mem
          have := List.find?_eq_none.mp unknown c mem
          cases hit : t.getColumnIndex c <;> simp_all
        have reg : ({ t with
            secondaryIndexes := AssocMap.assign name columns t.secondaryIndexes } : Table).WellFormed :=
          { rows := wf.rowsAs rfl
            secondary := AssocMap.forall_mem_assign known wf.secondary
            constraint := wf.constraint
            primary := wf.primary
            unique := wf.unique }
        obtain ⟨u, built, eq⟩ := buildNamed_ok reg reg.secondary name
        refine .inr ⟨u.markDirty, ?_, eq.became ⟨rfl, rfl, rfl⟩⟩
        simp only
        rw [built]
        rfl

theorem dropIndex_became (name : String) (columns : List String) :
    Became t (t.dropSecondaryIndex name columns) t.directory := by
  have erased : ({ t with
      secondaryIndexes := AssocMap.erase name t.secondaryIndexes
      namedIndices := AssocMap.erase name t.namedIndices } : Table).WellFormed :=
    { rows := wf.rowsAs rfl
      secondary := fun e mem => wf.secondary e (List.mem_filter.mp mem).1
      constraint := wf.constraint
      primary := wf.primary
      unique := wf.unique }
  unfold dropSecondaryIndex
  simp only
  split
  · split
    · exact ⟨erased.markDirty, rfl, ⟨rfl, rfl, rfl⟩, .inr rfl⟩
    · exact ⟨(erased.setIndices _ _).markDirty, rfl, ⟨rfl, rfl, rfl⟩, .inr rfl⟩
  · exact ⟨erased.markDirty, rfl, ⟨rfl, rfl, rfl⟩, .inr rfl⟩

theorem WellFormed.clearDirty : t.clearDirty.WellFormed :=
  wf.of_same ⟨rfl, rfl, rfl, rfl, rfl⟩ wf.rows

end

/-! ## Stored rows -/

theorem storedRows_eq (h : t.directory = rows.map some) : t.storedRows = rows := by
  simp only [storedRows, getAllRows_map_some t rows h]

theorem WellFormed.dir_eq (wf : t.WellFormed) : t.directory = t.storedRows.map some := by
  obtain ⟨rows, read, -⟩ := wf.getAllRows
  rw [storedRows_eq (dir_of_getAllRows read)]
  exact dir_of_getAllRows read

theorem WellFormed.getAllRows_eq (wf : t.WellFormed) : t.getAllRows = .ok t.storedRows :=
  getAllRows_map_some t _ wf.dir_eq

theorem WellFormed.stored_iff (wf : t.WellFormed) :
    t.directory[i]? = some (some row) ↔ t.storedRows[i]? = some row := by
  rw [wf.dir_eq, List.getElem?_map]
  simp

theorem Became.storedRows {dir : List (Option Row)} (became : Became t u dir)
    (eq : dir = rows.map some) : u.storedRows = rows :=
  storedRows_eq (became.directory.trans eq)

end NobugDb.Table
