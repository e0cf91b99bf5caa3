import NobugDb.Core.Proofs.BTreeMultimap
import NobugDb.Core.Proofs.Slots
import NobugDb.Core.TableDdl

/-!
# Row writes that throw

`insert_row`, `update_row` and `update_row_versioned` check the row first and change the heap
and the indexes step by step after that. Nothing is undone when a later step throws: the heap
refuses a row that does not fit a page, and index maintenance one that an index names no column
for. What such a call leaves is compared with the table before it, in every table that calls can
make.
-/

namespace NobugDb.Table

open Misc (AssocMap run run_inv)

variable {fns : Functions} {t u : Table} {row : Row} {i : Nat}

/-! ## The rows that are stored -/

/-- Every stored row fits a page. -/
def RowsFit (t : Table) : Prop := ∀ row, some row ∈ t.directory → fits row = true

theorem RowsFit.congr (rows : t.RowsFit) (eq : u.directory = t.directory) : u.RowsFit := by
  intro row mem
  exact rows row (eq ▸ mem)

theorem fits_of_values {ne : Row} (eq : ne.values = row.values) :
    fits ne = fits row := by
  unfold fits tupleSize
  rw [eq]

section

variable (rows : t.RowsFit)
include rows

theorem RowsFit.append (row : Row) : (t.appendRow row).1.RowsFit := by
  unfold appendRow
  split
  · rename_i small
    intro ne mem
    rcases List.mem_append.mp mem with old | new
    · exact rows ne old
    · rw [Option.some.inj (List.mem_singleton.mp new)]
      exact small
  · exact rows

theorem RowsFit.replace (i : Nat) (row : Row) : (t.replaceRow i row).1.RowsFit := by
  unfold replaceRow
  split
  · rename_i small
    intro ne mem
    rcases List.mem_or_eq_of_mem_set mem with old | new
    · exact rows ne old
    · rw [Option.some.inj new]
      exact small
  · intro ne mem
    rcases List.mem_or_eq_of_mem_set mem with old | new
    · exact rows ne old
    · exact nomatch new

theorem RowsFit.erase (i : Nat) : RowsFit { t with directory := t.directory.eraseIdx i } :=
  fun row mem => rows row (List.mem_of_mem_eraseIdx mem)

theorem RowsFit.touch (row : Row) (f : BTreeIndex → IndexKey → BTreeIndex) :
    (t.touchIndexes row f).1.RowsFit :=
  rows.congr (touchIndexes_dir t row f)

theorem RowsFit.mark : t.markDirty.RowsFit := rows.congr rfl

theorem RowsFit.appendIndexed (row : Row) : (t.appendIndexed row).1.RowsFit :=
  andThen_keeps (rows.append row) (fun _ fit =>
    andThen_keeps (fit.touch row _) (fun _ fit => fit.mark))

end

theorem RowsFit.reinsert {rows : List Row} (fit : t.RowsFit) : (reinsert rows t).1.RowsFit := by
  induction rows generalizing t with
  | nil => exact fit
  | cons row rows ih => exact andThen_keeps (fit.append row) (fun _ fit => ih fit)

theorem RowsFit.ofRows (fit : t.RowsFit) {rows kept : List Row} (stored : t.getAllRows = .ok rows)
    (from_ : ∀ row ∈ kept, ∃ old ∈ rows, row.values = old.values) :
    RowsFit { t with directory := kept.map some } := by
  intro row mem
  obtain ⟨new, isNew, eq⟩ := List.mem_map.mp mem
  obtain ⟨old, isOld, vals⟩ := from_ new isNew
  rw [← Option.some.inj eq, fits_of_values vals]
  refine fit old ?_
  rw [dir_of_getAllRows stored]
  exact List.mem_map_of_mem isOld

theorem modifyColumn_dir (c : String) (f : Column → Column) (t : Table) :
    (t.modifyColumn c f).directory = t.directory := by
  unfold modifyColumn
  split <;> rfl

theorem clearFlag_dir (set : Bool → Column → Column) (ne : Column → Bool) (c : String)
    (t : Table) : (clearFlag set ne c t).directory = t.directory := by
  unfold clearFlag
  split
  · rfl
  · dsimp only
    split <;> exact modifyColumn_dir _ _ _

theorem foldl_dir {α : Type} {f : Table → α → Table} (each : ∀ t a, (f t a).directory = t.directory)
    (t : Table) (l : List α) : (l.foldl f t).directory = t.directory := by
  induction l generalizing t with
  | nil => rfl
  | cons a l ih => exact (ih _).trans (each t a)

section

variable (fit : t.RowsFit)
include fit

theorem RowsFit.rebuild : (andThen t.rebuildIndexes (fun t => (t.markDirty, .ok ()))).1.RowsFit :=
  fit.congr ((andThen_markDirty_dir _).trans (rebuildIndexes_dir t))

theorem RowsFit.buildIndex (c : String) : (t.buildIndex c).1.RowsFit :=
  fit.congr (buildIndex_dir t c)

theorem RowsFit.addColumn (col : Column) : (t.addColumn col).1.RowsFit := by
  unfold Table.addColumn
  split
  · exact fit
  · split
    · exact fit
    · split
      · exact fit
      · refine andThen_keeps (RowsFit.reinsert (fun row mem => nomatch mem)) ?_
        intro u fit
        refine andThen_keeps ?_ (fun _ fit => fit.mark)
        split
        · exact fit.buildIndex _
        · exact fit

theorem RowsFit.dropColumn (c : String) : (t.dropColumn c).1.RowsFit := by
  unfold Table.dropColumn
  split
  · exact fit
  · split
    · exact fit
    · dsimp only
      split
      · exact fit.congr rfl
      · refine andThen_keeps (RowsFit.reinsert (fun row mem => nomatch mem)) ?_
        intro u fit
        split
        · exact fit
        · exact fit.rebuild

theorem RowsFit.applyPrimaryKey (cols : List String) : (t.applyPrimaryKey cols).1.RowsFit := by
  unfold Table.applyPrimaryKey
  have synced := fit.congr (syncMetadata_dir t)
  split
  · exact fit
  · dsimp only
    split
    · exact synced
    · split
      · exact synced
      · refine andThen_keeps (synced.congr ?_) (fun _ fit => andThen_keeps ?_ (fun _ fit => fit.mark))
        · refine (constraintIndex_dir _ _ _).trans ?_
          exact foldl_dir (fun t c => modifyColumn_dir c _ t) _ cols
        · split
          · exact fit.buildIndex _
          · exact fit

theorem RowsFit.applyUniqueConstraint (uq : UniqueConstraint) :
    (t.applyUniqueConstraint uq).1.RowsFit := by
  unfold Table.applyUniqueConstraint
  split
  · exact fit
  · split
    · exact fit
    · split
      · exact fit
      · refine andThen_keeps ?_ (fun _ fit => andThen_keeps ?_ (fun _ fit => fit.mark))
        · split
          · refine RowsFit.buildIndex (fit.congr ?_) _
            exact modifyColumn_dir _ _ _
          · exact fit.congr rfl
        · exact fit.congr (constraintIndex_dir _ _ _)

end

theorem renameColumn_dir (t : Table) (oldName newName : String) :
    (t.renameColumn oldName newName).1.directory = t.directory := by
  unfold renameColumn
  split
  · rfl
  · split
    · rfl
    · split
      · rfl
      · exact modifyColumn_dir oldName _ t

theorem dropPrimaryKey_dir (t : Table) : t.dropPrimaryKey.1.directory = t.directory := by
  unfold dropPrimaryKey
  dsimp only
  split
  · exact syncMetadata_dir t
  · exact (foldl_dir (fun t c => clearFlag_dir _ _ c t) _ _).trans
      (syncMetadata_dir t)

theorem dropUniqueConstraint_dir (t : Table) (cols : List String) :
    (t.dropUniqueConstraint cols).1.directory = t.directory := by
  unfold dropUniqueConstraint
  split
  · dsimp only [markDirty]
    split
    · exact clearFlag_dir _ _ _ _
    · rfl
  · split
    · split
      · exact clearFlag_dir _ _ _ _
      · rfl
    · rfl

theorem RowsFit.call (fit : t.RowsFit) (fns : Functions) (op : Op) : (t.call fns op).1.RowsFit := by
  cases op with
  | insertRow row =>
    simp only [Table.call, Table.insertRow]
    split
    · exact fit
    · exact fit.appendIndexed row
  | updateRow i row =>
    simp only [Table.call, Table.updateRow]
    split
    · exact fit
    · refine andThen_keeps (fit.touch _ _) (fun _ fit => ?_)
      refine andThen_keeps (fit.replace i _) (fun _ fit => ?_)
      exact andThen_keeps (fit.touch _ _) (fun _ fit => fit.mark)
  | updateRowVersioned i row xid =>
    simp only [Table.call, Table.updateRowVersioned]
    split
    · exact fit
    · exact andThen_keeps (fit.replace i _) (fun _ fit => fit.appendIndexed _)
  | deleteRow i =>
    simp only [Table.call, Table.deleteRow]
    split
    · exact fit
    · refine (fit.erase i).congr ?_
      exact (andThen_markDirty_dir _).trans (reindex_dir _)
  | deleteRowVersioned i xid =>
    simp only [Table.call, Table.deleteRowVersioned]
    split
    · exact fit
    · exact andThen_keeps (fit.replace i _) (fun _ fit => fit.mark)
  | freezeCommittedVersions xid =>
    simp only [Table.call, Table.freezeCommittedVersions]
    split
    · exact fit
    · split
      · exact fit
      · rename_i rows stored
        split
        · exact (fit.ofRows stored freezeRows_values).rebuild
        · exact fit
  | vacuumVersions tm =>
    simp only [Table.call, Table.vacuumVersions]
    split
    · exact fit
    · rename_i rows stored
      exact (fit.ofRows stored vacuumRows_values).rebuild
  | rebuildIndexes => exact fit.congr (rebuildIndexes_dir t)
  | addColumn col => exact fit.addColumn col
  | dropColumn c => exact fit.dropColumn c
  | renameColumn oldName newName => exact fit.congr (renameColumn_dir t oldName newName)
  | createSecondaryIndex name cols =>
    exact fit.congr (createIndex_dir t name cols)
  | dropSecondaryIndex name =>
    simp only [Table.call]
    split
    · exact fit.congr (dropIndex_dir t name _)
    · exact fit
  | applyPrimaryKey cols => exact fit.applyPrimaryKey cols
  | dropPrimaryKey => exact fit.congr (dropPrimaryKey_dir t)
  | applyUniqueConstraint uq => exact fit.applyUniqueConstraint uq
  | dropUniqueConstraint cols => exact fit.congr (dropUniqueConstraint_dir t cols)
  | setNotNull c =>
    refine fit.congr ?_
    simp only [Table.call, Table.setNotNull]
    split
    · split
      · rfl
      · exact modifyColumn_dir c _ t
    · rfl
  | dropNotNull c =>
    refine fit.congr ?_
    simp only [Table.call, Table.dropNotNull]
    split
    · rfl
    · split
      · rfl
      · exact modifyColumn_dir c _ t
  | addCheck check =>
    refine fit.congr ?_
    simp only [Table.call, Table.addCheck]
    split <;> rfl
  | dropCheck name =>
    refine fit.congr ?_
    simp only [Table.call, Table.dropCheck]
    split <;> rfl

/-- In every table that calls make of an empty one, stored rows fit. -/
theorem rowsFit_run (fns : Functions) (name : String) (ops : List Op) :
    (run (after fns) { name := name } ops).RowsFit :=
  run_inv (fun _ op fit => fit.call fns op) (fun _ mem => nomatch mem) ops

/-! ## What a call leaves -/

/-- The stored rows with their order and stamps, and the contents of all indexes, are the same. -/
structure SameContents (t u : Table) : Prop where
  directory : u.directory = t.directory
  columnIndices : u.columnIndices.map (fun e => (e.1, e.2.contents)) =
    t.columnIndices.map (fun e => (e.1, e.2.contents))
  namedIndices : u.namedIndices.map (fun e => (e.1, e.2.contents)) =
    t.namedIndices.map (fun e => (e.1, e.2.contents))

theorem SameContents.refl (t : Table) : SameContents t t := ⟨rfl, rfl, rfl⟩

/-- `insert_row`, `update_row` or `update_row_versioned`. -/
def Op.IsRowWrite : Op → Prop
  | .insertRow _ | .updateRow _ _ | .updateRowVersioned _ _ _ => True
  | _ => False

/-- The checks at the start of the call refuse the row. -/
def Op.Refused (fns : Functions) (t : Table) : Op → Prop
  | .insertRow row =>
    ∃ e, t.checkWrite fns row none "Row does not satisfy table constraints" = .error e
  | .updateRow i row | .updateRowVersioned i row _ => ∃ e, t.checkUpdate fns i row = .error e
  | _ => False

/-- The call ends after its checks and leaves nothing behind: `insert_row` of a row that does not
    fit a page; `update_row` when the removal of the old keys stops at an index without its
    columns and has taken nothing out of the indexes before; `update_row_versioned` of a row
    that does not fit, at a version that carries the stamp of the transaction already. -/
def Op.EndsClean (t : Table) : Op → Prop
  | .insertRow row => fits row = false
  | .updateRow i _ =>
    ∃ old, t.getRow i = .ok old ∧ (t.removeFromIndexes old i).2 ≠ .ok () ∧
      SameContents t (t.removeFromIndexes old i).1
  | .updateRowVersioned i row xid =>
    fits row = false ∧ ∃ old, t.getRow i = .ok old ∧ old.xmax = xid
  | _ => False

theorem touchNamed_contains (t : Table) (row : Row) (f : BTreeIndex → IndexKey → BTreeIndex)
    (idxs : AssocMap String (List String)) (named : AssocMap String BTreeIndex) (name : String) :
    (t.touchNamedIndices row f idxs named).1.contains name = named.contains name := by
  induction idxs generalizing named with
  | nil => rfl
  | cons e idxs ih =>
    obtain ⟨indexName, cols⟩ := e
    unfold touchNamedIndices
    split
    · split
      · rfl
      · exact (ih _).trans (Misc.adjust_contains _ _ _ _)
    · exact ih named

/-- A pass over index definitions throws at an index it cannot build the key for. -/
theorem touchNamed_ok_iff (t : Table) (row : Row) (f : BTreeIndex → IndexKey → BTreeIndex)
    (idxs : AssocMap String (List String)) (named : AssocMap String BTreeIndex) :
    (t.touchNamedIndices row f idxs named).2 = .ok () ↔
      ∀ e ∈ idxs, named.contains e.1 = true → ∃ key, t.buildIndexKey row e.2 = .ok key := by
  induction idxs generalizing named with
  | nil => simp [touchNamedIndices]
  | cons e idxs ih =>
    obtain ⟨indexName, cols⟩ := e
    unfold touchNamedIndices
    rw [List.forall_mem_cons]
    by_cases has : named.contains indexName = true
    · rw [if_pos has]
      cases isKey : t.buildIndexKey row cols with
      | error exn =>
        refine ⟨nofun, fun all => ?_⟩
        obtain ⟨key, hit⟩ := all.1 has
        exact nomatch hit
      | ok key =>
        dsimp only
        rw [ih]
        simp only [Misc.adjust_contains]
        exact ⟨fun rest => ⟨fun _ => ⟨key, rfl⟩, rest⟩, fun all => all.2⟩
    · rw [if_neg has, ih]
      exact ⟨fun rest => ⟨fun h => absurd h has, rest⟩, fun all => all.2⟩

theorem touchIndexes_ok_iff (t : Table) (row : Row) (f : BTreeIndex → IndexKey → BTreeIndex) :
    (t.touchIndexes row f).2 = .ok () ↔
      ∀ e ∈ t.secondaryIndexes ++ t.constraintIndexes, t.namedIndices.contains e.1 = true →
        ∃ key, t.buildIndexKey row e.2 = .ok key := by
  rw [List.forall_mem_append]
  have fst := touchNamed_ok_iff { t with columnIndices := t.touchColumnIndices row f } row f
    t.secondaryIndexes t.namedIndices
  have second := touchNamed_ok_iff { t with columnIndices := t.touchColumnIndices row f } row
    f t.constraintIndexes
    (touchNamedIndices { t with columnIndices := t.touchColumnIndices row f } row f
      t.secondaryIndexes t.namedIndices).1
  simp only [touchNamed_contains] at second
  unfold touchIndexes
  dsimp only at fst second ⊢
  split
  · rename_i exn fail
    rw [fail] at fst
    exact ⟨by simp, fun all => absurd (fst.mpr all.1) (by simp)⟩
  · rename_i passed
    rw [passed] at fst
    exact second.trans ⟨fun rest => ⟨fst.mp rfl, rest⟩, fun all => all.2⟩

theorem buildIndexKey_known {columns : List String} {key : IndexKey}
    (built : t.buildIndexKey row columns = .ok key) : t.KnownColumns columns := by
  intro c mem
  cases known : t.getColumnIndex c with
  | none =>
    have hit : none ∈ key.map some := by
      rw [← Exn.mapM_eq_ok_iff.mp built]
      exact List.mem_map.mpr ⟨c, mem, by simp [known, Except.toOption]⟩
    simp at hit
  | some j => rfl

theorem touchIndexes_ok_of_ok {old new : Row} {f g : BTreeIndex → IndexKey → BTreeIndex}
    (arity : new.values.length = t.columns.length) (passed : (t.touchIndexes old f).2 = .ok ())
    (frame : SameFrame t u)
    (named : ∀ name, u.namedIndices.contains name = t.namedIndices.contains name) :
    (u.touchIndexes new g).2 = .ok () := by
  have cols : u.columns = t.columns := frame.congr Table.columns
  have sec : u.secondaryIndexes = t.secondaryIndexes := frame.congr Table.secondaryIndexes
  have constr : u.constraintIndexes = t.constraintIndexes := frame.congr Table.constraintIndexes
  rw [touchIndexes_ok_iff] at passed ⊢
  intro e mem has
  rw [sec, constr] at mem
  rw [named] at has
  obtain ⟨key, built⟩ := passed e mem has
  have known : u.KnownColumns e.2 := (buildIndexKey_known built).congr cols
  exact buildIndexKey_ok (by rw [cols]; exact arity) known

theorem touchIndexes_contains (t : Table) (row : Row) (f : BTreeIndex → IndexKey → BTreeIndex)
    (name : String) :
    (t.touchIndexes row f).1.namedIndices.contains name = t.namedIndices.contains name := by
  unfold touchIndexes
  dsimp only
  split
  · exact touchNamed_contains _ _ _ _ _ _
  · exact (touchNamed_contains _ _ _ _ _ _).trans (touchNamed_contains _ _ _ _ _ _)

theorem insertRow_leaves_iff :
    SameContents t (t.insertRow fns row).1 ↔
      (∃ e, t.checkWrite fns row none "Row does not satisfy table constraints" = .error e) ∨
        fits row = false := by
  unfold insertRow
  cases checked : t.checkWrite fns row none "Row does not satisfy table constraints" with
  | error exn => exact ⟨fun _ => .inl ⟨exn, rfl⟩, fun _ => .refl t⟩
  | ok _ =>
    dsimp only
    cases small : fits row with
    | false =>
      simp only [appendRow, small]
      exact ⟨fun _ => .inr trivial, fun _ => .refl t⟩
    | true =>
      -- The row is stored when its index entries cannot be made.
      refine ⟨fun same => ?_, fun h => by simp at h⟩
      simp only [appendRow, small, if_true, andThen] at same
      have stored := indexAndMark_dir { t with directory := t.directory ++ [some row] } row
        (fun idx key => idx.insert key (t.directory.length + 1 - 1))
      simp only [insertIntoIndexes, rowCount, List.length_append, List.length_singleton] at same
      exact absurd (stored.symm.trans same.directory) (by simp)

theorem set_ne {old : Row} {slot : Option Row} {slots : List (Option Row)}
    (stored : slots[i]? = some (some old)) (ne : slot ≠ some old) : slots.set i slot ≠ slots := by
  intro eq
  obtain ⟨isIn, -⟩ := List.getElem?_eq_some_iff.mp stored
  have read : (slots.set i slot)[i]? = some slot := List.getElem?_set_self isIn
  rw [eq, stored] at read
  exact ne (Option.some.inj read).symm

theorem updateRow_leaves_iff {e : Exn} (throws : (t.updateRow fns i row).2 = .error e) :
    SameContents t (t.updateRow fns i row).1 ↔
      (∃ e, t.checkUpdate fns i row = .error e) ∨
        ∃ old, t.getRow i = .ok old ∧ (t.removeFromIndexes old i).2 ≠ .ok () ∧
          SameContents t (t.removeFromIndexes old i).1 := by
  unfold updateRow at throws ⊢
  cases checked : t.checkUpdate fns i row with
  | error exn => exact ⟨fun _ => .inl ⟨exn, rfl⟩, fun _ => .refl t⟩
  | ok old =>
    obtain ⟨arity, stored⟩ := checkUpdate_ok checked
    have isOld : t.getRow i = .ok old := getRow_eq_ok_iff.mpr stored
    rw [checked] at throws
    dsimp only at throws ⊢
    rcases andThen_cases (t.removeFromIndexes old i) _ with ⟨fail, eq⟩ | ⟨passed, eq⟩
    · rw [eq]
      refine ⟨fun kept => .inr ⟨old, isOld, fail, kept⟩, ?_⟩
      rintro (⟨exn, absurd⟩ | ⟨ne, isOther, -, kept⟩)
      · cases absurd
      · rw [isOld] at isOther
        exact (Except.ok.inj isOther) ▸ kept
    · -- The old keys are out of all indexes; a row that does not fit now empties the slot.
      rw [eq] at throws ⊢
      have removed := touchIndexes_dir t old (fun idx key => idx.remove key i)
      cases small : fits ⟨row.values, old.xmin, old.xmax⟩ with
      | true =>
        exfalso
        simp only [replaceRow, small, if_true, andThen] at throws
        have inserted := @touchIndexes_ok_of_ok t { (t.removeFromIndexes old i).1 with
            directory := (t.removeFromIndexes old i).1.directory.set i
              (some ⟨row.values, old.xmin, old.xmax⟩) }
          old ⟨row.values, old.xmin, old.xmax⟩ _ (fun idx key => idx.insert key i) arity
          passed (SameFrame.touch (.refl t) old _) (touchIndexes_contains t old _)
        rw [insertIntoIndexes] at throws
        split at throws
        · rename_i fail
          rw [fail] at inserted
          cases inserted
        · cases throws
      | false =>
        simp only [replaceRow, small, andThen]
        refine ⟨fun kept => ?_, ?_⟩
        · have emptied := kept.directory
          simp only [removeFromIndexes, removed] at emptied
          exact absurd emptied (set_ne stored (by simp))
        · rintro (⟨exn, absurd⟩ | ⟨ne, isOther, fail, -⟩)
          · cases absurd
          · rw [isOld] at isOther
            exact absurd passed ((Except.ok.inj isOther) ▸ fail)

theorem updateVersion_leaves_iff {xid : Nat} (fit : t.RowsFit) :
    SameContents t (t.updateRowVersioned fns i row xid).1 ↔
      (∃ e, t.checkUpdate fns i row = .error e) ∨
        (fits row = false ∧ ∃ old, t.getRow i = .ok old ∧ old.xmax = xid) := by
  unfold updateRowVersioned
  cases checked : t.checkUpdate fns i row with
  | error exn => exact ⟨fun _ => .inl ⟨exn, rfl⟩, fun _ => .refl t⟩
  | ok old =>
    obtain ⟨arity, stored⟩ := checkUpdate_ok checked
    have isOld : t.getRow i = .ok old := getRow_eq_ok_iff.mpr stored
    have oldFits : fits (old.setXmax xid) = true :=
      (fits_of_values rfl).trans (fit old (List.mem_of_getElem? stored))
    have newFits : fits ((row.setXmin xid).setXmax 0) = fits row := fits_of_values rfl
    simp only [replaceRow, oldFits, if_true, andThen]
    simp only [appendRow, newFits]
    cases small : fits row with
    | false =>
      -- Only the stamp of the old version has been written.
      simp only [Bool.false_eq_true, if_false, true_and]
      refine ⟨fun kept => .inr ⟨old, isOld, ?_⟩, ?_⟩
      · by_contra ne
        refine set_ne stored ?_ kept.directory
        intro eq
        exact ne (congrArg Row.xmax (Option.some.inj eq)).symm
      · rintro (⟨exn, absurd⟩ | ⟨stamped, isStamped, eq⟩)
        · cases absurd
        · rw [isOld] at isStamped
          have unchanged : old.setXmax xid = old := by
            rw [← eq, ← Except.ok.inj isStamped]
            rfl
          refine ⟨?_, rfl, rfl⟩
          dsimp only
          rw [unchanged]
          obtain ⟨inside, read⟩ := List.getElem?_eq_some_iff.mp stored
          rw [← read]
          exact List.set_getElem_self inside
    | true =>
      simp only [if_true, Bool.true_eq_false, false_and, or_false]
      refine ⟨fun kept => ?_, by rintro ⟨exn, ⟨⟩⟩⟩
      have grown := kept.directory
      have appended := indexAndMark_dir
        { t with directory :=
            t.directory.set i (some (old.setXmax xid)) ++ [some ((row.setXmin xid).setXmax 0)] }
        ((row.setXmin xid).setXmax 0)
        (fun index key => index.insert key
          ((t.directory.set i (some (old.setXmax xid)) ++
            [some ((row.setXmin xid).setXmax 0)]).length - 1))
      have lengths := congrArg List.length (appended.symm.trans grown)
      simp at lengths

section Runs

private def silent : Functions :=
  ⟨fun _ _ err => .ok (.null, err), fun text _ => .ok (.string text)⟩

/-- A table of notes with a key and twelve lines, and one note of empty lines. -/
private def noted : List Op :=
  .addColumn ⟨"id", .int, false, true, false, none⟩ ::
    (List.range 12).map (fun i => .addColumn ⟨s!"line{i}", .string, true, false, false, none⟩) ++
    [.insertRow ⟨.int 1 :: List.replicate 12 .null, 0, 0⟩]

/-- A note of twelve lines of 700 letters, which is more than a page. -/
private def long : Row :=
  ⟨.int 1 :: List.replicate 12 (.string (String.ofList (List.replicate 700 'x'))), 0, 0⟩

end Runs

end NobugDb.Table
