import NobugDb.Core.Proofs.Operations

/-!
# The slots a write changes

What a row write does to the directory of any table, well formed or not, whether it succeeds or
fails. A write that fails may have emptied a slot or appended a row before it did.
-/

namespace NobugDb.Table

variable {fns : Functions} {t : Table} {row : Row} {i : Nat}

variable {u : Table} {written : List Value → Prop}

theorem touchIndexes_dir (t : Table) (row : Row) (f : BTreeIndex → IndexKey → BTreeIndex) :
    (t.touchIndexes row f).1.directory = t.directory := by
  unfold touchIndexes
  simp only
  split <;> rfl

theorem reindex_dir (t : Table) :
    t.reindexAfterDelete.1.directory = t.directory := by
  unfold reindexAfterDelete
  refine seq_dir ?_ t
  intro step mem u
  simp only [List.mem_append, List.mem_map] at mem
  rcases mem with (⟨e, -, rfl⟩ | ⟨e, -, rfl⟩) | ⟨e, -, rfl⟩
  · dsimp only
    split
    · rfl
    · exact buildIndex_dir u e.1
  all_goals
    dsimp only
    split
    · split <;> rfl
    · rfl

theorem andThen_cases (fst : Table × Except Exn Unit) (next : Table → Table × Except Exn Unit) :
    (fst.2 ≠ .ok () ∧ andThen fst next = fst) ∨
      (fst.2 = .ok () ∧ andThen fst next = next fst.1) := by
  obtain ⟨t, out⟩ := fst
  cases out with
  | error e => exact .inl ⟨nofun, rfl⟩
  | ok _ => exact .inr ⟨rfl, rfl⟩

theorem andThen_keeps {P : Table → Prop} {fst : Table × Except Exn Unit}
    {next : Table → Table × Except Exn Unit} (isFirst : P fst.1)
    (isNext : ∀ u, P u → P (next u).1) : P (andThen fst next).1 := by
  rcases andThen_cases fst next with ⟨-, eq⟩ | ⟨-, eq⟩
  · rw [eq]
    exact isFirst
  · rw [eq]
    exact isNext _ isFirst

theorem seq_keeps {P : Table → Prop} {steps : List (Table → Table × Except Exn Unit)}
    (each : ∀ step ∈ steps, ∀ u, P u → P (step u).1) (start : P t) : P (sequence steps t).1 := by
  induction steps generalizing t with
  | nil => exact start
  | cons step steps ih =>
    have next := each step (by simp) t start
    unfold sequence
    split
    · rename_i ended
      rwa [ended] at next
    · rename_i ended
      rw [ended] at next
      exact ih (fun step mem => each step (by simp [mem])) next

theorem indexAndMark_dir (t : Table) (row : Row) (f : BTreeIndex → IndexKey → BTreeIndex) :
    (andThen (t.touchIndexes row f) (fun t => (t.markDirty, .ok ()))).1.directory = t.directory :=
  (andThen_markDirty_dir _).trans (touchIndexes_dir t row f)

/-- `row_directory_.push_back` with the index entries of the row. -/
def appendIndexed (t : Table) (row : Row) : Table × Except Exn Unit :=
  andThen (t.appendRow row) (fun t =>
    andThen (t.insertIntoIndexes row (t.rowCount - 1)) (fun t => (t.markDirty, .ok ())))

theorem appendIndexed_dir (t : Table) (row : Row) :
    ((t.appendIndexed row).1.directory = t.directory ∧ (t.appendIndexed row).2 ≠ .ok ()) ∨
      (t.appendIndexed row).1.directory = t.directory ++ [some row] := by
  unfold appendIndexed appendRow
  split
  · exact .inr (indexAndMark_dir _ _ _)
  · exact .inl ⟨rfl, nofun⟩

theorem insertRow_dir (fns : Functions) (t : Table) (row : Row) :
    ((t.insertRow fns row).1.directory = t.directory ∧ (t.insertRow fns row).2 ≠ .ok ()) ∨
      (t.insertRow fns row).1.directory = t.directory ++ [some row] := by
  unfold insertRow
  split
  · exact .inl ⟨rfl, nofun⟩
  · exact appendIndexed_dir t row

theorem updateRow_dir (fns : Functions) (t : Table) (i : Nat) (row : Row) :
    ((t.updateRow fns i row).1.directory = t.directory ∧ (t.updateRow fns i row).2 ≠ .ok ()) ∨
      ∃ old, t.directory[i]? = some (some old) ∧
        ((t.updateRow fns i row).1.directory =
            t.directory.set i (some ⟨row.values, old.xmin, old.xmax⟩) ∨
          ((t.updateRow fns i row).1.directory = t.directory.set i none ∧
            (t.updateRow fns i row).2 ≠ .ok ())) := by
  unfold updateRow
  split
  · exact .inl ⟨rfl, nofun⟩
  · rename_i old checked
    have removed := touchIndexes_dir t old (fun idx key => idx.remove key i)
    rcases andThen_cases (t.removeFromIndexes old i) _ with ⟨fail, eq⟩ | ⟨-, eq⟩
    · rw [eq]
      exact .inl ⟨removed, fail⟩
    · rw [eq]
      refine .inr ⟨old, (checkUpdate_ok checked).2, ?_⟩
      unfold replaceRow
      split
      · refine .inl ((indexAndMark_dir _ _ _).trans ?_)
        exact congrArg (List.set · i _) removed
      · exact .inr ⟨congrArg (List.set · i none) removed, nofun⟩

/-- An update in a transaction appends a row version when it succeeds. -/
theorem updateVersion_dir (fns : Functions) (t : Table) (i : Nat) (row : Row)
    (xid : Nat) :
    ((t.updateRowVersioned fns i row xid).1.directory = t.directory ∧
        (t.updateRowVersioned fns i row xid).2 ≠ .ok ()) ∨
      ∃ old, t.directory[i]? = some (some old) ∧
        ((t.updateRowVersioned fns i row xid).1.directory =
            t.directory.set i (some (old.setXmax xid)) ++ [some ⟨row.values, xid, 0⟩] ∨
          (∃ slot ∈ [none, some (old.setXmax xid)],
            (t.updateRowVersioned fns i row xid).1.directory = t.directory.set i slot) ∧
            (t.updateRowVersioned fns i row xid).2 ≠ .ok ()) := by
  unfold updateRowVersioned
  split
  · exact .inl ⟨rfl, nofun⟩
  · rename_i old checked
    refine .inr ⟨old, (checkUpdate_ok checked).2, ?_⟩
    unfold replaceRow
    split
    · rcases appendIndexed_dir { t with directory := t.directory.set i (some (old.setXmax xid)) }
        ((row.setXmin xid).setXmax 0) with ⟨eq, fail⟩ | appended
      · exact .inr ⟨⟨_, by simp, eq⟩, fail⟩
      · exact .inl appended
    · exact .inr ⟨⟨none, by simp, rfl⟩, nofun⟩

theorem updateVersion_length (fns : Functions) (t : Table) (i : Nat) (row : Row) (xid : Nat) :
    ((t.updateRowVersioned fns i row xid).1.directory.length = t.directory.length ∧
        (t.updateRowVersioned fns i row xid).2 ≠ .ok ()) ∨
      (t.updateRowVersioned fns i row xid).1.directory.length = t.directory.length + 1 := by
  rcases updateVersion_dir fns t i row xid with
    ⟨eq, fail⟩ | ⟨old, -, appended | ⟨⟨slot, -, eq⟩, fail⟩⟩
  · exact .inl ⟨congrArg List.length eq, fail⟩
  · exact .inr (by simp [appended])
  · exact .inl ⟨by simp [eq], fail⟩

theorem updateVersion_dir_ok {fns : Functions} {t : Table} {i xid : Nat}
    {row old : Row} (stored : t.directory[i]? = some (some old))
    (ok : (t.updateRowVersioned fns i row xid).2 = .ok ()) :
    (t.updateRowVersioned fns i row xid).1.directory =
      t.directory.set i (some (old.setXmax xid)) ++ [some ⟨row.values, xid, 0⟩] := by
  rcases updateVersion_dir fns t i row xid with
    ⟨-, fail⟩ | ⟨hit, isStored, appended | ⟨-, fail⟩⟩
  · exact absurd ok fail
  · rw [stored] at isStored
    cases isStored
    exact appended
  · exact absurd ok fail

theorem deleteRow_dir (t : Table) (i : Nat) :
    ((t.deleteRow i).1.directory = t.directory ∧ (t.deleteRow i).2 ≠ .ok ()) ∨
      (i < t.directory.length ∧ (t.deleteRow i).1.directory = t.directory.eraseIdx i) := by
  unfold deleteRow
  split
  · exact .inl ⟨rfl, nofun⟩
  · rename_i isIn
    refine .inr ⟨Nat.lt_of_not_le isIn, ?_⟩
    exact (andThen_markDirty_dir _).trans (reindex_dir _)

theorem deleteVersion_dir (t : Table) (i xid : Nat) :
    ((t.deleteRowVersioned i xid).1.directory = t.directory ∧
        (t.deleteRowVersioned i xid).2 ≠ .ok ()) ∨
      ∃ old, t.directory[i]? = some (some old) ∧
        ((t.deleteRowVersioned i xid).1.directory = t.directory.set i (some (old.setXmax xid)) ∨
          ((t.deleteRowVersioned i xid).1.directory = t.directory.set i none ∧
            (t.deleteRowVersioned i xid).2 ≠ .ok ())) := by
  unfold deleteRowVersioned
  split
  · exact .inl ⟨rfl, nofun⟩
  · rename_i old stored
    refine .inr ⟨old, getRow_eq_ok_iff.mp stored, ?_⟩
    unfold replaceRow
    split
    · exact .inl (andThen_markDirty_dir _)
    · exact .inr ⟨rfl, nofun⟩

theorem createIndex_dir (t : Table) (name : String) (cols : List String) :
    (t.createSecondaryIndex name cols).1.directory = t.directory := by
  unfold createSecondaryIndex
  split
  · rfl
  · split
    · rfl
    · split
      · rfl
      · exact (andThen_markDirty_dir _).trans (buildNamed_dir _ _ _)

theorem dropIndex_dir (t : Table) (name : String) (cols : List String) :
    (t.dropSecondaryIndex name cols).directory = t.directory := by
  unfold dropSecondaryIndex
  dsimp only [markDirty]
  split
  · split <;> rfl
  · rfl

/-! ## The rows a write leaves -/

/-- The columns and the foreign keys are the same. -/
structure SameColumns (t u : Table) : Prop where
  columns : u.columns = t.columns
  foreignKeys : u.foreignKeys = t.foreignKeys

/-- The table with the rows, the contents of the indexes and the dirty mark of another. -/
def withContents (t u : Table) : Table :=
  { u with
    directory := t.directory
    columnIndices := t.columnIndices
    namedIndices := t.namedIndices
    dirty := t.dirty }

def SameFrame (t u : Table) : Prop := t.withContents u = t

theorem SameFrame.refl (t : Table) : SameFrame t t := rfl

theorem SameFrame.trans {v : Table} (fst : SameFrame t u) (snd : SameFrame u v) :
    SameFrame t v := by
  unfold SameFrame at fst snd
  exact (congrArg t.withContents snd).trans fst

section

variable (frame : SameFrame t u)
include frame

theorem SameFrame.congr {α : Type} (field : Table → α) :
    field (t.withContents u) = field t := congrArg field frame

theorem SameFrame.sameColumns : SameColumns t u :=
  ⟨frame.congr Table.columns, frame.congr Table.foreignKeys⟩

theorem SameFrame.touch (row : Row) (f : BTreeIndex → IndexKey → BTreeIndex) :
    SameFrame t (u.touchIndexes row f).1 := by
  refine frame.trans ?_
  unfold touchIndexes
  dsimp only
  split <;> rfl

theorem SameFrame.replace (i : Nat) (row : Row) : SameFrame t (u.replaceRow i row).1 := by
  refine frame.trans ?_
  unfold replaceRow
  split <;> rfl

theorem SameFrame.appendIndexed (row : Row) : SameFrame t (u.appendIndexed row).1 := by
  have appended : SameFrame t (u.appendRow row).1 := by
    refine frame.trans ?_
    unfold appendRow
    split <;> rfl
  exact andThen_keeps appended (fun _ frame =>
    andThen_keeps (frame.touch row _) (fun _ frame => frame))

theorem SameFrame.reindexAfterDelete : SameFrame t u.reindexAfterDelete.1 := by
  unfold Table.reindexAfterDelete
  refine seq_keeps ?_ frame
  intro step mem v frame
  refine frame.trans ?_
  simp only [List.mem_append, List.mem_map] at mem
  rcases mem with (⟨e, -, rfl⟩ | ⟨e, -, rfl⟩) | ⟨e, -, rfl⟩
  · dsimp only
    split
    · rfl
    · unfold buildIndex
      split
      · rfl
      · split <;> rfl
  all_goals
    dsimp only
    split
    · split <;> rfl
    · rfl

end

theorem insertRow_sameFrame (fns : Functions) (t : Table) (row : Row) :
    SameFrame t (t.insertRow fns row).1 := by
  unfold insertRow
  split
  · rfl
  · exact SameFrame.appendIndexed (.refl t) row

theorem updateRow_sameFrame (fns : Functions) (t : Table) (i : Nat) (row : Row) :
    SameFrame t (t.updateRow fns i row).1 := by
  unfold updateRow
  split
  · rfl
  · refine andThen_keeps (SameFrame.touch (.refl t) _ _) (fun _ frame => ?_)
    refine andThen_keeps (frame.replace i _) (fun _ frame => ?_)
    exact andThen_keeps (frame.touch _ _) (fun _ frame => frame)

theorem updateVersion_sameFrame (fns : Functions) (t : Table) (i : Nat) (row : Row) (xid : Nat) :
    SameFrame t (t.updateRowVersioned fns i row xid).1 := by
  unfold updateRowVersioned
  split
  · rfl
  · exact andThen_keeps (SameFrame.replace (.refl t) i _) (fun _ frame => frame.appendIndexed _)

theorem deleteRow_sameFrame (t : Table) (i : Nat) : SameFrame t (t.deleteRow i).1 := by
  unfold deleteRow
  split
  · rfl
  · refine andThen_keeps ?_ (fun _ frame => frame)
    exact @SameFrame.reindexAfterDelete t { t with directory := t.directory.eraseIdx i } rfl

theorem deleteVersion_sameFrame (t : Table) (i xid : Nat) :
    SameFrame t (t.deleteRowVersioned i xid).1 := by
  unfold deleteRowVersioned
  split
  · rfl
  · exact andThen_keeps (SameFrame.replace (.refl t) i _) (fun _ frame => frame)

/-- The table has the columns of `t`, and each of its rows has the values of a row of `t` or
    those that were written. -/
structure Grew (written : List Value → Prop) (t u : Table) : Prop extends SameColumns t u where
  rows : ∀ row, some row ∈ u.directory →
    (∃ old, some old ∈ t.directory ∧ old.values = row.values) ∨ written row.values

theorem grew_of_same (eq : SameColumns t u) (slots : u.directory = t.directory) : Grew written t u :=
  ⟨eq, fun stored mem => .inl ⟨stored, slots ▸ mem, rfl⟩⟩

theorem grew_of_append (eq : SameColumns t u)
    (slots : u.directory = t.directory ∨ u.directory = t.directory ++ [some row]) :
    Grew (· = row.values) t u := by
  rcases slots with slots | slots
  · exact grew_of_same eq slots
  · refine ⟨eq, fun stored mem => ?_⟩
    rw [slots] at mem
    rcases List.mem_append.mp mem with mem | mem
    · exact .inl ⟨stored, mem, rfl⟩
    · obtain rfl : stored = row := by simpa using mem
      exact .inr rfl

theorem grew_of_set {slot : Option Row} (eq : SameColumns t u)
    (slots : u.directory = t.directory.set i slot) (isSlot : ∀ new, slot = some new →
      (∃ old, some old ∈ t.directory ∧ old.values = new.values) ∨ written new.values) :
    Grew written t u := by
  refine ⟨eq, fun stored mem => ?_⟩
  rw [slots] at mem
  rcases List.mem_or_eq_of_mem_set mem with mem | mem
  · exact .inl ⟨stored, mem, rfl⟩
  · exact isSlot stored mem.symm

theorem insertRow_grew (fns : Functions) (t : Table) (row : Row) :
    Grew (· = row.values) t (t.insertRow fns row).1 := by
  exact grew_of_append (insertRow_sameFrame fns t row).sameColumns
    ((insertRow_dir fns t row).imp And.left id)

theorem updateRow_grew (fns : Functions) (t : Table) (i : Nat) (row : Row) :
    Grew (· = row.values) t (t.updateRow fns i row).1 := by
  have same := (updateRow_sameFrame fns t i row).sameColumns
  rcases updateRow_dir fns t i row with ⟨kept, -⟩ | ⟨old, -, slots | ⟨slots, -⟩⟩
  · exact grew_of_same same kept
  · exact grew_of_set same slots (fun new isNew => .inr (by cases isNew; rfl))
  · exact grew_of_set same slots nofun

theorem updateVersion_grew (fns : Functions) (t : Table) (i : Nat) (row : Row) (xid : Nat) :
    Grew (· = row.values) t (t.updateRowVersioned fns i row xid).1 := by
  have same := (updateVersion_sameFrame fns t i row xid).sameColumns
  rcases updateVersion_dir fns t i row xid with
    ⟨kept, -⟩ | ⟨old, stored, appended | ⟨⟨slot, isSlot, slots⟩, -⟩⟩
  · exact grew_of_same same kept
  · refine ⟨same, fun new mem => ?_⟩
    rw [appended, List.mem_append, List.mem_singleton] at mem
    rcases mem with mem | isNew
    · rcases List.mem_or_eq_of_mem_set mem with mem | isNew
      · exact .inl ⟨new, mem, rfl⟩
      · cases isNew
        exact .inl ⟨old, List.mem_of_getElem? stored, rfl⟩
    · cases isNew
      exact .inr rfl
  · refine grew_of_set same slots (fun new isNew => .inl ⟨old, List.mem_of_getElem? stored, ?_⟩)
    subst isNew
    obtain rfl : new = old.setXmax xid := by simpa using isSlot
    rfl

theorem deleteRow_grew (t : Table) (i : Nat) : Grew (fun _ => False) t (t.deleteRow i).1 := by
  refine ⟨(deleteRow_sameFrame t i).sameColumns, fun row mem => .inl ⟨row, ?_, rfl⟩⟩
  rcases deleteRow_dir t i with ⟨kept, -⟩ | ⟨-, erased⟩
  · rwa [kept] at mem
  · rw [erased] at mem
    exact List.mem_of_mem_eraseIdx mem

theorem deleteVersion_grew (t : Table) (i xid : Nat) :
    Grew (fun _ => False) t (t.deleteRowVersioned i xid).1 := by
  have same := (deleteVersion_sameFrame t i xid).sameColumns
  rcases deleteVersion_dir t i xid with ⟨kept, -⟩ | ⟨old, stored, slots | ⟨slots, -⟩⟩
  · exact grew_of_same same kept
  · refine grew_of_set same slots (fun new isNew => .inl ⟨old, ?_, by cases isNew; rfl⟩)
    exact List.mem_of_getElem? stored
  · exact grew_of_set same slots nofun

end NobugDb.Table

namespace NobugDb.Database

variable {db db' : Database}

def slots (db : Database) (name : String) : Option (List (Option Row)) :=
  (db.tables.lookup name).map Table.directory

/-- Every table has the rows it had, and each where it was. -/
def SameRows (db db' : Database) : Prop := ∀ name, db'.slots name = db.slots name

theorem SameRows.refl (db : Database) : SameRows db db := fun _ => rfl

theorem SameRows.trans {last : Database} (fst : SameRows db db') (snd : SameRows db' last) :
    SameRows db last := fun name => (snd name).trans (fst name)

theorem SameRows.symm (eq : SameRows db db') : SameRows db' db := fun name => (eq name).symm

theorem write_slots (name key : String) (f : Table → Table × Except Exn Unit) :
    (db.write name f).1.slots key =
      if key = name then (db.tables.lookup name).map (fun t => (f t).1.directory) else db.slots key := by
  unfold slots
  cases hit : db.tables.lookup name with
  | none =>
    rw [write_missing hit]
    split
    · rename_i eq
      rw [eq, missing, hit]
      rfl
    · rfl
  | some t =>
    rw [write_found hit, Misc.lookup_adjust]
    split
    · rename_i eq
      rw [eq, hit]
      rfl
    · rfl

end NobugDb.Database
