import NobugDb.Core.Proofs.ActiveSession
import NobugDb.Core.Proofs.IndexBuilding
import NobugDb.Core.Proofs.SeenRows
import NobugDb.Executor.PartitionedDml
import NobugDb.Executor.Proofs.RowWrites
import NobugDb.Misc.Relocation

/-!
# Rows that move to another partition

An UPDATE moves a row to another partition by a delete in one child and an insert in another.
Nothing undoes the delete when the insert throws.
-/

namespace NobugDb

open TransactionManager

/-! ## Reindexing after a delete -/

namespace Table

variable {t : Table}

/-- `reindex_after_delete` can fill every index: where there is one, the slots of the table can be
    read, and the rows have the columns of the named ones. -/
structure Reindexable (t : Table) : Prop where
  column : ∀ e ∈ t.columnIndices, (t.getColumnIndex e.1).isSome = true →
    ∃ rows, t.getAllRows = .ok rows
  named : ∀ e ∈ t.indexDefinitions, t.namedIndices.contains e.1 = true →
    ∃ rows, t.getAllRows = .ok rows ∧ ∀ row ∈ rows, ∃ key, t.buildIndexKey row e.2 = .ok key

theorem seq_ok_iff {steps : List (Table → Table × Except Exn Unit)} {R : Table → Prop}
    (keeps : ∀ step ∈ steps, ∀ u, R u → R (step u).1)
    (alike : ∀ step ∈ steps, ∀ u, R u → ((step u).2 = .ok () ↔ (step t).2 = .ok ())) {u : Table}
    (start : R u) : (sequence steps u).2 = .ok () ↔ ∀ step ∈ steps, (step t).2 = .ok () := by
  induction steps generalizing u with
  | nil => simp [sequence]
  | cons step steps ih =>
    have rest := ih (fun s mem => keeps s (List.mem_cons_of_mem step mem))
      (fun s mem => alike s (List.mem_cons_of_mem step mem))
      (keeps step List.mem_cons_self u start)
    rw [List.forall_mem_cons, ← alike step List.mem_cons_self u start, ← rest, sequence]
    generalize step u = result
    obtain ⟨next, out⟩ := result
    cases out with
    | error e => simp
    | ok _ => simp

theorem bind_fillIndex_ok_iff {key : Row → Except Exn IndexKey} :
    (∃ idx, t.getAllRows.bind (fillIndex key) = .ok idx) ↔
      ∃ rows, t.getAllRows = .ok rows ∧ ∀ row ∈ rows, ∃ k, key row = .ok k := by
  cases t.getAllRows with
  | error e => simp [Except.bind]
  | ok rows =>
    refine fillIndex_ok_iff.trans ⟨fun all => ⟨rows, rfl, all⟩, ?_⟩
    rintro ⟨_, ⟨⟩, all⟩
    exact all

theorem refillColumn_ok_iff (e : String × BTreeIndex) :
    (refillColumn e t).2 = .ok () ↔
      ((t.getColumnIndex e.1).isSome = true → ∃ rows, t.getAllRows = .ok rows) := by
  unfold refillColumn
  cases hit : t.getColumnIndex e.1 with
  | none => simp
  | some i =>
    have filled := @bind_fillIndex_ok_iff t (fun row => .ok [(row.getValue? i).getD .null])
    simp only [buildIndex, hit]
    split
    · rename_i exn fail
      rw [fail] at filled
      simpa using fun rows read => filled.mpr ⟨rows, read, fun row _ => ⟨_, rfl⟩⟩
    · rename_i idx isIndex
      obtain ⟨rows, read, -⟩ := filled.mp ⟨idx, isIndex⟩
      exact iff_of_true rfl (fun _ => ⟨rows, read⟩)

theorem refillNamed_ok_iff (e : String × List String) :
    (refillNamed e t).2 = .ok () ↔
      (t.namedIndices.contains e.1 = true → ∃ rows, t.getAllRows = .ok rows ∧
        ∀ row ∈ rows, ∃ key, t.buildIndexKey row e.2 = .ok key) := by
  unfold refillNamed
  have filled := @bind_fillIndex_ok_iff t (fun row => t.buildIndexKey row e.2)
  cases has : t.namedIndices.contains e.1 with
  | false => simp
  | true =>
    rw [if_pos rfl, ← filled]
    split
    · rename_i exn fail
      rw [fail]
      simp
    · rename_i idx isIndex
      exact iff_of_true rfl (fun _ => ⟨idx, isIndex⟩)

theorem reindex_ok_iff : t.reindexAfterDelete.2 = .ok () ↔ t.Reindexable := by
  rw [reindex_eq, @seq_ok_iff t _ (fun u => u.directory = t.directory ∧
    u.columns = t.columns ∧ ∀ name, u.namedIndices.contains name = t.namedIndices.contains name)
    _ _ t ⟨rfl, rfl, fun _ => rfl⟩]
  · simp only [List.mem_append, List.mem_map, or_imp, forall_and, forall_exists_index, and_imp,
      forall_apply_eq_imp_iff₂, refillColumn_ok_iff, refillNamed_ok_iff]
    exact ⟨fun all => ⟨all.1, all.2⟩, fun able => ⟨able.column, able.named⟩⟩
  · rintro step mem u ⟨dir, cols, names⟩
    simp only [List.mem_append, List.mem_map] at mem
    rcases mem with ⟨e, -, rfl⟩ | ⟨e, -, rfl⟩
    · unfold refillColumn
      split
      · exact ⟨dir, cols, names⟩
      · unfold buildIndex
        split
        · exact ⟨dir, cols, names⟩
        · split <;> exact ⟨dir, cols, names⟩
    · unfold refillNamed
      split
      · split
        · exact ⟨dir, cols, fun name => (Misc.adjust_contains _ name _ _).trans (names name)⟩
        · rename_i idx _
          exact ⟨dir, cols, fun name =>
            (Misc.adjust_contains e.1 name (fun _ => idx) _).trans (names name)⟩
      · exact ⟨dir, cols, names⟩
  · rintro step mem u ⟨dir, cols, names⟩
    have rows : u.getAllRows = t.getAllRows := getAllRows_congr dir
    have idx (name : String) : u.getColumnIndex name = t.getColumnIndex name := by
      unfold getColumnIndex
      rw [cols]
    simp only [List.mem_append, List.mem_map] at mem
    rcases mem with ⟨e, -, rfl⟩ | ⟨e, -, rfl⟩
    · rw [refillColumn_ok_iff, refillColumn_ok_iff, rows, idx]
    · have key (row : Row) : u.buildIndexKey row e.2 = t.buildIndexKey row e.2 := by
        unfold buildIndexKey
        simp only [idx]
      rw [refillNamed_ok_iff, refillNamed_ok_iff, rows, names]
      simp only [key]

/-! ## Rows a table takes -/

/-- `insert_row` finds no violation, and the row fits a page. -/
def Takes (fns : Functions) (t : Table) (row : Row) : Prop :=
  t.checkWrite fns row none "Row does not satisfy table constraints" = .ok () ∧ fits row = true

theorem insertRow_dir_of_takes {fns : Functions} {row : Row} (takes : t.Takes fns row) :
    (t.insertRow fns row).1.directory = t.directory ++ [some row] := by
  unfold insertRow appendRow
  rw [takes.1, if_pos takes.2]
  exact indexAndMark_dir _ _ _

theorem insertRow_of_not_takes {fns : Functions} {row : Row} (refuses : ¬ t.Takes fns row) :
    (t.insertRow fns row).1.directory = t.directory ∧ (t.insertRow fns row).2 ≠ .ok () := by
  unfold insertRow
  split
  · exact ⟨rfl, nofun⟩
  · rename_i checked
    unfold appendRow
    rw [if_neg (fun fitting => refuses ⟨checked, fitting⟩)]
    exact ⟨rfl, nofun⟩

end Table

/-! ## The rows a session sees -/

namespace TransactionManager

variable {tm : TransactionManager} {reader : Reader} {slots : List (Option Row)} {row : Row} {i : Nat}

/-- The values the reader sees in the slots of a table. -/
def seenSlots (tm : TransactionManager) (reader : Reader) (slots : List (Option Row)) :
    Multiset (List Value) := tm.seen reader slots.reduceOption

theorem seenSlots_append (slots : List (Option Row)) (row : Row) :
    tm.seenSlots reader (slots ++ [some row]) = tm.seenSlots reader slots + tm.share reader row := by
  unfold seenSlots
  rw [List.reduceOption_append, seen_append]
  exact congrArg _ (seen_single tm reader row)

theorem seenSlots_around (before behind : List (Option Row)) (row : Row) :
    tm.seenSlots reader (before ++ some row :: behind) =
      tm.seenSlots reader (before ++ behind) + tm.share reader row := by
  unfold seenSlots
  simp only [List.reduceOption_append, List.reduceOption_cons_of_some, seen_append]
  rw [← List.singleton_append, seen_append, seen_single]
  abel

theorem seenSlots_eraseIdx (stored : slots[i]? = some (some row)) :
    tm.seenSlots reader (slots.eraseIdx i) + tm.share reader row = tm.seenSlots reader slots := by
  obtain ⟨isIn, isRow⟩ := List.getElem?_eq_some_iff.mp stored
  rw [List.eraseIdx_eq_take_drop_succ, ← seenSlots_around, ← isRow, List.getElem_cons_drop,
    List.take_append_drop]

theorem seenSlots_set (stored : slots[i]? = some (some row)) (slot : Option Row) :
    tm.seenSlots reader (slots.set i slot) + tm.share reader row =
      tm.seenSlots reader slots + (slot.map (tm.share reader)).getD 0 := by
  have inside := (List.getElem?_eq_some_iff.mp stored).1
  rw [← seenSlots_eraseIdx stored, List.set_eq_take_append_cons_drop, if_pos inside,
    List.eraseIdx_eq_take_drop_succ]
  cases slot with
  | some new =>
    rw [seenSlots_around, add_right_comm]
    rfl
  | none =>
    unfold seenSlots
    simp [List.reduceOption_append]

end TransactionManager

namespace Database

variable {fns : Functions} {s : Nat} {db db' : Database} {name key : String} {t : Table} {i : Nat}
  {old : Row} {children : List String}

/-- The values of the rows of a table that the active session sees. -/
def seenIn (db : Database) (name : String) : Multiset (List Value) :=
  db.transactionManager.seenSlots db.reader ((db.slots name).getD [])

/-- The logical rows of a partitioned table: those the active session sees in its children. -/
def logicalRows (db : Database) (children : List String) : Multiset (List Value) :=
  (children.map db.seenIn).sum

theorem seenIn_of_lookup (hit : db.tables.lookup name = some t) :
    db.seenIn name = db.transactionManager.seenSlots db.reader t.directory := by
  rw [seenIn, slots, hit]
  rfl

theorem write_reader (name : String) (f : Table → Table × Except Exn Unit) :
    (db.write name f).1.reader = db.reader ∧
      (db.write name f).1.transactionManager = db.transactionManager ∧
      (db.write name f).1.writesVersioned = db.writesVersioned := by
  unfold Database.write
  split <;> exact ⟨rfl, rfl, rfl⟩

theorem write_seenIn (hit : db.tables.lookup name = some t)
    (f : Table → Table × Except Exn Unit) (key : String) :
    (db.write name f).1.seenIn key =
      if key = name then db.transactionManager.seenSlots db.reader (f t).1.directory
      else db.seenIn key := by
  obtain ⟨reader, mgr, -⟩ := @write_reader db name f
  rw [seenIn, reader, mgr, write_slots, hit]
  split
  · rfl
  · rfl

theorem write_lookup_of_ne (ne : key ≠ name) (f : Table → Table × Except Exn Unit) :
    (db.write name f).1.tables.lookup key = db.tables.lookup key := by
  cases hit : db.tables.lookup name with
  | none =>
    rw [write_missing hit]
    rfl
  | some t =>
    rw [write_found hit]
    exact (Misc.lookup_adjust name key (fun _ => (f t).1) db.tables).trans (if_neg ne)

theorem logicalRows_shift (once : children.Nodup) {source target : String} (isSource : source ∈ children)
    (isTarget : target ∈ children) {leaves comes : Multiset (List Value)}
    (shift : ∀ key, db'.seenIn key + (if key = source then leaves else 0) =
      db.seenIn key + (if key = target then comes else 0)) :
    db'.logicalRows children + leaves = db.logicalRows children + comes := by
  have all : (children.map (fun key => db'.seenIn key + if key = source then leaves else 0)).sum =
      (children.map (fun key => db.seenIn key + if key = target then comes else 0)).sum :=
    congrArg List.sum (List.map_congr_left (fun key _ => shift key))
  rw [List.sum_map_add, List.sum_map_add, Misc.Relocation.sum_at once isSource,
    Misc.Relocation.sum_at once isTarget] at all
  exact all

theorem perform_insert (values : List Value) :
    db.perform fns s (.insert name values) =
      some (db.write name (fun t => t.insertRow fns ⟨values, db.reader.1, 0⟩)) := by
  have zero : db.writesVersioned = false → db.reader.1 = 0 := by
    unfold writesVersioned reader readerOf
    split
    · exact fun _ => rfl
    · exact fun plain => by rw [plain]; rfl
  simp only [Database.perform]
  congr 2
  funext t
  cases mode : db.writesVersioned with
  | true => rfl
  | false =>
    rw [zero mode]
    rfl

/-- The row can be taken from its table: its version can be stamped or, outside a transaction,
    the indexes filled without it. -/
def CanLeave (db : Database) (t : Table) (i : Nat) (old : Row) : Prop :=
  if db.writesVersioned then Table.fits old = true
  else Table.Reindexable { t with directory := t.directory.eraseIdx i }

/-- The delete of the active session at a position. -/
def removeAt (db : Database) (i : Nat) (t : Table) : Table × Except Exn Unit :=
  if db.writesVersioned then t.deleteRowVersioned i db.reader.1 else t.deleteRow i

theorem delete_seenIn (hit : db.tables.lookup name = some t)
    (stored : t.directory[i]? = some (some old))
    (vis : db.transactionManager.isVisible old.xmin old.xmax db.reader.1 db.reader.2 = true)
    (ids : db.writesVersioned = true → db.reader.1 ≠ 0) :
    (∀ key, (db.write name (db.removeAt i)).1.seenIn key +
        (if key = name then {old.values} else 0) = db.seenIn key) ∧
      ((db.write name (db.removeAt i)).2.outcome = .ok () ↔ db.CanLeave t i old) := by
  have share := share_visible vis
  suffices enough : db.transactionManager.seenSlots db.reader (db.removeAt i t).1.directory +
        {old.values} = db.seenIn name ∧
      ((db.removeAt i t).2 = .ok () ↔ db.CanLeave t i old) by
    refine ⟨fun key => ?_, by rw [write_found hit]; exact enough.2⟩
    rw [write_seenIn hit]
    split
    · rename_i eq
      rw [enough.1, eq]
    · rw [add_zero]
  rw [seenIn_of_lookup hit, ← share]
  unfold CanLeave removeAt
  cases mode : db.writesVersioned with
  | true =>
    simp only [if_true]
    unfold Table.deleteRowVersioned
    rw [Table.getRow_eq_ok_iff.mpr stored]
    -- The stamped version is invisible to its deleter; an emptied slot to everyone.
    have hidden : db.transactionManager.share db.reader (old.setXmax db.reader.1) = 0 := by
      refine share_hidden (Bool.eq_false_iff.mpr fun seen => ?_)
      exact xmax_ne_of_isVisible (ids mode) seen rfl
    have sameSize : Table.fits (old.setXmax db.reader.1) = Table.fits old := rfl
    simp only [Table.replaceRow, sameSize]
    cases fitting : Table.fits old with
    | true =>
      refine ⟨?_, iff_of_true rfl rfl⟩
      show db.transactionManager.seenSlots db.reader
        (t.directory.set i (some (old.setXmax db.reader.1))) + _ = _
      rw [seenSlots_set stored]
      simp [hidden]
    | false =>
      refine ⟨?_, iff_of_false (by simp [Table.andThen]) (by simp)⟩
      show db.transactionManager.seenSlots db.reader (t.directory.set i none) + _ = _
      rw [seenSlots_set stored]
      simp
  | false =>
    simp only [Bool.false_eq_true, if_false]
    have isIn : ¬ t.rowCount ≤ i := Nat.not_le.mpr (List.getElem?_eq_some_iff.mp stored).1
    unfold Table.deleteRow
    rw [if_neg isIn, ← Table.reindex_ok_iff]
    refine ⟨?_, ?_⟩
    · rw [Table.andThen_markDirty_dir, Table.reindex_dir]
      exact seenSlots_eraseIdx stored
    · generalize Table.reindexAfterDelete _ = refilled
      obtain ⟨u, res⟩ := refilled
      cases res <;> simp [Table.andThen]

theorem insert_seenIn (hit : db.tables.lookup name = some t) {values : List Value}
    (takes : t.Takes fns ⟨values, db.reader.1, 0⟩) (key : String) :
    (db.write name (fun t => t.insertRow fns ⟨values, db.reader.1, 0⟩)).1.seenIn key =
      db.seenIn key + (if key = name then {values} else 0) := by
  rw [write_seenIn hit]
  split
  · rename_i eq
    rw [eq, Table.insertRow_dir_of_takes takes, seenSlots_append,
      share_visible (isVisible_own _), seenIn_of_lookup hit]
  · rw [add_zero]

theorem insert_refused {values : List Value} (refuses : ∀ t, db.tables.lookup name = some t →
      ¬ t.Takes fns ⟨values, db.reader.1, 0⟩) (key : String) :
    (db.write name (fun t => t.insertRow fns ⟨values, db.reader.1, 0⟩)).1.seenIn key =
      db.seenIn key := by
  cases hit : db.tables.lookup name with
  | none =>
    rw [write_missing hit]
    rfl
  | some t =>
    rw [write_seenIn hit]
    split
    · rename_i eq
      rw [eq, (Table.insertRow_of_not_takes (refuses t hit)).1, seenIn_of_lookup hit]
    · rfl

end Database

/-! ## Moves -/

namespace Executor

variable {fns : Functions} {s : Nat} {db db' : Database} {childName target : String} {t : Table}
  {i : Nat} {old : Row} {values : List Value} {children : List String} {r : Except Exn Unit}

/-- The row can be taken from its child, and the target takes its new form. -/
structure Movable (fns : Functions) (db : Database) (t : Table) (i : Nat) (old : Row)
    (target : String) (values : List Value) : Prop where
  leaves : db.CanLeave t i old
  taken : ∃ u, db.tables.lookup target = some u ∧ u.Takes fns ⟨values, db.reader.1, 0⟩

/-- The row is still there, in its old or in its new form, and the others are as they were. -/
def KeepsRow (children : List String) (old new : List Value) (db db' : Database) : Prop :=
  db'.logicalRows children = db.logicalRows children ∨
    db'.logicalRows children + {old} = db.logicalRows children + {new}

theorem not_keepsRow {old new : List Value}
    (lost : db'.logicalRows children + {old} = db.logicalRows children) :
    ¬ KeepsRow children old new db db' := by
  have fewer := congrArg Multiset.card lost
  rw [Multiset.card_add, Multiset.card_singleton] at fewer
  rintro (eq | changed)
  · rw [eq] at fewer
    omega
  · have as_many := congrArg Multiset.card changed
    rw [Multiset.card_add, Multiset.card_add, Multiset.card_singleton, Multiset.card_singleton]
      at as_many
    omega

theorem runs_move (moves : target ≠ childName)
    (runs : (writeRouted childName i target values).Runs fns s db db' r) :
    (db' = (db.write childName (db.removeAt i)).1 ∧ r ≠ .ok () ∧
        (db.write childName (db.removeAt i)).2.outcome ≠ .ok ()) ∨
      ((db.write childName (db.removeAt i)).2.outcome = .ok () ∧
        ∃ resp, (db.write childName (db.removeAt i)).1.write target (fun t =>
          t.insertRow fns ⟨values, (db.write childName (db.removeAt i)).1.reader.1, 0⟩) =
            (db', resp) ∧ r = resp.outcome) := by
  generalize isDeleted : db.write childName (db.removeAt i) = deleted
  unfold writeRouted at runs
  rw [if_neg moves] at runs
  obtain ⟨db₁, resp, looked, runs⟩ | ⟨e, looked, -⟩ := Body.runs_bind_iff.mp runs
  · obtain ⟨ran, -⟩ := Body.runs_perform_ok looked
    cases ran
    obtain ⟨db₂, resp, performed, runs⟩ | ⟨e, performed, rfl⟩ := Body.runs_bind_iff.mp runs
    · obtain ⟨ran, ok⟩ := Body.runs_perform_ok performed
      obtain rfl : deleted = (db₂, resp) := isDeleted.symm.trans (Option.some.inj ran)
      refine .inr ⟨ok, ?_⟩
      obtain ⟨db₃, resp, inserted, runs⟩ | ⟨e, inserted, rfl⟩ := Body.runs_bind_iff.mp runs
      · obtain ⟨ran, ok⟩ := Body.runs_perform_ok inserted
        obtain ⟨rfl, rfl⟩ := Body.runs_pure_iff.mp runs
        rw [Database.perform_insert] at ran
        exact ⟨resp, Option.some.inj ran, ok.symm⟩
      · obtain ⟨answer, ran, fail⟩ := Body.runs_perform_error inserted
        rw [Database.perform_insert] at ran
        exact ⟨answer, Option.some.inj ran, fail.symm⟩
    · obtain ⟨answer, ran, fail⟩ := Body.runs_perform_error performed
      obtain rfl : deleted = (db', answer) := isDeleted.symm.trans (Option.some.inj ran)
      exact .inl ⟨rfl, nofun, by simp [fail]⟩
  · obtain ⟨answer, ran, fail⟩ := Body.runs_perform_error looked
    cases ran
    cases fail

/-- **Moved rows.** When an UPDATE moves a row to another partition, whatever comes of the insert
    there, the row is kept in its old or new form exactly when it can be taken from its child and
    the other one takes its new form. -/
theorem moved_row_kept_iff (once : children.Nodup) (isChild : childName ∈ children)
    (isTarget : target ∈ children) (moves : target ≠ childName)
    (found : db.tables.lookup childName = some t) (stored : t.directory[i]? = some (some old))
    (visible : db.transactionManager.isVisible old.xmin old.xmax db.reader.1 db.reader.2 = true)
    (ids : db.writesVersioned = true → db.reader.1 ≠ 0)
    (runs : (writeRouted childName i target values).Runs fns s db db' r) :
    KeepsRow children old.values values db db' ↔ Movable fns db t i old target values := by
  obtain ⟨gone, leaves⟩ := Database.delete_seenIn found stored visible ids
  have shift {db' : Database} (seen : ∀ key, db'.seenIn key +
      (if key = childName then {old.values} else 0) = db.seenIn key) :
      ¬ KeepsRow children old.values values db db' := by
    refine not_keepsRow ?_
    have lost := @Database.logicalRows_shift db db' children once childName target isChild isTarget
      {old.values} 0 (fun key => by rw [seen, ite_self, add_zero])
    rwa [add_zero] at lost
  obtain ⟨rfl, -, failed⟩ | ⟨ok, response, inserted, -⟩ := runs_move moves runs
  · exact iff_of_false (shift gone) (fun movable => failed (leaves.mpr movable.leaves))
  · obtain rfl := congrArg Prod.fst inserted
    have same := @Database.write_lookup_of_ne db childName target moves (db.removeAt i)
    have reader := (@Database.write_reader db childName (db.removeAt i)).1
    by_cases taken : ∃ u, db.tables.lookup target = some u ∧ u.Takes fns ⟨values, db.reader.1, 0⟩
    · obtain ⟨u, isTable, takes⟩ := taken
      refine iff_of_true (.inr ?_) ⟨leaves.mp ok, u, isTable, takes⟩
      refine Database.logicalRows_shift once isChild isTarget (fun key => ?_)
      rw [Database.insert_seenIn (same.trans isTable) (by rw [reader]; exact takes),
        add_right_comm, gone]
    · refine iff_of_false (shift (fun key => ?_)) (fun movable => taken movable.taken)
      rw [Database.insert_refused (fun u isTable takes => taken ⟨u, same.symm.trans isTable, by
        rw [← reader]; exact takes⟩), gone]

/-! ## Readings by hour -/

section Readings

open Engine (plainEnv)

/-- Readings, partitioned by the hour into night and day. -/
def readings : PartitionedTableMetadata :=
  { kind := .range
    keyColumn := "hour"
    partitions :=
      [⟨"night", { range := some ⟨.int 0, .int 6⟩ }⟩, ⟨"day", { range := some ⟨.int 6, .int 24⟩ }⟩] }

/-- A table of readings: hours, and numbers that are used once. -/
def readingTable (name : String) (rows : List (Int × Int)) : Table :=
  rows.foldl
    (fun t row => (t.insertRow plainEnv.functions ⟨[.int row.1, .int row.2], 0, 0⟩).1)
    (Table.rebuildIndexes
      { name := name
        columns := [⟨"hour", .int, false, false, false, none⟩, ⟨"number", .int, true, false, true, none⟩] }).1

/-- The database of the readings at night and by day. -/
def readingsOf (night day : List (Int × Int)) : Database :=
  { tables := [("day", readingTable "day" day), ("night", readingTable "night" night),
      ("readings", readingTable "readings" [])] }

/-- `UPDATE readings SET hour = hour + step WHERE hour < bound`. -/
def laterReadings (step bound : Int) : UpdateStatement :=
  ⟨"readings", [("hour", .binary .plus (.identifier "hour") (.literal (.int step)))],
    some (.binary .lt (.identifier "hour") (.literal (.int bound)))⟩

/-- The reading of number 1 moves from the night to the day. -/
theorem reading_moves :
    let db := readingsOf [(4, 1)] [(12, 2)]
    ∃ db', (writeRouted "night" 0 "day" [.int 7, .int 1]).Runs plainEnv.functions 0 db db' (.ok ()) ∧
      KeepsRow ["night", "day"] [.int 4, .int 1] [.int 7, .int 1] db db' := by
  intro db
  have runs := @Body.runs_of_result Unit plainEnv.functions 0 db
    (writeRouted "night" 0 "day" [.int 7, .int 1]) (.ok ()) (by decide +kernel)
  have once : ["night", "day"].Nodup := by decide
  have stored : (readingTable "night" [(4, 1)]).directory[0]? =
      some (some ⟨[.int 4, .int 1], 0, 0⟩) := by decide +kernel
  have takes : (readingTable "day" [(12, 2)]).Takes plainEnv.functions ⟨[.int 7, .int 1], 0, 0⟩ :=
    ⟨by decide +kernel, by decide +kernel⟩
  have leaves := Table.reindex_ok_iff.mp (by decide +kernel :
    (Table.reindexAfterDelete { readingTable "night" [(4, 1)] with
      directory := (readingTable "night" [(4, 1)]).directory.eraseIdx 0 }).2 = .ok ())
  exact ⟨_, runs, (moved_row_kept_iff once (by decide) (by decide) (by decide) rfl stored rfl
    (by decide +kernel) runs).mpr ⟨leaves, _, rfl, takes⟩⟩

/-- Number 1 is taken by day already: the statement fails, and the reading of the night is lost. -/
theorem refused_reading_is_lost :
    let db := readingsOf [(4, 1)] [(12, 1)]
    ∃ db', (executePartitionedUpdate plainEnv readings (laterReadings 3 6)).Runs
        plainEnv.functions 0 db db' (.ok (.errorResult
          "Update failed: Constraint Error: Row does not satisfy table constraints")) ∧
      db.logicalRows ["night", "day"] = {[.int 4, .int 1], [.int 12, .int 1]} ∧
      db'.logicalRows ["night", "day"] = {[.int 12, .int 1]} :=
  ⟨_, Body.runs_of_result (by decide +kernel), by decide +kernel, by decide +kernel⟩

end Readings

end Executor

end NobugDb
