import NobugDb.Executor.Proofs.MovedRows

/-!
# What others see of a write

A version that a transaction stamps or inserts shows nothing to other sessions before the
commit. A write in place shows at once, unless nobody else sees the version it is made to.
-/

namespace NobugDb

open TransactionManager (Reader seenSlots seenSlots_append share_visible)
open Table
open Option (some.inj)

/-! ## Slots of a write -/

namespace Table

variable {fns : Functions} {t : Table} {i xid : Nat} {row old : Row}

/-- `update_row` comes to the replacement of the row: its checks pass, and the indexes let the
    old row go. -/
def Rewrites (fns : Functions) (t : Table) (i : Nat) (row : Row) : Prop :=
  ∃ old, t.checkUpdate fns i row = .ok old ∧ (t.removeFromIndexes old i).2 = .ok ()

theorem updateRow_dir_of_rewrites (stored : t.directory[i]? = some (some old))
    (rewrites : t.Rewrites fns i row) :
    (t.updateRow fns i row).1.directory =
      t.directory.set i (if fits row then some ⟨row.values, old.xmin, old.xmax⟩ else none) := by
  obtain ⟨hit, checked, removes⟩ := rewrites
  obtain rfl : hit = old := by
    have same := (checkUpdate_ok checked).2
    rw [stored] at same
    exact (some.inj (some.inj same)).symm
  have removed := touchIndexes_dir t hit (fun idx key => idx.remove key i)
  unfold updateRow
  rw [checked]
  dsimp only
  rcases andThen_cases (t.removeFromIndexes hit i) _ with ⟨fail, -⟩ | ⟨-, same⟩
  · exact absurd removes fail
  · rw [same]
    have size : fits (⟨row.values, hit.xmin, hit.xmax⟩ : Row) = fits row := fits_of_values rfl
    unfold replaceRow
    rw [size]
    split
    · exact (indexAndMark_dir _ _ _).trans (congrArg (List.set · i _) removed)
    · exact congrArg (List.set · i none) removed

theorem updateRow_dir_of_not_rewrites (refuses : ¬ t.Rewrites fns i row) :
    (t.updateRow fns i row).1.directory = t.directory := by
  unfold updateRow
  split
  · rfl
  · rename_i old checked
    rcases andThen_cases (t.removeFromIndexes old i) _ with ⟨-, eq⟩ | ⟨removes, -⟩
    · rw [eq]
      exact touchIndexes_dir t old _
    · exact absurd ⟨old, checked, removes⟩ refuses

/-- A stored row fits, so its version is stamped wherever the write fails. -/
theorem updateVersion_dir_of_fit (fit : t.RowsFit) :
    (t.updateRowVersioned fns i row xid).1.directory = t.directory ∨
      ∃ old, t.directory[i]? = some (some old) ∧
        ((t.updateRowVersioned fns i row xid).1.directory = t.directory.set i (some (old.setXmax xid)) ∨
          (t.updateRowVersioned fns i row xid).1.directory =
            t.directory.set i (some (old.setXmax xid)) ++ [some ⟨row.values, xid, 0⟩]) := by
  unfold updateRowVersioned
  split
  · exact .inl rfl
  · rename_i old checked
    have stored := (checkUpdate_ok checked).2
    have small : fits (old.setXmax xid) = true :=
      (fits_of_values rfl).trans (fit old (List.mem_of_getElem? stored))
    refine .inr ⟨old, stored, ?_⟩
    simp only [replaceRow, small, if_true]
    rcases appendIndexed_dir { t with directory := t.directory.set i (some (old.setXmax xid)) }
      ((row.setXmin xid).setXmax 0) with ⟨eq, -⟩ | appended
    · exact .inl eq
    · exact .inr appended

theorem deleteVersion_dir_of_fit (fit : t.RowsFit) :
    (t.deleteRowVersioned i xid).1.directory = t.directory ∨
      ∃ old, t.directory[i]? = some (some old) ∧
        (t.deleteRowVersioned i xid).1.directory = t.directory.set i (some (old.setXmax xid)) := by
  unfold deleteRowVersioned
  split
  · exact .inl rfl
  · rename_i old read
    have stored := getRow_eq_ok_iff.mp read
    have small : fits (old.setXmax xid) = true :=
      (fits_of_values rfl).trans (fit old (List.mem_of_getElem? stored))
    refine .inr ⟨old, stored, ?_⟩
    simp only [replaceRow, small, if_true]
    rfl

end Table

/-! ## Shares of a version -/

namespace TransactionManager

variable {tm : TransactionManager} {row : Row} {xid : Nat}

theorem share_auto_congr {tm' : TransactionManager}
    (created : tm'.isCommitted row.xmin = tm.isCommitted row.xmin)
    (deleted : tm'.isCommitted row.xmax = tm.isCommitted row.xmax) :
    tm'.share (0, none) row = tm.share (0, none) row := by
  have vis : tm'.isVisible row.xmin row.xmax 0 none = tm.isVisible row.xmin row.xmax 0 none := by
    rw [Bool.eq_iff_iff, isVisible_auto, isVisible_auto, created, deleted]
  simp only [share, vis]

theorem share_inserted (uncommitted : tm.isCommitted xid = false) (values : List Value) :
    tm.share (0, none) ⟨values, xid, 0⟩ = 0 := by
  refine share_hidden (Bool.eq_false_iff.mpr fun vis => ?_)
  have committed := (isVisible_auto.mp vis).1
  rw [uncommitted] at committed
  cases committed

theorem share_setXmax {x : Nat}
    (eq : tm.isVisible row.xmin x 0 none = tm.isVisible row.xmin row.xmax 0 none) :
    tm.share (0, none) (row.setXmax x) = tm.share (0, none) row := by
  simp only [share, Row.setXmax, eq]

/-- The version was not committed and then deleted by a committed transaction. -/
def NotDead (tm : TransactionManager) (row : Row) : Prop :=
  tm.isCommitted row.xmin = true → row.xmax = 0 ∨ tm.isCommitted row.xmax = false

theorem share_stamped (uncommitted : tm.isCommitted xid = false) (notDead : tm.NotDead row) :
    tm.share (0, none) (row.setXmax xid) = tm.share (0, none) row := by
  refine share_setXmax ?_
  rw [Bool.eq_iff_iff, isVisible_auto, isVisible_auto]
  exact ⟨fun h => ⟨h.1, notDead h.1⟩, fun h => ⟨h.1, .inr uncommitted⟩⟩

theorem share_vacuumRow (tm : TransactionManager) (horizon : Nat) (row : Row) :
    ((vacuumRow tm horizon row).map (tm.share (0, none))).getD 0 = tm.share (0, none) row := by
  have hidden : ∀ ne : Row, ¬ (tm.isCommitted ne.xmin = true ∧
      (ne.xmax = 0 ∨ tm.isCommitted ne.xmax = false)) → tm.share (0, none) ne = 0 :=
    fun ne dead => share_hidden (Bool.eq_false_iff.mpr fun vis =>
      dead (isVisible_auto.mp vis))
  have notBoth : ∀ x, tm.isAborted x = true → tm.isCommitted x = false := by
    intro x aborted
    have status : x ≠ 0 ∧ tm.statuses x = some .aborted := by simpa [isAborted] using aborted
    simp [isCommitted, status.1, status.2]
  have undone : tm.share (0, none) (undoAbortedDeletion tm row) = tm.share (0, none) row := by
    unfold undoAbortedDeletion
    split
    · rename_i aborted
      refine share_setXmax ?_
      rw [Bool.eq_iff_iff, isVisible_auto, isVisible_auto]
      exact ⟨fun h => ⟨h.1, .inr (notBoth _ aborted.2)⟩, fun h => ⟨h.1, .inl rfl⟩⟩
    · rfl
  unfold vacuumRow
  split
  · rename_i aborted
    refine (hidden row fun h => ?_).symm
    rw [notBoth _ aborted] at h
    cases h.1
  · dsimp only
    split
    · rename_i dead
      rw [← undone]
      refine (hidden _ fun h => ?_).symm
      rcases h.2 with zero | uncommitted
      · exact dead.1 zero
      · rw [dead.2.1] at uncommitted
        cases uncommitted
    · exact undone

theorem seen_vacuumed (tm : TransactionManager) (horizon : Nat) (rows : List Row) :
    tm.seen (0, none) (rows.filterMap (vacuumRow tm horizon)) = tm.seen (0, none) rows := by
  induction rows with
  | nil => rfl
  | cons row rows ih =>
    have one := share_vacuumRow tm horizon row
    have whole : tm.seen (0, none) (row :: rows) = tm.share (0, none) row + tm.seen (0, none) rows := by
      simp [seen]
    rw [whole, ← one, ← ih, List.filterMap_cons]
    cases vacuumRow tm horizon row with
    | none => simp
    | some kept => simp [seen]

end TransactionManager

theorem Table.vacuumVersions_seen (t : Table) (tm : TransactionManager) :
    tm.seenSlots (0, none) (t.vacuumVersions tm).1.directory = tm.seenSlots (0, none) t.directory := by
  unfold vacuumVersions
  split
  · rfl
  · rename_i rows read
    have all : ∀ rows : List Row, (rows.map some).reduceOption = rows := by simp [List.reduceOption]
    have vacuumed := TransactionManager.seen_vacuumed tm tm.getVacuumHorizon rows
    rw [andThen_markDirty_dir, rebuildIndexes_dir, dir_of_getAllRows read]
    simp only [seenSlots, all, vacuumed]

/-! ## Writes in place -/

variable {f : Table → Table × Except Exn Unit}

namespace Database

variable {fns : Functions} {s : Nat} {db db' : Database} {reader : Reader} {t : Table} {name : String}

/-- The rows a reader sees in a table. -/
def seenBy (db : Database) (reader : Reader) (name : String) : Multiset (List Value) :=
  db.transactionManager.seenSlots reader ((db.slots name).getD [])

def versionAt (db : Database) (name : String) (i : Nat) : Option Row :=
  (db.tables.lookup name).bind (fun t => (t.directory[i]?).join)

theorem versionAt_eq_some_iff {i : Nat} {row : Row} (hit : db.tables.lookup name = some t) :
    db.versionAt name i = some row ↔ t.directory[i]? = some (some row) := by
  rw [versionAt, hit, Option.bind_some, Option.join_eq_some_iff]

/-- Another session than `s` reads like this: outside transactions, or in its own. -/
def Observes (s : Nat) (db : Database) (reader : Reader) : Prop :=
  reader = (0, none) ∨ ∃ other, other ≠ s ∧ reader = readerOf (db.sessions other)

variable (hit : db.tables.lookup name = some t)
include hit

theorem seenBy_of_lookup :
    db.seenBy reader name = db.transactionManager.seenSlots reader t.directory := by
  rw [seenBy, slots, hit]
  rfl

theorem write_seenBy (f : Table → Table × Except Exn Unit) (key : String) :
    (db.write name f).1.seenBy reader key =
      if key = name then db.transactionManager.seenSlots reader (f t).1.directory
      else db.seenBy reader key := by
  obtain ⟨-, mgr, -⟩ := @write_reader db name f
  rw [seenBy, mgr, write_slots, hit]
  split
  · rfl
  · rfl

theorem write_seenBy_iff :
    (∀ key, (db.write name f).1.seenBy reader key = db.seenBy reader key) ↔
      db.transactionManager.seenSlots reader (f t).1.directory =
        db.transactionManager.seenSlots reader t.directory := by
  constructor
  · intro same
    have here := same name
    rwa [write_seenBy hit, if_pos rfl, seenBy_of_lookup hit] at here
  · intro same key
    rw [write_seenBy hit]
    split
    · rename_i isName
      rw [same, isName, seenBy_of_lookup hit]
    · rfl

end Database

namespace Op

/-- The write of a referential action. -/
def isAction : Op → Bool
  | .updateInPlace _ _ _ | .deleteInPlace _ _ => true
  | _ => false

/-- No other session sees anything of the operation. -/
def Hidden (fns : Functions) (s : Nat) (db : Database) (op : Op) : Prop :=
  ∀ db' response, db.perform fns s op = some (db', response) →
    ∀ reader, db.Observes s reader → ∀ name, db'.seenBy reader name = db.seenBy reader name

/-- No other session sees the row version that a referential action deletes, or writes other
    values to. -/
def Private (fns : Functions) (s : Nat) (db : Database) : Op → Prop
  | .updateInPlace name i values => ∀ old ∈ db.versionAt name i, values ≠ old.values →
      (∃ t, db.tables.lookup name = some t ∧ t.Rewrites fns i ⟨values, 0, 0⟩) →
        ∀ reader, db.Observes s reader →
          db.transactionManager.isVisible old.xmin old.xmax reader.1 reader.2 = false
  | .deleteInPlace name i => ∀ old ∈ db.versionAt name i, ∀ reader, db.Observes s reader →
      db.transactionManager.isVisible old.xmin old.xmax reader.1 reader.2 = false
  | _ => True

end Op

namespace Table

variable {fns : Functions} {t : Table} {tm : TransactionManager} {reader : Reader} {i : Nat}
  {values : List Value}

/-- A version written in place shows unless the reader does not see it, or it gets the values it
    has. -/
theorem updateRow_seen_iff (fit : t.RowsFit) :
    tm.seenSlots reader (t.updateRow fns i ⟨values, 0, 0⟩).1.directory = tm.seenSlots reader t.directory ↔
      ∀ old, t.directory[i]? = some (some old) → t.Rewrites fns i ⟨values, 0, 0⟩ → values ≠ old.values →
        tm.isVisible old.xmin old.xmax reader.1 reader.2 = false := by
  by_cases rewrites : t.Rewrites fns i ⟨values, 0, 0⟩
  · obtain ⟨old, checked, removes⟩ := rewrites
    have stored := (checkUpdate_ok checked).2
    have becomes := updateRow_dir_of_rewrites stored ⟨old, checked, removes⟩
    have small : fits old = true := fit old (List.mem_of_getElem? stored)
    have counted := @TransactionManager.seenSlots_set tm reader t.directory old i stored
      (if fits (⟨values, 0, 0⟩ : Row) then some ⟨values, old.xmin, old.xmax⟩ else none)
    rw [← becomes] at counted
    have only : (∀ ne, t.directory[i]? = some (some ne) → t.Rewrites fns i ⟨values, 0, 0⟩ →
          values ≠ ne.values → tm.isVisible ne.xmin ne.xmax reader.1 reader.2 = false) ↔
        (values ≠ old.values → tm.isVisible old.xmin old.xmax reader.1 reader.2 = false) := by
      constructor
      · exact fun all => all old stored ⟨old, checked, removes⟩
      · intro one ne isOther _
        rw [stored] at isOther
        obtain rfl := Option.some.inj (Option.some.inj isOther)
        exact one
    rw [only]
    -- What is seen changes by the share of the old version against that of the new one.
    have balance : tm.seenSlots reader (t.updateRow fns i ⟨values, 0, 0⟩).1.directory =
          tm.seenSlots reader t.directory ↔
        tm.share reader old = ((if fits (⟨values, 0, 0⟩ : Row) then
          some (⟨values, old.xmin, old.xmax⟩ : Row) else none).map (tm.share reader)).getD 0 := by
      constructor
      · intro eq
        rw [eq] at counted
        exact add_left_cancel counted
      · intro eq
        rw [← eq] at counted
        exact add_right_cancel counted
    rw [balance]
    cases vis : tm.isVisible old.xmin old.xmax reader.1 reader.2 with
    | false =>
      refine iff_of_true ?_ (fun _ => rfl)
      rw [TransactionManager.share_hidden vis]
      have new : tm.share reader (⟨values, old.xmin, old.xmax⟩ : Row) = 0 :=
        TransactionManager.share_hidden vis
      split
      · exact new.symm
      · rfl
    | true =>
      rw [share_visible vis]
      split
      · have new : tm.share reader (⟨values, old.xmin, old.xmax⟩ : Row) = {values} :=
          share_visible vis
        rw [Option.map_some, Option.getD_some, new, Multiset.singleton_inj]
        exact ⟨fun eq differs => absurd eq.symm differs, fun all => by
          by_contra differs
          exact absurd (all (fun eq => differs eq.symm)) (by simp)⟩
      · rename_i large
        refine iff_of_false (by simp) (fun all => ?_)
        refine absurd (all fun eq => large ?_) (by simp)
        exact (fits_of_values eq).trans small
  · rw [updateRow_dir_of_not_rewrites rewrites]
    exact iff_of_true rfl (fun _ _ isRewritten => absurd isRewritten rewrites)

theorem deleteRow_seen_iff :
    tm.seenSlots reader (t.deleteRow i).1.directory = tm.seenSlots reader t.directory ↔
      ∀ old, t.directory[i]? = some (some old) →
        tm.isVisible old.xmin old.xmax reader.1 reader.2 = false := by
  unfold deleteRow
  split
  · rename_i outside
    refine iff_of_true rfl (fun old stored => ?_)
    exact absurd (List.getElem?_eq_some_iff.mp stored).1 (Nat.not_lt.mpr outside)
  · rename_i isIn
    have isIn : i < t.directory.length := Nat.lt_of_not_le isIn
    rw [andThen_markDirty_dir, reindex_dir]
    show tm.seenSlots reader (t.directory.eraseIdx i) = _ ↔ _
    cases slot : t.directory[i] with
    | none =>
      have stored : t.directory[i]? = some none := by rw [List.getElem?_eq_getElem isIn, slot]
      refine iff_of_true ?_ (fun old isOld => by rw [stored] at isOld; cases isOld)
      have around : t.directory = t.directory.take i ++ none :: t.directory.drop (i + 1) := by
        rw [← slot, List.getElem_cons_drop, List.take_append_drop]
      rw [List.eraseIdx_eq_take_drop_succ]
      conv_rhs => rw [around]
      unfold seenSlots
      simp [List.reduceOption_append]
    | some old =>
      have stored : t.directory[i]? = some (some old) := by rw [List.getElem?_eq_getElem isIn, slot]
      have counted := @TransactionManager.seenSlots_eraseIdx tm reader t.directory old i stored
      cases vis : tm.isVisible old.xmin old.xmax reader.1 reader.2 with
      | false =>
        rw [TransactionManager.share_hidden vis, add_zero] at counted
        refine iff_of_true counted (fun ne isOther => ?_)
        rw [stored] at isOther
        obtain rfl := Option.some.inj (Option.some.inj isOther)
        exact vis
      | true =>
        rw [share_visible vis] at counted
        refine iff_of_false (fun eq => ?_) (fun all => ?_)
        · rw [eq] at counted
          simp at counted
        · rw [all old stored] at vis
          cases vis

end Table

namespace Op

variable {fns : Functions} {s : Nat} {db : Database} {op : Op}

theorem hidden_iff_of_write {name : String}
    (writes : db.perform fns s op = some (db.write name f)) :
    op.Hidden fns s db ↔ ∀ t, db.tables.lookup name = some t → ∀ reader, db.Observes s reader →
      db.transactionManager.seenSlots reader (f t).1.directory =
        db.transactionManager.seenSlots reader t.directory := by
  unfold Hidden
  rw [writes]
  constructor
  · intro hidden t hit reader observes
    exact (Database.write_seenBy_iff hit).mp (hidden _ _ rfl reader observes)
  · intro eq db' response ran reader observes
    obtain rfl : (db.write name f).1 = db' := congrArg Prod.fst (some.inj ran)
    cases hit : db.tables.lookup name with
    | none =>
      rw [Database.write_missing hit]
      exact fun _ => rfl
    | some t => exact (Database.write_seenBy_iff hit).mpr (eq t hit reader observes)

/-- The write of a referential action is hidden exactly when it is made to a version that no other
    session sees, or leaves the values. -/
theorem hidden_iff_private (isAction : op.isAction = true) (fit : ∀ e ∈ db.tables, e.2.RowsFit) :
    op.Hidden fns s db ↔ op.Private fns s db := by
  cases op with
  | updateInPlace name i values =>
    rw [hidden_iff_of_write rfl]
    constructor
    · rintro eq old isOld differs ⟨t, hit, rewrites⟩ reader observes
      exact (updateRow_seen_iff (fit _ (Misc.mem_of_lookup hit))).mp
        (eq t hit reader observes) old ((Database.versionAt_eq_some_iff hit).mp isOld) rewrites
        differs
    · intro isPrivate t hit reader observes
      refine (updateRow_seen_iff (fit _ (Misc.mem_of_lookup hit))).mpr ?_
      exact fun old stored rewrites differs =>
        isPrivate old ((Database.versionAt_eq_some_iff hit).mpr stored) differs ⟨t, hit, rewrites⟩
          reader observes
  | deleteInPlace name i =>
    rw [hidden_iff_of_write rfl]
    constructor
    · intro eq old isOld reader observes
      cases hit : db.tables.lookup name with
      | none =>
        rw [Database.versionAt, hit] at isOld
        cases isOld
      | some t =>
        exact deleteRow_seen_iff.mp (eq t hit reader observes) old
          ((Database.versionAt_eq_some_iff hit).mp isOld)
    · intro isPrivate t hit reader observes
      exact deleteRow_seen_iff.mpr (fun old stored =>
        isPrivate old ((Database.versionAt_eq_some_iff hit).mpr stored) reader observes)
  | _ => cases isAction

end Op

/-! ## The writes of a transaction -/

/-- The operation reads, locks, or writes rows, and a version that it stamps is not one that a
    committed transaction has deleted. -/
def Op.Proper (db : Database) : Op → Prop
  | .look | .visible _ | .insert _ _ | .updateInPlace _ _ _ | .deleteInPlace _ _ => True
  | .request _ _ | .attempt _ _ | .release => True
  | .update name i _ | .delete name i true =>
    ∀ old ∈ db.versionAt name i, db.transactionManager.NotDead old
  | _ => False

instance (tm : TransactionManager) (row : Row) : Decidable (tm.NotDead row) :=
  inferInstanceAs (Decidable (_ → _))

instance (db : Database) : (op : Op) → Decidable (op.Proper db)
  | .look | .visible _ | .insert _ _ | .updateInPlace _ _ _ | .deleteInPlace _ _ => .isTrue trivial
  | .request _ _ | .attempt _ _ | .release => .isTrue trivial
  | .update name i _ | .delete name i true =>
    inferInstanceAs (Decidable (∀ old ∈ db.versionAt name i, _))
  | .delete _ _ false | .createIndex _ _ _ | .dropIndex _ => .isFalse id
  | .begin | .commit | .rollback | .vacuum _ | .persist _ => .isFalse id

namespace Database

variable {fns : Functions} {s : Nat} {start db db' : Database} {op : Op} {response : Response}

/-- The transaction of session `s` is running. -/
structure Running (s : Nat) (db : Database) : Prop where
  inTransaction : (db.sessions s).inTransaction = true
  id_ne_zero : (db.sessions s).transactionId ≠ 0
  uncommitted : db.transactionManager.isCommitted (db.sessions s).transactionId = false

/-- Within the transaction that session `s` has at `start`. -/
structure Within (s : Nat) (start db : Database) : Prop where
  active : db.activeSession = some s
  sessions : db.sessions = start.sessions
  manager : db.transactionManager = start.transactionManager
  fit : ∀ e ∈ db.tables, e.2.RowsFit

theorem Within.write {name : String} (within : Within s start db)
    (fits : ∀ t : Table, t.RowsFit → (f t).1.RowsFit) : Within s start (db.write name f).1 := by
  cases hit : db.tables.lookup name with
  | none =>
    rw [write_missing hit]
    exact within
  | some t =>
    rw [write_found hit]
    refine ⟨within.active, within.sessions, within.manager, fun e mem => ?_⟩
    rcases Misc.mem_adjust mem with mem | rfl
    · exact within.fit e mem
    · exact fits t (within.fit _ (Misc.mem_of_lookup hit))

theorem Within.reader (within : Within s start db) (running : Running s start) :
    db.writesVersioned = true ∧ db.reader.1 = (start.sessions s).transactionId := by
  unfold writesVersioned Database.reader
  rw [within.active]
  dsimp only
  rw [within.sessions]
  exact ⟨running.inTransaction, by simp [readerOf, running.inTransaction]⟩

/-- What a proper operation does within a transaction with the id `xid`. -/
inductive Writes (fns : Functions) (xid : Nat) (db : Database) : Op → Database → Prop
  | nothing {op : Op} {db' : Database} (active : db'.activeSession = db.activeSession)
      (sessions : db'.sessions = db.sessions)
      (manager : db'.transactionManager = db.transactionManager) (tables : db'.tables = db.tables)
      (noAction : op.isAction = false) : Writes fns xid db op db'
  | inserts (name : String) (values : List Value) : Writes fns xid db (.insert name values)
      (db.write name (fun t => t.insertRowVersioned fns ⟨values, 0, 0⟩ xid)).1
  | updates (name : String) (i : Nat) (values : List Value) : Writes fns xid db (.update name i values)
      (db.write name (fun t => t.updateRowVersioned fns i ⟨values, 0, 0⟩ xid)).1
  | deletes (name : String) (i : Nat) : Writes fns xid db (.delete name i true)
      (db.write name (fun t => t.deleteRowVersioned i xid)).1
  | updatesInPlace (name : String) (i : Nat) (values : List Value) :
      Writes fns xid db (.updateInPlace name i values)
        (db.write name (fun t => t.updateRow fns i ⟨values, 0, 0⟩)).1
  | deletesInPlace (name : String) (i : Nat) : Writes fns xid db (.deleteInPlace name i)
      (db.write name (fun t => t.deleteRow i)).1

theorem Within.writes (within : Within s start db) (running : Running s start)
    (proper : op.Proper db) (ran : db.perform fns s op = some (db', response)) :
    Writes fns (start.sessions s).transactionId db op db' := by
  have state : ∀ {res : Database × Response}, some res = some (db', response) →
      res.1 = db' := fun h => congrArg Prod.fst (some.inj h)
  obtain ⟨vers, isReader⟩ := within.reader running
  have id : (db.sessions s).transactionId ≠ 0 := by
    rw [within.sessions]
    exact running.id_ne_zero
  cases op with
  | look =>
    obtain rfl := state ran
    exact .nothing rfl rfl rfl rfl rfl
  | visible name =>
    simp only [Database.perform] at ran
    split at ran
    · obtain rfl := state ran
      exact .nothing rfl rfl rfl rfl rfl
    · split at ran <;> (obtain rfl := state ran; exact .nothing rfl rfl rfl rfl rfl)
  | insert name values =>
    simp only [Database.perform, vers, isReader, if_true] at ran
    obtain rfl := state ran
    exact .inserts name values
  | update name i values =>
    simp only [Database.perform, vers, isReader, if_true] at ran
    obtain rfl := state ran
    exact .updates name i values
  | delete name i inTx =>
    cases inTx with
    | false => exact proper.elim
    | true =>
      simp only [Database.perform, isReader, if_true] at ran
      obtain rfl := state ran
      exact .deletes name i
  | updateInPlace name i values =>
    obtain rfl := state ran
    exact .updatesInPlace name i values
  | deleteInPlace name i =>
    obtain rfl := state ran
    exact .deletesInPlace name i
  | request key mode =>
    obtain rfl := state ran
    have eq : db.ensureLockTxnId s = db := if_neg id
    simp only [eq]
    exact .nothing rfl rfl rfl rfl rfl
  | attempt key mode =>
    simp only [Database.perform] at ran
    split at ran
    · obtain rfl := state ran
      exact .nothing rfl rfl rfl rfl rfl
    · cases ran
    · obtain rfl := state ran
      exact .nothing rfl rfl rfl rfl rfl
  | release =>
    obtain rfl := state ran
    simp only [releaseSessionLocks, if_neg id]
    exact .nothing rfl rfl rfl rfl rfl
  | _ => exact proper.elim

theorem Within.perform (within : Within s start db) (running : Running s start)
    (proper : op.Proper db) (ran : db.perform fns s op = some (db', response)) :
    Within s start db' := by
  have call := fun (t : Table) (fit : t.RowsFit) (op : Table.Op) => fit.call fns op
  cases within.writes running proper ran with
  | nothing active sess mgr tables =>
    refine ⟨active.trans within.active, sess.trans within.sessions, mgr.trans within.manager, ?_⟩
    rw [tables]
    exact within.fit
  | inserts name values => exact within.write (fun t fit => call t fit (.insertRow _))
  | updates name i values => exact within.write (fun t fit => call t fit (.updateRowVersioned i _ _))
  | deletes name i => exact within.write (fun t fit => call t fit (.deleteRowVersioned i _))
  | updatesInPlace name i values => exact within.write (fun t fit => call t fit (.updateRow i _))
  | deletesInPlace name i => exact within.write (fun t fit => call t fit (.deleteRow i))

theorem seenBy_write {name : String} {reader : Reader}
    (eq : ∀ t, db.tables.lookup name = some t →
      db.transactionManager.seenSlots reader (f t).1.directory =
        db.transactionManager.seenSlots reader t.directory) (key : String) :
    (db.write name f).1.seenBy reader key = db.seenBy reader key := by
  cases hit : db.tables.lookup name with
  | none =>
    rw [write_missing hit]
    rfl
  | some t => exact (write_seenBy_iff hit).mpr (eq t hit) key

/-- Until the commit a reader outside transactions sees of a transaction what its referential
    actions show. -/
theorem Within.committed (within : Within s start db) (running : Running s start)
    (proper : op.Proper db) (hidden : op.isAction = true → op.Hidden fns s db)
    (ran : db.perform fns s op = some (db', response)) (name : String) :
    db'.seenBy (0, none) name = db.seenBy (0, none) name := by
  have uncommitted : db.transactionManager.isCommitted (start.sessions s).transactionId = false := by
    rw [within.manager]
    exact running.uncommitted
  have stamped {slots : List (Option Row)} {i : Nat} {old : Row} (stored : slots[i]? = some (some old))
      (notDead : db.transactionManager.NotDead old) :
      db.transactionManager.seenSlots (0, none)
          (slots.set i (some (old.setXmax (start.sessions s).transactionId))) =
        db.transactionManager.seenSlots (0, none) slots := by
    have counted := @TransactionManager.seenSlots_set db.transactionManager (0, none) slots old i stored
      (some (old.setXmax (start.sessions s).transactionId))
    rw [Option.map_some, Option.getD_some, TransactionManager.share_stamped uncommitted notDead] at counted
    exact add_right_cancel counted
  cases within.writes running proper ran with
  | nothing _ _ manager tables =>
    unfold seenBy slots
    rw [manager, tables]
  | inserts tab values =>
    refine seenBy_write (fun t hit => ?_) name
    rcases insertRow_dir fns t ⟨values, (start.sessions s).transactionId, 0⟩ with
      ⟨eq, -⟩ | appended
    · exact congrArg _ eq
    · refine (congrArg _ appended).trans ?_
      rw [seenSlots_append, TransactionManager.share_inserted uncommitted, add_zero]
  | updates tab i values =>
    refine seenBy_write (fun t hit => ?_) name
    have fit := within.fit _ (Misc.mem_of_lookup hit)
    rcases @Table.updateVersion_dir_of_fit fns t i (start.sessions s).transactionId
      ⟨values, 0, 0⟩ fit with eq | ⟨old, stored, eq | eq⟩
    · rw [eq]
    · rw [eq, stamped stored (proper old ((versionAt_eq_some_iff hit).mpr stored))]
    · rw [eq, seenSlots_append, TransactionManager.share_inserted uncommitted,
        add_zero, stamped stored (proper old ((versionAt_eq_some_iff hit).mpr stored))]
  | deletes tab i =>
    refine seenBy_write (fun t hit => ?_) name
    have fit := within.fit _ (Misc.mem_of_lookup hit)
    rcases @Table.deleteVersion_dir_of_fit t i (start.sessions s).transactionId fit with
      eq | ⟨old, stored, eq⟩
    · rw [eq]
    · rw [eq, stamped stored (proper old ((versionAt_eq_some_iff hit).mpr stored))]
  | updatesInPlace | deletesInPlace =>
    exact hidden rfl _ _ ran (0, none) (.inl rfl) name

end Database

end NobugDb
