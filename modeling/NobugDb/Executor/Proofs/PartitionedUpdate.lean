import NobugDb.Executor.Proofs.Atomicity
import NobugDb.Executor.Proofs.CollectedRows
import NobugDb.Executor.Proofs.MovedRows

/-!
# UPDATE on partitioned tables

The statement visits the children one after another, and in each it updates the rows it has
collected there, from the last to the first. A visit takes the collected rows out of the child
and puts what SET makes of each into the child that the router sends it to.
-/

namespace NobugDb

open Misc (Relocation)
open TransactionManager
open Body
open Table
open Option (bind_some getD_some some.inj)

/-! ## Foreign keys leave the children alone -/

/-- The operation looks, or updates rows in place in a table that is none of these. -/
def Op.Spares (names : List String) : Op → Prop
  | .look => True
  | .updateInPlace name _ _ => name ∉ names
  | _ => False

variable {f : Table → Table × Except Exn Unit}

namespace Database

variable {fns : Functions} {s : Nat} {names : List String} {start db db' : Database} {op : Op}
  {resp : Response}

/-- No table of these names has foreign keys. -/
def Keyless (names : List String) (db : Database) : Prop :=
  ∀ e ∈ db.tables, e.1 ∈ names → e.2.foreignKeys = []

theorem Keyless.write (keyless : db.Keyless names) {name : String}
    (eq : ∀ t, (f t).1.foreignKeys = t.foreignKeys) : (db.write name f).1.Keyless names := by
  cases found : db.tables.lookup name with
  | none =>
    rw [write_missing found]
    exact keyless
  | some t =>
    rw [write_found found]
    intro e mem isName
    rcases Misc.mem_adjust mem with mem | rfl
    · exact keyless e mem isName
    · exact (eq t).trans (keyless _ (Misc.mem_of_lookup found) isName)

/-- The session and the tables of these names are as they were, and the tables have no foreign
    keys. -/
structure Untouched (names : List String) (start db : Database) : Prop where
  reader : db.reader = start.reader
  manager : db.transactionManager = start.transactionManager
  versioned : db.writesVersioned = start.writesVersioned
  tables : ∀ name ∈ names, db.tables.lookup name = start.tables.lookup name
  keyless : db.Keyless names

theorem Untouched.perform (spares : op.Spares names) (ran : db.perform fns s op = some (db', resp))
    (untouched : Untouched names start db) : Untouched names start db' := by
  cases op with
  | look =>
    cases ran
    exact untouched
  | updateInPlace name i values =>
    obtain rfl : _ = db' := congrArg Prod.fst (some.inj ran)
    obtain ⟨reader, mgr, vers⟩ := @write_reader db name (fun t => t.updateRow fns i ⟨values, 0, 0⟩)
    refine ⟨reader.trans untouched.reader, mgr.trans untouched.manager,
      vers.trans untouched.versioned, fun key isName => ?_, ?_⟩
    · rw [write_lookup_of_ne (ne_of_mem_of_not_mem isName spares)]
      exact untouched.tables key isName
    · exact untouched.keyless.write (fun t => (updateRow_grew fns t i _).foreignKeys)
  | _ => exact spares.elim

theorem upholds_untouched {env : Env} (quiet : env.NoTriggers) (t : Table) (old new : Row) :
    (validateForeignKeysOnUpdate env t old new).Upholds fns s (Untouched names start)
      (fun _ => True) := by
  have spare {body : Body Unit} (all : body.All (Op.Spares names)) :
      body.Upholds fns s (Untouched names start) (fun _ => True) :=
    all.upholds (fun _ _ _ _ spares ran untouched => untouched.perform spares ran)
  refine (spare (all_fksOnInsert trivial t new)).bind (fun _ _ => ?_)
  refine upholds_look.bind (fun resp looked => ?_)
  obtain ⟨db, untouched, eq⟩ := looked
  rw [eq]
  dsimp only
  split
  · exact upholds_pure trivial
  · refine upholds_forEach (fun e mem => ?_)
    -- A table with a foreign key is none of those without.
    have apart : e.1 ∉ names := by
      simp only [referencing, List.mem_flatMap, List.mem_filter, List.mem_map] at mem
      obtain ⟨entry, ⟨inTables, -⟩, fk, ⟨isKey, -⟩, rfl⟩ := mem
      intro isName
      rw [untouched.keyless entry inTables isName] at isKey
      cases isKey
    refine spare ((all_lift _).bind (fun key => ?_))
    cases key with
    | none => exact all_pure _
    | some key =>
      dsimp only
      split
      · exact all_pure _
      · exact all_updateReferencing quiet.triggersIn trivial (fun _ _ => apart) _ _ _

theorem untouched_of_runs {env : Env} (quiet : env.NoTriggers) (keyless : db.Keyless names)
    {t : Table} {old new : Row} {r : Except Exn Unit}
    (runs : (validateForeignKeysOnUpdate env t old new).Runs fns s db db' r) :
    Untouched names db db' := by
  have kept := Misc.Program.Upholds.exec
    (@upholds_untouched fns s names db env quiet t old new) ⟨rfl, rfl, rfl, fun _ _ => rfl, keyless⟩
  rw [(runs : Misc.Program.exec _ db _ = _)] at kept
  exact kept

end Database

/-! ## One row -/

namespace Database

variable {fns : Functions} {names : List String} {childName target : String}
  {db db' db'' : Database} {i : Nat} {old : Row} {values : List Value} {t : Table}

/-- What a statement that visits a child has done: the session is the same, and into the other
    children rows have been inserted. -/
structure Progress (fns : Functions) (names : List String) (childName : String)
    (db db' : Database) : Prop where
  reader : db'.reader = db.reader
  manager : db'.transactionManager = db.transactionManager
  versioned : db'.writesVersioned = db.writesVersioned
  keyless : db'.Keyless names
  others : ∀ c ∈ names, c ≠ childName → ∀ t, db.tables.lookup c = some t →
    ∃ u, db'.tables.lookup c = some u ∧ Table.Inserted fns t u
  missing : ∀ c ∈ names, db.tables.lookup c = none → db'.tables.lookup c = none

theorem Progress.refl (keyless : db.Keyless names) : Progress fns names childName db db :=
  ⟨rfl, rfl, rfl, keyless, fun _ _ _ t found => ⟨t, found, .refl⟩, fun _ _ absent => absent⟩

theorem Progress.trans (fst : Progress fns names childName db db')
    (snd : Progress fns names childName db' db'') : Progress fns names childName db db'' where
  reader := snd.reader.trans fst.reader
  manager := snd.manager.trans fst.manager
  versioned := snd.versioned.trans fst.versioned
  keyless := snd.keyless
  others := by
    intro c isName ne t found
    obtain ⟨u, isTab, inserted⟩ := fst.others c isName ne t found
    obtain ⟨v, isLast, more⟩ := snd.others c isName ne u isTab
    exact ⟨v, isLast, inserted.trans more⟩
  missing := fun c isName absent => snd.missing c isName (fst.missing c isName absent)

theorem Untouched.progress (untouched : Untouched names db db') :
    Progress fns names childName db db' :=
  ⟨untouched.reader, untouched.manager, untouched.versioned, untouched.keyless,
    fun c isName _ t found => ⟨t, (untouched.tables c isName).trans found, .refl⟩,
    fun c isName absent => (untouched.tables c isName).trans absent⟩

theorem Untouched.seenIn (untouched : Untouched names db db') {c : String} (isName : c ∈ names) :
    db'.seenIn c = db.seenIn c := by
  unfold Database.seenIn slots
  rw [untouched.reader, untouched.manager, untouched.tables c isName]

theorem Progress.write_child (keyless : db.Keyless names) (f : Table → Table × Except Exn Unit)
    (eq : ∀ t, (f t).1.foreignKeys = t.foreignKeys) :
    Progress fns names childName db (db.write childName f).1 := by
  obtain ⟨reader, mgr, vers⟩ := @write_reader db childName f
  refine ⟨reader, mgr, vers, keyless.write eq, fun c _ ne t found => ?_, fun c _ absent => ?_⟩
  · exact ⟨t, by rw [write_lookup_of_ne ne]; exact found, .refl⟩
  · by_cases here : c = childName
    · rw [here] at absent ⊢
      rw [write_missing absent]
      exact absent
    · rw [write_lookup_of_ne here]
      exact absent

theorem Progress.insert (keyless : db.Keyless names) {row : Row} {u : Table}
    (found : db.tables.lookup target = some u) (ok : (u.insertRow fns row).2 = .ok ()) :
    Progress fns names childName db (db.write target (fun t => t.insertRow fns row)).1 := by
  obtain ⟨reader, mgr, vers⟩ := @write_reader db target (fun t => t.insertRow fns row)
  refine ⟨reader, mgr, vers,
    keyless.write (fun t => (insertRow_grew fns t row).foreignKeys), fun c _ _ t isTab => ?_,
    fun c _ absent => ?_⟩
  · by_cases here : c = target
    · subst here
      obtain rfl : t = u := some.inj (isTab.symm.trans found)
      refine ⟨_, ?_, .insert .refl ok⟩
      rw [write_found found]
      exact (Misc.lookup_adjust c c (fun _ => (t.insertRow fns row).1) db.tables).trans
        (by rw [if_pos rfl, found]; rfl)
    · exact ⟨t, by rw [write_lookup_of_ne here]; exact isTab, .refl⟩
  · by_cases here : c = target
    · rw [here, found] at absent
      cases absent
    · rw [write_lookup_of_ne here]
      exact absent

/-- The child still has its rows below a position. -/
def KeepsBelow (childName : String) (i : Nat) (db db' : Database) : Prop :=
  ∀ t, db.tables.lookup childName = some t → ∃ u, db'.tables.lookup childName = some u ∧
    ∀ j < i, u.directory[j]? = t.directory[j]?

theorem KeepsBelow.trans (fst : KeepsBelow childName i db db')
    (snd : KeepsBelow childName i db' db'') : KeepsBelow childName i db db'' := by
  intro t found
  obtain ⟨u, isTab, eq⟩ := fst t found
  obtain ⟨v, isLast, again⟩ := snd u isTab
  exact ⟨v, isLast, fun j below => (again j below).trans (eq j below)⟩

theorem KeepsBelow.write
    (eq : ∀ t, db.tables.lookup childName = some t → ∀ j < i,
      (f t).1.directory[j]? = t.directory[j]?) :
    KeepsBelow childName i db (db.write childName f).1 := by
  intro t found
  refine ⟨(f t).1, ?_, eq t found⟩
  rw [write_found found]
  exact (Misc.lookup_adjust childName childName (fun _ => (f t).1) db.tables).trans
    (by rw [if_pos rfl, found]; rfl)

theorem KeepsBelow.write_other (ne : childName ≠ target) (f : Table → Table × Except Exn Unit) :
    KeepsBelow childName i db (db.write target f).1 := by
  intro t found
  exact ⟨t, by rw [write_lookup_of_ne ne]; exact found, fun _ _ => rfl⟩

end Database

namespace Executor

variable {fns : Functions} {s : Nat} {names : List String} {childName target : String}
  {db db' : Database} {i : Nat} {old : Row} {values : List Value} {t : Table}

/-- What the update of one row does: the child has the rows below it as before, and the session
    sees the new form in the target instead of the old one in the child. -/
structure Turned (fns : Functions) (names : List String) (childName : String) (i : Nat)
    (old : List Value) (target : String) (new : List Value) (db db' : Database) : Prop where
  progress : Database.Progress fns names childName db db'
  below : Database.KeepsBelow childName i db db'
  seen : ∀ key ∈ names, db'.seenIn key + (if key = childName then {old} else 0) =
    db.seenIn key + (if key = target then {new} else 0)

section Turn

variable (found : db.tables.lookup childName = some t) (stored : t.directory[i]? = some (some old))
  (visible : db.transactionManager.isVisible old.xmin old.xmax db.reader.1 db.reader.2 = true)
  (ids : db.writesVersioned = true → db.reader.1 ≠ 0) (keyless : db.Keyless names)

include found stored visible ids keyless

theorem turned_of_update
    (runs : (writeRouted childName i childName values).Runs fns s db db' (.ok ())) :
    Turned fns names childName i old.values childName values db db' := by
  unfold writeRouted at runs
  rw [if_pos rfl] at runs
  obtain ⟨db₁, resp, performed, runs⟩ := runs_bind_ok runs
  obtain ⟨ran, succeeded⟩ := runs_perform_ok performed
  obtain ⟨rfl, -⟩ := runs_pure_iff.mp runs
  simp only [Database.perform, Option.some.injEq] at ran
  generalize isWrite : (fun t : Table => if db.writesVersioned then
    t.updateRowVersioned fns i ⟨values, 0, 0⟩ db.reader.1
    else t.updateRow fns i ⟨values, 0, 0⟩) = f at ran
  have keys (t : Table) : (f t).1.foreignKeys = t.foreignKeys := by
    rw [← isWrite]
    dsimp only
    split
    · exact (updateVersion_grew fns t i _ _).foreignKeys
    · exact (updateRow_grew fns t i _).foreignKeys
  obtain rfl : (db.write childName f).1 = db' := congrArg Prod.fst ran
  have tableOk : (f t).2 = .ok () := by
    rw [← succeeded, ← congrArg (fun res => res.2.outcome) ran, Database.write_found found]
  -- The slots of the child, by the mode of the session.
  obtain ⟨below, seen⟩ : (∀ j < i, (f t).1.directory[j]? = t.directory[j]?) ∧
      db.transactionManager.seenSlots db.reader (f t).1.directory + {old.values} =
        db.transactionManager.seenSlots db.reader t.directory + {values} := by
    have share := share_visible visible
    rw [← share]
    rw [← isWrite] at tableOk ⊢
    cases mode : db.writesVersioned with
    | true =>
      simp only [mode, if_true] at tableOk ⊢
      have hidden : db.transactionManager.share db.reader (old.setXmax db.reader.1) = 0 := by
        refine share_hidden (Bool.eq_false_iff.mpr fun seen => ?_)
        exact xmax_ne_of_isVisible (ids mode) seen rfl
      have own : db.transactionManager.share db.reader ⟨values, db.reader.1, 0⟩ = {values} :=
        share_visible (isVisible_own _)
      have isIn : i < t.directory.length := (List.getElem?_eq_some_iff.mp stored).1
      rw [updateVersion_dir_ok stored tableOk]
      refine ⟨fun j before => ?_, ?_⟩
      · rw [List.getElem?_append_left (by rw [List.length_set]; omega),
          List.getElem?_set_ne (by omega)]
      · rw [seenSlots_append, own, add_right_comm,
          seenSlots_set stored]
        simp [hidden]
    | false =>
      simp only [mode, Bool.false_eq_true, if_false] at tableOk ⊢
      have own : db.transactionManager.share db.reader ⟨values, old.xmin, old.xmax⟩ = {values} :=
        share_visible visible
      obtain ⟨-, fail⟩ | ⟨found, isRow, eq | ⟨-, fail⟩⟩ :=
        updateRow_dir fns t i ⟨values, 0, 0⟩
      · exact absurd tableOk fail
      · obtain rfl : found = old := by
          rw [stored] at isRow
          exact (some.inj (some.inj isRow)).symm
        rw [eq]
        refine ⟨fun j before => List.getElem?_set_ne (by omega), ?_⟩
        rw [seenSlots_set stored]
        exact congrArg _ own
      · exact absurd tableOk fail
  refine ⟨.write_child keyless f keys, .write (fun u isTab => ?_), fun key _ => ?_⟩
  · obtain rfl : t = u := some.inj (found.symm.trans isTab)
    exact below
  · rw [Database.write_seenIn found]
    split
    · rename_i eq
      rw [seen, eq, Database.seenIn_of_lookup found]
    · rfl

theorem turned_of_move (moves : target ≠ childName)
    (runs : (writeRouted childName i target values).Runs fns s db db' (.ok ())) :
    Turned fns names childName i old.values target values db db' := by
  obtain ⟨gone, -⟩ := Database.delete_seenIn found stored visible ids
  obtain ⟨-, fail, -⟩ | ⟨-, resp, inserted, ok⟩ := runs_move moves runs
  · exact absurd rfl fail
  · have keys (t : Table) : (db.removeAt i t).1.foreignKeys = t.foreignKeys := by
      unfold Database.removeAt
      split
      · exact (deleteVersion_grew t i _).foreignKeys
      · exact (deleteRow_grew t i).foreignKeys
    have removed := @Database.Progress.write_child fns names childName db keyless (db.removeAt i) keys
    have taken : Database.KeepsBelow childName i db (db.write childName (db.removeAt i)).1 := by
      refine .write (fun u isTab j before => ?_)
      unfold Database.removeAt
      split
      · obtain ⟨eq, -⟩ | ⟨row, -, eq | ⟨eq, -⟩⟩ :=
          deleteVersion_dir u i db.reader.1
        · rw [eq]
        · rw [eq, List.getElem?_set_ne (by omega)]
        · rw [eq, List.getElem?_set_ne (by omega)]
      · obtain ⟨eq, -⟩ | ⟨-, eq⟩ := deleteRow_dir u i
        · rw [eq]
        · rw [eq, List.getElem?_eraseIdx_of_lt before]
    generalize db.write childName (db.removeAt i) = deleted at *
    cases isTab : deleted.1.tables.lookup target with
    | none =>
      rw [Database.write_missing isTab] at inserted
      obtain rfl := congrArg Prod.snd inserted
      cases ok
    | some u =>
      have tableOk : (u.insertRow fns ⟨values, deleted.1.reader.1, 0⟩).2 = .ok () := by
        rw [ok, ← congrArg (fun res => res.2.outcome) inserted, Database.write_found isTab]
      have takes : u.Takes fns ⟨values, deleted.1.reader.1, 0⟩ := by
        by_contra refuses
        exact (insertRow_of_not_takes refuses).2 tableOk
      obtain rfl := congrArg Prod.fst inserted
      refine ⟨removed.trans (.insert removed.keyless isTab tableOk),
        taken.trans (.write_other moves.symm _), fun key _ => ?_⟩
      rw [Database.insert_seenIn isTab takes, add_right_comm, gone]

theorem turned_of_writeRouted
    (runs : (writeRouted childName i target values).Runs fns s db db' (.ok ())) :
    Turned fns names childName i old.values target values db db' := by
  by_cases stays : target = childName
  · subst stays
    exact turned_of_update found stored visible ids keyless runs
  · exact turned_of_move found stored visible ids keyless stays runs

end Turn

/-- The child that the router sends a row to. -/
def route (metadata : PartitionedTableMetadata) (parent : Table) (values : List Value) :
    Option String :=
  (parent.getColumnIndex metadata.keyColumn).bind (fun i => (values[i]?).bind metadata.resolveChild)

section OneRow

variable {env : Env} {metadata : PartitionedTableMetadata} {parent child : Table} {cur new : Row}

theorem runs_partitionChild {row : Row} {routed : Except String String}
    (runs : (resolvePartitionChild metadata parent row).Runs fns s db db' (.ok routed)) :
    db' = db ∧ ∀ target, routed = .ok target → route metadata parent row.values = some target := by
  unfold resolvePartitionChild at runs
  unfold route
  cases isCol : parent.getColumnIndex metadata.keyColumn with
  | none =>
    simp only [isCol] at runs
    obtain ⟨rfl, eq⟩ := runs_pure_iff.mp runs
    cases eq
    exact ⟨rfl, by simp⟩
  | some k =>
    simp only [isCol] at runs
    obtain ⟨db₁, key, read, next⟩ := runs_bind_ok runs
    obtain ⟨rfl, isKey⟩ := runs_lift_iff.mp read
    have has : row.values[k]? = some key := by
      unfold Row.getValue at isKey
      split at isKey
      · rename_i v isVal
        rw [Except.ok.inj isKey]
        exact isVal
      · cases isKey
    split at next
    · obtain ⟨rfl, eq⟩ := runs_pure_iff.mp next
      cases eq
      exact ⟨rfl, by simp⟩
    · rename_i target res
      have ends := runs_getTable_bind.mp next
      split at ends
      · obtain ⟨rfl, eq⟩ := runs_pure_iff.mp ends
        cases eq
        exact ⟨rfl, by simp⟩
      · obtain ⟨rfl, eq⟩ := runs_pure_iff.mp ends
        refine ⟨rfl, fun ne isOther => ?_⟩
        rw [isOther] at eq
        cases eq
        rw [bind_some, has, bind_some]
        exact res

/-- The update of a row ends the statement with an error, or writes the row where it is routed. -/
theorem runs_updateOneRouted (quiet : env.NoTriggers) {out : Option QueryResult}
    (runs : (orFail "Update failed: " (updateOneRouted env metadata parent childName child i cur
      new)).Runs fns s db db' (.ok out)) :
    (∃ result, out = some result ∧ result.success = false) ∨
      (out = none ∧ ∃ db₁ target,
        (Database.validateForeignKeysOnUpdate env child cur new).Runs fns s db db₁ (.ok ()) ∧
        route metadata parent new.values = some target ∧
        (writeRouted childName i target new.values).Runs fns s db₁ db' (.ok ())) := by
  obtain ⟨_, runs, ⟨⟩⟩ | ⟨db₁, e, -, ends⟩ := runs_tryCatch_iff.mp runs
  · unfold updateOneRouted at runs
    rw [quiet] at runs
    obtain ⟨db₁, ⟨⟩, checked, next⟩ := runs_bind_ok runs
    simp only [pure_bind, QueryResult.successResult, Bool.not_true, Bool.false_eq_true, if_false,
      getD_some] at next
    obtain ⟨db₂, routed, res, writes⟩ := runs_bind_ok next
    obtain ⟨rfl, routes⟩ := runs_partitionChild res
    split at writes
    · obtain ⟨-, eq⟩ := runs_pure_iff.mp writes
      cases eq
      exact .inl ⟨_, rfl, rfl⟩
    · rename_i target
      obtain ⟨db₃, ⟨⟩, written, ends⟩ := runs_bind_ok writes
      obtain ⟨rfl, eq⟩ := runs_pure_iff.mp ends
      cases eq
      exact .inr ⟨rfl, db₂, target, checked, routes target rfl, written⟩
  · obtain ⟨-, eq⟩ := runs_pure_iff.mp ends
    cases eq
    exact .inl ⟨_, rfl, rfl⟩

end OneRow

/-! ## The rows of one child -/

/-- What SET makes of a row of a child. -/
def updatedValues (env : Env) (stmt : UpdateStatement) (childName : String) (child : Table)
    (values : List Value) : Except Exn (List Value) :=
  (child.assigned (childEvaluator env childName child) ⟨values, 0, 0⟩ stmt.setClauses
    ⟨values, 0, 0⟩).map Row.values

open Classical in
/-- The statement as a relocating update of the children: in a child it selects the rows that
    WHERE accepts and the index path reaches, and it puts what SET makes of a row into the child
    that the router sends it to. -/
noncomputable def relocation (env : Env) (metadata : PartitionedTableMetadata) (stmt : UpdateStatement)
    (parent : Table) (db : Database) : Relocation String (List Value) where
  selects name values := decide (∃ t, db.tables.lookup name = some t ∧
    Table.Accepts (t.dmlEvaluator env) stmt.whereCondition ⟨values, 0, 0⟩ ∧
    t.Reached t.name stmt.whereCondition ⟨values, 0, 0⟩)
  place name values :=
    match db.tables.lookup name with
    | none => (name, values)
    | some t =>
      match updatedValues env stmt name t values with
      | .error _ => (name, values)
      | .ok new => ((route metadata parent new).getD name, new)

def view (names : List String) (db : Database) (key : String) : Multiset (List Value) :=
  if key ∈ names then db.seenIn key else 0

section Child

variable {env : Env} {metadata : PartitionedTableMetadata} {parent child : Table}
  {stmt : UpdateStatement} {start : Database} {out : QueryResult ⊕ Nat} {rows : List Nat}

theorem relocation_place (isTab : start.tables.lookup childName = some t) {new : List Value}
    (updated : updatedValues env stmt childName t values = .ok new)
    (routed : route metadata parent new = some target) :
    (relocation env metadata stmt parent start).place childName values = (target, new) := by
  simp only [relocation, isTab, updated, routed, getD_some]

theorem updatedValues_of_assigned (schema : Table.SameSchema t child) {cur new : Row}
    (assigned : child.assigned (childEvaluator env childName child) cur stmt.setClauses cur =
      .ok new) : updatedValues env stmt childName t cur.values = .ok new.values := by
  have evaluator : childEvaluator env childName child = childEvaluator env childName t := by
    unfold childEvaluator
    rw [schema.columns]
  have same := @Table.assigned_values t (childEvaluator env childName t) cur
    ⟨cur.values, 0, 0⟩ rfl stmt.setClauses cur ⟨cur.values, 0, 0⟩ rfl
  unfold updatedValues
  rw [same, ← evaluator, ← schema.assigned, assigned]
  rfl

/-- One turn, in what the session sees of the children. -/
theorem Turned.view_eq (isChild : childName ∈ names) (isTarget : target ∈ names) {new : List Value}
    (turned : Turned fns names childName i values target new db db')
    (placed : (relocation env metadata stmt parent start).place childName values = (target, new))
    (key : String) :
    view names db' key + (if key = childName then {values} else 0) =
      view names db key + (relocation env metadata stmt parent start).arrivals childName {values} key := by
  rw [Relocation.arrivals_single, placed]
  unfold view
  by_cases isIn : key ∈ names
  · rw [if_pos isIn, if_pos isIn]
    exact turned.seen key isIn
  · rw [if_neg isIn, if_neg isIn, if_neg (fun eq : key = childName => isIn (eq ▸ isChild)),
      if_neg (fun eq : key = target => isIn (eq ▸ isTarget))]

/-- The loop over the rows of a child ends the statement with an error, or updates each of them. -/
theorem runs_updateChildRows (quiet : env.NoTriggers) (isStart : start.tables.lookup childName = some t)
    (schema : Table.SameSchema t child) (isChild : childName ∈ names)
    (targets : ∀ values target, route metadata parent values = some target → target ∈ names)
    (descending : rows.Pairwise (· > ·)) {rowAt : Nat → Row}
    {now : Table} (isTab : db.tables.lookup childName = some now)
    (stored : ∀ i ∈ rows, now.directory[i]? = some (some (rowAt i)))
    (visible : ∀ i ∈ rows, db.transactionManager.isVisible (rowAt i).xmin (rowAt i).xmax
      db.reader.1 db.reader.2 = true)
    (ids : db.writesVersioned = true → db.reader.1 ≠ 0) (keyless : db.Keyless names) {count : Nat}
    (runs : (updateChildRows env metadata parent stmt childName child rows count).Runs fns s db db'
      (.ok out)) :
    (∃ res, out = .inl res ∧ res.success = false) ∨
      (out = .inr (count + rows.length) ∧ Database.Progress fns names childName db db' ∧
        ∀ key, view names db' key +
            (if key = childName then (rows.map (fun i => (rowAt i).values) : Multiset _) else 0) =
          view names db key + (relocation env metadata stmt parent start).arrivals childName
            (rows.map (fun i => (rowAt i).values)) key) := by
  induction rows generalizing db now count with
  | nil =>
    obtain ⟨rfl, eq⟩ := runs_pure_iff.mp runs
    cases eq
    refine .inr ⟨rfl, .refl keyless, fun key => ?_⟩
    simp [Relocation.arrivals]
  | cons i rows ih =>
    obtain ⟨fst, descending⟩ := List.pairwise_cons.mp descending
    have here := stored i List.mem_cons_self
    have next := runs_getTable_bind.mp runs
    rw [isTab] at next
    have isIn : ¬ now.rowCount ≤ i := Nat.not_le.mpr (List.getElem?_eq_some_iff.mp here).1
    dsimp only at next
    rw [if_neg isIn] at next
    obtain ⟨db₂, cur, read, evaluates⟩ := runs_bind_ok next
    obtain ⟨rfl, isRow⟩ := runs_lift_iff.mp read
    obtain rfl : cur = rowAt i := by
      rw [getRow_eq_ok_iff.mpr here] at isRow
      exact Except.ok.inj isRow
    obtain ⟨db₃, new, vals, writes⟩ := runs_bind_ok evaluates
    obtain ⟨rfl, assigned⟩ := runs_lift_iff.mp vals
    obtain ⟨db₄, done, turned, rest⟩ := runs_bind_ok writes
    obtain ⟨res, rfl, unsuccessful⟩ | ⟨rfl, db₅, target, checked, routed, written⟩ :=
      runs_updateOneRouted quiet turned
    · obtain ⟨-, eq⟩ := runs_pure_iff.mp rest
      cases eq
      exact .inl ⟨res, rfl, unsuccessful⟩
    · -- The foreign keys leave the children as they are; then the row is written.
      have untouched := Database.untouched_of_runs quiet keyless checked
      have turn := turned_of_writeRouted ((untouched.tables childName isChild).trans isTab)
        here (by rw [untouched.manager, untouched.reader]; exact visible i List.mem_cons_self)
        (by rw [untouched.versioned, untouched.reader]; exact ids) untouched.keyless written
      have progress : Database.Progress fns names childName db₃ db₄ :=
        untouched.progress.trans turn.progress
      obtain ⟨later, isLater, below⟩ := turn.below now
        ((untouched.tables childName isChild).trans isTab)
      have behind := ih descending isLater (fun j mem => by
          rw [below j (fst j mem)]
          exact stored j (List.mem_cons_of_mem i mem))
        (fun j mem => by
          rw [progress.manager, progress.reader]
          exact visible j (List.mem_cons_of_mem i mem))
        (by rw [progress.versioned, progress.reader]; exact ids) progress.keyless rest
      obtain unsuccessful | ⟨isOut, more, seen⟩ := behind
      · exact .inl unsuccessful
      · refine .inr ⟨?_, progress.trans more, fun key => ?_⟩
        · rw [isOut, List.length_cons]
          congr 1
          omega
        · have placed := relocation_place isStart
            (updatedValues_of_assigned schema assigned.symm) routed
          have one := turn.view_eq isChild (targets _ _ routed) placed key
          have eq : view names db₅ key = view names db₃ key := by
            unfold view
            split
            · rename_i isIn
              exact untouched.seenIn isIn
            · rfl
          have both := seen key
          rw [eq] at one
          rw [List.map_cons, ← Multiset.cons_coe, ← Multiset.singleton_add, Relocation.arrivals_add]
          by_cases isHere : key = childName
          · simp only [if_pos isHere] at one both ⊢
            rw [add_left_comm, both, ← add_assoc, add_comm {_}, one, add_assoc]
          · simp only [if_neg isHere, add_zero] at one both ⊢
            rw [both, one, add_assoc]

theorem descending_mergeSort (once : rows.Nodup) :
    (rows.mergeSort (fun a b => decide (b ≤ a))).Pairwise (· > ·) := by
  have permuted := List.mergeSort_perm rows (fun a b => decide (b ≤ a))
  have sorted : (rows.mergeSort (fun a b => decide (b ≤ a))).Pairwise
      (fun a b => decide (b ≤ a) = true) :=
    List.pairwise_mergeSort (fun a b c => by simp; omega) (fun a b => by simp; omega) rows
  have nodup : (rows.mergeSort (fun a b => decide (b ≤ a))).Pairwise (· ≠ ·) :=
    permuted.nodup_iff.mpr once
  refine (sorted.and nodup).imp (fun {a b} both => ?_)
  have := of_decide_eq_true both.1
  have := both.2
  omega

/-- A row is selected as it is accepted and reached in the table that rows were inserted into. -/
theorem selects_iff (isStart : start.tables.lookup childName = some t)
    (schema : Table.SameSchema t child) (row : Row) :
    (relocation env metadata stmt parent start).selects childName row.values = true ↔
      Table.Accepts (child.dmlEvaluator env) stmt.whereCondition row ∧
        child.Reached child.name stmt.whereCondition row := by
  have accepts : Table.Accepts (t.dmlEvaluator env) stmt.whereCondition ⟨row.values, 0, 0⟩ ↔
      Table.Accepts (child.dmlEvaluator env) stmt.whereCondition row := by
    unfold Table.Accepts
    rw [schema.dmlEvaluator, @Table.accepts_values (t.dmlEvaluator env) row ⟨row.values, 0, 0⟩ rfl]
  have reached := @Table.SameSchema.reached t child stmt.whereCondition schema
    ⟨row.values, 0, 0⟩ row rfl
  simp only [relocation, decide_eq_true_eq]
  constructor
  · rintro ⟨u, isTab, acc, isReached⟩
    obtain rfl : t = u := some.inj (isStart.symm.trans isTab)
    exact ⟨accepts.mp acc, reached.mpr isReached⟩
  · rintro ⟨acc, isReached⟩
    exact ⟨t, isStart, accepts.mpr acc, reached.mp isReached⟩

theorem selected_eq (isStart : start.tables.lookup childName = some t)
    (schema : Table.SameSchema t child) (isChild : childName ∈ names)
    (isTab : db.tables.lookup childName = some child) {stored : List Row}
    (readable : child.getAllRows = .ok stored) (once : rows.Nodup)
    (isIn : ∀ i ∈ rows, i < stored.length)
    (exactly : ∀ i row, stored[i]? = some row → (i ∈ rows ↔
      db.transactionManager.isVisible row.xmin row.xmax db.reader.1 db.reader.2 = true ∧
        Table.Accepts (child.dmlEvaluator env) stmt.whereCondition row ∧
        child.Reached child.name stmt.whereCondition row)) :
    (relocation env metadata stmt parent start).selected childName (view names db) =
      ((rows.filterMap (fun i => stored[i]?)).map Row.values : Multiset _) := by
  have coll := @Table.rows_at_pos stored rows
    (fun row => (relocation env metadata stmt parent start).selects childName row.values &&
      db.transactionManager.isVisible row.xmin row.xmax db.reader.1 db.reader.2) once isIn
    (fun i row has => by
      rw [exactly i row has, Bool.and_eq_true, selects_iff isStart schema, and_comm])
  have seen : view names db childName = ((stored.filter (fun row =>
      db.transactionManager.isVisible row.xmin row.xmax db.reader.1 db.reader.2)).map Row.values :
        Multiset _) := by
    unfold view
    have all : (stored.map some).reduceOption = stored := by simp [List.reduceOption]
    rw [if_pos isChild, Database.seenIn_of_lookup isTab, seenSlots,
      dir_of_getAllRows readable, all, seen_eq_filter]
  rw [Multiset.coe_eq_coe.mpr (coll.map Row.values), Relocation.selected, seen,
    Multiset.filter_coe, List.filter_map, List.filter_filter]
  simp only [Function.comp, Bool.decide_eq_true]

/-- A visit of a child ends the statement with an error, or is the visit of the relocating update. -/
theorem runs_visit (quiet : env.NoTriggers) (isStart : start.tables.lookup childName = some t)
    (inserted : Table.Inserted fns t child) (steady : t.SteadyIndexes fns)
    (isChild : childName ∈ names)
    (targets : ∀ values target, route metadata parent values = some target → target ∈ names)
    (isTab : db.tables.lookup childName = some child)
    (ids : db.writesVersioned = true → db.reader.1 ≠ 0) (keyless : db.Keyless names) {count : Nat}
    (runs : (do
      let rows ← collectMatching env childName child stmt.whereCondition
      updateChildRows env metadata parent stmt childName child
        (rows.mergeSort (fun a b => b ≤ a)) count : Body _).Runs fns s db db' (.ok out)) :
    (∃ res, out = .inl res ∧ res.success = false) ∨
      (out = .inr (count + ((relocation env metadata stmt parent start).selected childName
          (view names db)).card) ∧ Database.Progress fns names childName db db' ∧
        view names db' = (relocation env metadata stmt parent start).visit childName (view names db)) := by
  obtain ⟨db₁, rows, coll, loop⟩ := runs_bind_ok runs
  obtain ⟨rfl, isRows⟩ := runs_collect isTab coll
  obtain ⟨stored, readable, once, isIn, exactly⟩ :=
    mem_collected_iff (steady child inserted) isRows.symm
  have permuted := List.mergeSort_perm rows (fun a b => decide (b ≤ a))
  obtain ⟨rowAt, has⟩ : ∃ rowAt : Nat → Row, ∀ i ∈ rows, stored[i]? = some (rowAt i) := by
    refine ⟨fun i => (stored[i]?).getD ⟨[], 0, 0⟩, fun i mem => ?_⟩
    simp [List.getElem?_eq_getElem (isIn i mem)]
  have loops := runs_updateChildRows quiet isStart inserted.sameSchema isChild targets
    (descending_mergeSort once) isTab
    (fun i mem => by
      rw [dir_of_getAllRows readable, List.getElem?_map, has i (permuted.mem_iff.mp mem)]
      rfl)
    (fun i mem => by
      have isRow := permuted.mem_iff.mp mem
      exact ((exactly i (rowAt i) (has i isRow)).mp isRow).1)
    ids keyless loop
  obtain unsuccessful | ⟨isOut, progress, seen⟩ := loops
  · exact .inl unsuccessful
  · have taken : ((rows.mergeSort (fun a b => decide (b ≤ a))).map (fun i => (rowAt i).values) :
        Multiset _) =
          (relocation env metadata stmt parent start).selected childName (view names db₁) := by
      have read : rows.filterMap (fun i => stored[i]?) = rows.map rowAt := by
        rw [List.filterMap_congr has, List.filterMap_eq_map']
      rw [selected_eq isStart inserted.sameSchema isChild isTab readable once isIn exactly, read,
        List.map_map]
      exact Multiset.coe_eq_coe.mpr (permuted.map _)
    rw [taken] at seen
    refine .inr ⟨?_, progress, Relocation.eq_visit_iff.mpr seen⟩
    rw [isOut, ← taken, Multiset.coe_card, List.length_map]

end Child

end Executor

end NobugDb
