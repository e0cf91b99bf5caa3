import NobugDb.Executor.Proofs.Atomicity
import NobugDb.Executor.Proofs.HiddenWrites

/-!
# Referential actions in transactions

CASCADE, SET NULL and SET DEFAULT write child rows in place, in a transaction as outside one. So
other sessions see them at once, and ROLLBACK, which only hides the versions that the transaction
has inserted and stamped, does not take them back. They are hidden, and rolled back, exactly
when they are made to versions that nobody else sees.
-/

namespace NobugDb

open Misc (AssocMap Program)
open TransactionManager
open Body
open Database
open Option (some.inj)

/-! ## BEGIN and ROLLBACK -/

namespace Database

variable {s : Nat} {db : Database}

/-- After BEGIN of session `s`, in a call of it. -/
def begun (s : Nat) (db : Database) : Database :=
  { (db.executeBegin s).1 with activeSession := some s }

section Begun

variable (outside : (db.sessions s).inTransaction = false)

include outside

theorem begun_session : (db.begun s).sessions s = ⟨true, db.transactionManager.nextXid,
    some db.transactionManager.beginTransaction.1.captureSnapshot⟩ := by
  simp only [begun, executeBegin, outside, Bool.false_eq_true, if_false, setSession]
  exact Function.update_self _ _ _

theorem begun_manager : (db.begun s).transactionManager = db.transactionManager.begun := by
  simp only [begun, executeBegin, outside, Bool.false_eq_true, if_false]
  rfl

theorem begun_tables : (db.begun s).tables = db.tables := by
  simp only [begun, executeBegin, outside, Bool.false_eq_true, if_false]
  rfl

variable (consistent : db.transactionManager.Consistent)

include consistent

theorem begun_running : Running s (db.begun s) := by
  have session := begun_session outside
  refine ⟨by rw [session], by rw [session]; exact consistent.next_pos.ne', ?_⟩
  have status : db.transactionManager.begun.statuses db.transactionManager.nextXid =
    some .inProgress := begun_status_self
  rw [begun_manager outside, session, isCommitted]
  simp [status, consistent.next_pos.ne']

theorem begun_snap : ∃ snap, ((db.begun s).sessions s).snapshot = some snap ∧
    ∀ x ≠ 0, (db.begun s).transactionManager.isCommitted x = true →
      (db.begun s).transactionManager.Settled snap x := by
  refine ⟨_, congrArg Transaction.snapshot (begun_session outside), ?_⟩
  rw [begun_manager outside]
  intro x pos committed
  rw [isCommitted_begun consistent] at committed
  exact (settled_captured consistent pos).mpr committed

theorem begun_seenBy (name : String) :
    (db.begun s).seenBy (0, none) name = db.seenBy (0, none) name := by
  unfold seenBy slots
  rw [begun_manager outside, begun_tables outside]
  exact seen_congr (fun row _ => share_auto_congr
    (isCommitted_begun consistent _) (isCommitted_begun consistent _))

end Begun

theorem lookup_eachTable (f : Table → Table × Except Exn Unit) (tables : AssocMap String Table)
    (name : String) :
    (eachTable f tables).1.lookup name = tables.lookup name ∨
      (eachTable f tables).1.lookup name = (tables.lookup name).map (fun t => (f t).1) := by
  induction tables with
  | nil => exact .inl rfl
  | cons e tables ih =>
    obtain ⟨key, t⟩ := e
    unfold eachTable
    by_cases here : name = key
    · refine .inr ?_
      subst here
      split
      · rename_i fail
        simp [fail]
      · rename_i done
        simp [done]
    · have apart : (name == key) = false := by simpa using here
      split
      · exact .inl (by simp only [List.lookup_cons, apart])
      · simpa only [List.lookup_cons, apart] using ih

theorem vacuumAll_seenBy (db : Database) (name : String) :
    db.vacuumAllTables.1.seenBy (0, none) name = db.seenBy (0, none) name := by
  have slots : ∀ t : Table, db.transactionManager.seenSlots (0, none)
      (t.vacuumVersions db.transactionManager).1.directory =
        db.transactionManager.seenSlots (0, none) t.directory :=
    fun t => t.vacuumVersions_seen db.transactionManager
  show db.transactionManager.seenSlots (0, none)
    ((((eachTable (fun t => t.vacuumVersions db.transactionManager) db.tables).1.lookup name).map
      Table.directory).getD []) = _
  rcases lookup_eachTable (fun t => t.vacuumVersions db.transactionManager) db.tables name with
    eq | eq
  · rw [eq]
    rfl
  · rw [eq, seenBy, Database.slots]
    cases db.tables.lookup name with
    | none => rfl
    | some t => exact slots t

theorem rollback_seenBy (running : Running s db) (name : String) :
    (db.executeRollback s).1.seenBy (0, none) name = db.seenBy (0, none) name := by
  let aborted : Database := { db with
    transactionManager := db.transactionManager.abortTransaction (db.sessions s).transactionId }
  have committed : ∀ x, aborted.transactionManager.isCommitted x = db.transactionManager.isCommitted x := by
    intro x
    by_cases own : x = (db.sessions s).transactionId
    · rw [own, running.uncommitted, isCommitted]
      have status : aborted.transactionManager.statuses (db.sessions s).transactionId =
        some .aborted := endTxn_status_self
      simp [status, running.id_ne_zero]
    · have status : aborted.transactionManager.statuses x = db.transactionManager.statuses x :=
        endTxn_statuses own
      simp only [isCommitted, status]
  have eq : aborted.seenBy (0, none) name = db.seenBy (0, none) name :=
    seen_congr (fun row _ => share_auto_congr (committed _) (committed _))
  have rolled : (db.executeRollback s).1.seenBy (0, none) name =
      aborted.vacuumAllTables.1.seenBy (0, none) name := by
    unfold executeRollback
    simp only [running.inTransaction, Bool.not_true, Bool.false_eq_true, if_false]
    show (andThen aborted.vacuumAllTables (fun db => (db.endSession s, _))).1.seenBy _ _ = _
    generalize aborted.vacuumAllTables = vacuumed
    obtain ⟨db₁, out⟩ := vacuumed
    cases out with
    | error e => rfl
    | ok =>
      show (db₁.endSession s).seenBy (0, none) name = _
      unfold endSession releaseSessionLocks
      split <;> rfl
  rw [rolled, vacuumAll_seenBy, eq]

end Database

/-! ## The operations of a statement -/

/-- The operation reads, inserts, writes in place, though it deletes nothing of the table in place,
    or stamps one of these rows of the table. -/
def Op.WorksOn (target : String) (rows : List Nat) : Op → Prop
  | .look | .visible _ | .insert _ _ | .updateInPlace _ _ _ => True
  | .deleteInPlace name _ => name ≠ target
  | .update name i _ | .delete name i true => name = target ∧ i ∈ rows
  | _ => False

namespace Database

variable {fns : Functions} {s : Nat} {start db db' : Database} {op : Op} {response : Response}
  {target name : String} {rows : List Nat}

/-- None of these rows of the table is dead. -/
def NoneDead (target : String) (rows : List Nat) (db : Database) : Prop :=
  ∀ i ∈ rows, ∀ row ∈ db.versionAt target i, db.transactionManager.NotDead row

variable {f : Table → Table × Except Exn Unit} {slots : List (Option Row)}

theorem lookup_write {u : Table} (hit : (db.write name f).1.tables.lookup target = some u) :
    db.tables.lookup target = some u ∨
      name = target ∧ ∃ t, db.tables.lookup target = some t ∧ (f t).1 = u := by
  cases isTab : db.tables.lookup name with
  | none =>
    rw [write_missing isTab] at hit
    exact .inl hit
  | some t =>
    rw [write_found isTab] at hit
    have adjusted := Misc.lookup_adjust name target (fun _ => (f t).1) db.tables
    rw [adjusted] at hit
    split at hit
    · rename_i eq
      subst eq
      rw [isTab] at hit
      exact .inr ⟨rfl, t, isTab, some.inj hit⟩
    · exact .inl hit

theorem NoneDead.write (alive : NoneDead target rows db)
    (keeps : ∀ t, db.tables.lookup target = some t → name = target → ∀ i ∈ rows, ∀ row,
      (f t).1.directory[i]? = some (some row) →
        t.directory[i]? = some (some row) ∨ db.transactionManager.NotDead row) :
    NoneDead target rows (db.write name f).1 := by
  obtain ⟨-, mgr, -⟩ := @write_reader db name f
  intro i mem row isRow
  rw [mgr]
  obtain ⟨u, hit, isJoin⟩ := Option.bind_eq_some_iff.mp isRow
  have stored := Option.join_eq_some_iff.mp isJoin
  rcases lookup_write hit with eq | ⟨isTarget, t, isTab, rfl⟩
  · exact alive i mem row ((versionAt_eq_some_iff eq).mpr stored)
  · rcases keeps t isTab isTarget i mem row stored with before | notDead
    · exact alive i mem row ((versionAt_eq_some_iff isTab).mpr before)
    · exact notDead

theorem proper_of_worksOn (works : op.WorksOn target rows) (alive : NoneDead target rows db) :
    op.Proper db := by
  cases op with
  | update name i vals =>
    obtain ⟨rfl, mem⟩ := works
    exact alive i mem
  | delete name i inTx =>
    cases inTx with
    | false => exact works.elim
    | true =>
      obtain ⟨rfl, mem⟩ := works
      exact alive i mem
  | look | visible | insert | updateInPlace | deleteInPlace => trivial
  | _ => exact works.elim

theorem slot_of_set {i j : Nat} {new : Option Row} {row : Row}
    (stored : (slots.set i new)[j]? = some (some row)) : slots[j]? = some (some row) ∨ new = some row := by
  rw [List.getElem?_set] at stored
  split at stored
  · split at stored
    · exact .inr (some.inj stored)
    · cases stored
  · exact .inl stored

theorem slot_of_append {j : Nat} {new row : Row}
    (stored : (slots ++ [some new])[j]? = some (some row)) : slots[j]? = some (some row) ∨ new = row := by
  rw [List.getElem?_append] at stored
  split at stored
  · exact .inl stored
  · refine .inr ?_
    cases here : j - slots.length with
    | zero =>
      rw [here] at stored
      exact some.inj (some.inj stored)
    | succ k =>
      rw [here] at stored
      cases stored

theorem NoneDead.perform (alive : NoneDead target rows db) (within : Within s start db)
    (running : Running s start) (works : op.WorksOn target rows)
    (ran : db.perform fns s op = some (db', response)) : NoneDead target rows db' := by
  have uncommitted : db.transactionManager.isCommitted (start.sessions s).transactionId = false := by
    rw [within.manager]
    exact running.uncommitted
  have stamped {slots : List (Option Row)} {i j : Nat} {old row : Row}
      (stored : (slots.set i (some (old.setXmax (start.sessions s).transactionId)))[j]? =
        some (some row)) : slots[j]? = some (some row) ∨ db.transactionManager.NotDead row := by
    refine (slot_of_set stored).imp_right (fun new => ?_)
    exact some.inj new ▸ fun _ => .inr uncommitted
  have inserted (vals : List Value) :
      db.transactionManager.NotDead ⟨vals, (start.sessions s).transactionId, 0⟩ := fun _ => .inl rfl
  cases within.writes running (proper_of_worksOn works alive) ran with
  | nothing _ _ mgr tables =>
    unfold NoneDead versionAt
    rw [tables, mgr]
    exact alive
  | inserts tab vals =>
    refine alive.write (fun t _ _ i _ row stored => ?_)
    rcases Table.insertRow_dir fns t ⟨vals, (start.sessions s).transactionId, 0⟩ with
      ⟨eq, -⟩ | eq
    · exact .inl (eq ▸ stored)
    · rcases slot_of_append (eq ▸ stored) with before | rfl
      · exact .inl before
      · exact .inr (inserted vals)
  | updates tab j vals =>
    refine alive.write (fun t hit isTarget i _ row stored => ?_)
    have fit := within.fit _ (Misc.mem_of_lookup hit)
    rcases @Table.updateVersion_dir_of_fit fns t j (start.sessions s).transactionId
      ⟨vals, 0, 0⟩ fit with eq | ⟨old, -, eq | eq⟩
    · exact .inl (eq ▸ stored)
    · exact stamped (eq ▸ stored)
    · rcases slot_of_append (eq ▸ stored) with set | rfl
      · exact stamped set
      · exact .inr (inserted vals)
  | deletes tab j =>
    refine alive.write (fun t hit isTarget i _ row stored => ?_)
    have fit := within.fit _ (Misc.mem_of_lookup hit)
    rcases @Table.deleteVersion_dir_of_fit t j (start.sessions s).transactionId fit with
      eq | ⟨old, -, eq⟩
    · exact .inl (eq ▸ stored)
    · exact stamped (eq ▸ stored)
  | updatesInPlace tab j vals =>
    refine alive.write (fun t hit isTarget i mem row stored => ?_)
    rcases Table.updateRow_dir fns t j ⟨vals, 0, 0⟩ with ⟨eq, -⟩ | ⟨old, isOld, eq | ⟨eq, -⟩⟩
    · exact .inl (eq ▸ stored)
    · by_cases here : j = i
      · -- The stamps are those of the old version.
        subst here
        refine .inr ?_
        rcases slot_of_set (eq ▸ stored) with before | new
        · exact alive j mem row ((versionAt_eq_some_iff hit).mpr before)
        · rw [← some.inj new]
          exact alive j mem old ((versionAt_eq_some_iff hit).mpr isOld)
      · refine .inl ?_
        rw [eq, List.getElem?_set_ne here] at stored
        exact stored
    · rcases slot_of_set (eq ▸ stored) with before | none
      · exact .inl before
      · cases none
  | deletesInPlace tab j =>
    exact alive.write (fun t _ isTarget => absurd isTarget works)

end Database

namespace Body

variable {α β : Type} {fns : Functions} {s : Nat} {start db : Database} {body : Body α}
  {target : String} {rows : List Nat} {p : Database × Op}

/-- The operations of a body, each with the database it finds. -/
def performed (fns : Functions) (s : Nat) (db : Database) (body : Body α) : List (Database × Op) :=
  Program.performed (fun db op => db.perform fns s op) db body

theorem mem_performed_bind {f : α → Body β} :
    p ∈ performed fns s db (body >>= f) ↔
      p ∈ body.performed fns s db ∨
        ∃ db₁ a, body.Runs fns s db db₁ (.ok a) ∧ p ∈ (f a).performed fns s db₁ := by
  refine Program.mem_performed_bind.trans (or_congr_right ⟨?_, ?_⟩)
  · rintro ⟨db₁, a | a, runs, mem⟩
    · cases mem
    · exact ⟨db₁, a, runs, mem⟩
  · rintro ⟨db₁, a, runs, mem⟩
    exact ⟨db₁, .ok a, runs, mem⟩

theorem proper_of_all (all : body.All (Op.WorksOn target rows)) (within : Database.Within s start db)
    (running : start.Running s) (alive : db.NoneDead target rows) :
    ∀ p ∈ body.performed fns s db, p.2.Proper p.1 := by
  have works : ∀ p ∈ body.performed fns s db, p.2.WorksOn target rows := Program.All.performed all
  have holds := Program.performed_inv
    (I := fun now : Database => Database.Within s start now ∧ now.NoneDead target rows)
    (fun p (mem : p ∈ body.performed fns s db) db' response performs now =>
      ⟨now.1.perform running (proper_of_worksOn (works p mem) now.2) performs,
        now.2.perform now.1 running (works p mem) performs⟩) ⟨within, alive⟩
  intro p mem
  exact proper_of_worksOn (works p mem) (holds p mem).2

theorem proper_of_reads (all : body.All (Op.WorksOn "" [])) (within : Database.Within s start db)
    (running : start.Running s) : ∀ p ∈ body.performed fns s db, p.2.Proper p.1 :=
  proper_of_all all within running (fun _ mem => nomatch mem)

end Body

namespace Executor

section Quiet

variable {env : Env} {s : Nat} {start db : Database} {catalog : AssocMap String PartitionedTableMetadata}

/-- Within a transaction whose snapshot knows of every commit, the rows that a statement has
    collected are not dead. -/
theorem noneDead_of_collected {name : String} {t : Table} {cond : Option (Expr Empty)} {rows : List Nat}
    {snap : TransactionSnapshot} (within : Database.Within s start db) (running : start.Running s)
    (isSnapshot : (start.sessions s).snapshot = some snap)
    (settled : ∀ x ≠ 0, start.transactionManager.isCommitted x = true →
      start.transactionManager.Settled snap x)
    (hit : db.tables.lookup name = some t)
    (coll : t.collectMatchingIndices db.transactionManager db.reader.1 db.reader.2 cond
      (t.dmlEvaluator env) = .ok rows) : db.NoneDead name rows := by
  intro i mem row isRow committed
  have stored := (versionAt_eq_some_iff hit).mp isRow
  have visible := collectIndices_visible coll mem stored
  have isReader : db.reader = ((start.sessions s).transactionId, some snap) := by
    unfold reader
    rw [within.active]
    dsimp only
    rw [within.sessions]
    simp [readerOf, running.inTransaction, isSnapshot]
  rw [isReader, within.manager] at visible
  rw [within.manager] at committed ⊢
  rcases (isVisible_snap (Nat.pos_of_ne_zero running.id_ne_zero)).mp visible with
    ⟨own, -⟩ | ⟨-, -, zero | ⟨-, unsettled⟩⟩
  · rw [own, running.uncommitted] at committed
    cases committed
  · exact .inl zero
  · by_cases zero : row.xmax = 0
    · exact .inl zero
    · exact .inr (Bool.eq_false_iff.mpr fun ended => unsettled (settled _ zero ended))

end Quiet

end Executor

/-! ## Transactions -/

namespace Executor

section Accesses

variable (env : Env) (catalog : AssocMap String PartitionedTableMetadata) (s : Nat)

/-- Statements of a session, one after another. -/
def executeAll (db : Database) (statements : List Statement) : Database :=
  Misc.run (fun db statement =>
    (Program.exec (Database.perform env.functions s) db (dmlBody env catalog statement)).1) db statements

/-- The operations of the statements, each with the database it finds. -/
def accesses : Database → List Statement → List (Database × Op)
  | _, [] => []
  | db, statement :: rest =>
    (dmlBody env catalog statement).performed env.functions s db ++
      accesses (executeAll env catalog s db [statement]) rest

end Accesses

variable {env : Env} {catalog : AssocMap String PartitionedTableMetadata} {s : Nat} {db : Database}
  {statements : List Statement}

theorem accesses_inv {I : Database → Prop}
    (pres : ∀ p ∈ accesses env catalog s db statements, ∀ db' response,
      p.1.perform env.functions s p.2 = some (db', response) → I p.1 → I db') (start : I db) :
    (∀ p ∈ accesses env catalog s db statements, I p.1) ∧ I (executeAll env catalog s db statements) := by
  induction statements generalizing db with
  | nil => exact ⟨nofun, start⟩
  | cons stmt rest ih =>
    have fst := fun p mem => pres p (List.mem_append_left _ mem)
    have next : I (executeAll env catalog s db [stmt]) := Program.exec_inv fst start
    obtain ⟨later, last⟩ := ih (fun p mem => pres p (List.mem_append_right _ mem)) next
    refine ⟨fun p mem => ?_, last⟩
    rcases List.mem_append.mp mem with here | there
    · exact Program.performed_inv fst start p here
    · exact later p there

theorem begun_within (fit : ∀ e ∈ db.tables, e.2.RowsFit)
    (outside : (db.sessions s).inTransaction = false) :
    Database.Within s (db.begun s) (db.begun s) := by
  refine ⟨rfl, rfl, rfl, ?_⟩
  rw [begun_tables outside]
  exact fit

theorem accesses_within (consistent : db.transactionManager.Consistent)
    (fit : ∀ e ∈ db.tables, e.2.RowsFit) (outside : (db.sessions s).inTransaction = false)
    (proper : ∀ p ∈ accesses env catalog s (db.begun s) statements, p.2.Proper p.1) :
    ∀ p ∈ accesses env catalog s (db.begun s) statements, Database.Within s (db.begun s) p.1 :=
  (accesses_inv (fun p mem _ _ ran within =>
    within.perform (begun_running outside consistent) (proper p mem) ran)
    (begun_within fit outside)).1

/-- The referential actions of a transaction are hidden from every other session when they are
    made, and ROLLBACK brings back the rows that were committed before BEGIN, exactly when every
    version that an action deletes or changes is one that no other session sees. -/
theorem actions_hidden_iff (consistent : db.transactionManager.Consistent)
    (fit : ∀ e ∈ db.tables, e.2.RowsFit) (outside : (db.sessions s).inTransaction = false)
    (proper : ∀ p ∈ accesses env catalog s (db.begun s) statements, p.2.Proper p.1) :
    ((∀ p ∈ accesses env catalog s (db.begun s) statements, p.2.isAction = true →
          p.2.Hidden env.functions s p.1) ∧
        ∀ name, ((executeAll env catalog s (db.begun s) statements).executeRollback s).1.seenBy
          (0, none) name = db.seenBy (0, none) name) ↔
      ∀ p ∈ accesses env catalog s (db.begun s) statements, p.2.Private env.functions s p.1 := by
  have running := begun_running outside consistent
  have within := accesses_within consistent fit outside proper
  constructor
  · rintro ⟨hidden, -⟩ p member
    cases isAction : p.2.isAction with
    | true => exact (Op.hidden_iff_private isAction (within p member).fit).mp (hidden p member isAction)
    | false =>
      revert isAction
      cases p.2 <;> simp [Op.isAction, Op.Private]
  · intro isPrivate
    have hidden : ∀ p ∈ accesses env catalog s (db.begun s) statements, p.2.isAction = true →
        p.2.Hidden env.functions s p.1 := fun p member isAction =>
      (Op.hidden_iff_private isAction (within p member).fit).mpr (isPrivate p member)
    refine ⟨hidden, fun name => ?_⟩
    -- Along the statements the transaction goes on, and what is committed stays.
    obtain ⟨-, still, same⟩ := accesses_inv
      (I := fun now => Database.Within s (db.begun s) now ∧
        now.seenBy (0, none) name = (db.begun s).seenBy (0, none) name)
      (fun p member db' response performs now =>
        ⟨now.1.perform running (proper p member) performs,
          (now.1.committed running (proper p member) (hidden p member) performs name).trans now.2⟩)
      ⟨begun_within fit outside, rfl⟩
    have stillRunning : Database.Running s (executeAll env catalog s (db.begun s) statements) := by
      refine ⟨?_, ?_, ?_⟩
      · rw [still.sessions]
        exact running.inTransaction
      · rw [still.sessions]
        exact running.id_ne_zero
      · rw [still.sessions, still.manager]
        exact running.uncommitted
    rw [rollback_seenBy stillRunning, same, begun_seenBy outside consistent]

section Library

open Engine (plainEnv)

/-- Authors, and books that go with them. -/
def library (books : List Int) : Database where
  tables :=
    [("authors",
      { name := "authors"
        columns := [⟨"id", .int, false, false, false, none⟩]
        directory := [some ⟨[.int 1], 0, 0⟩] }),
     ("books",
      { name := "books"
        columns := [⟨"author", .int, false, false, false, none⟩]
        foreignKeys := [⟨["author"], "authors", ["id"], .cascade, .restrict⟩]
        directory := books.map (fun author => some ⟨[.int author], 0, 0⟩) })]

/-- `INSERT INTO books VALUES (1)` and `DELETE FROM authors`. -/
def addBook : Statement := .insert ⟨"books", [], [[.literal (.int 1)]]⟩

@[inherit_doc addBook]
def dropAuthors : Statement := .delete ⟨"authors", none⟩

/-- No reader outside transactions sees a version that the operation deletes, and it updates none. -/
def hiddenDelete (p : Database × Op) : Bool :=
  match p.2 with
  | .updateInPlace _ _ _ => false
  | .deleteInPlace name i => (p.1.versionAt name i).all (fun old =>
    !p.1.transactionManager.isVisible old.xmin old.xmax 0 none)
  | _ => true

/-- The transaction deletes a book that it has added itself: nobody sees it, and ROLLBACK brings
    back the author. -/
theorem own_book_hidden :
    let db := library []
    (∀ p ∈ accesses plainEnv [] 0 (db.begun 0) [addBook, dropAuthors], p.2.isAction = true →
        p.2.Hidden plainEnv.functions 0 p.1) ∧
      (accesses plainEnv [] 0 (db.begun 0) [addBook, dropAuthors]).any (fun p => p.2.isAction) = true ∧
      ∀ name, ((executeAll plainEnv [] 0 (db.begun 0) [addBook, dropAuthors]).executeRollback 0).1.seenBy
        (0, none) name = db.seenBy (0, none) name := by
  intro db
  have fit : ∀ e ∈ db.tables, e.2.RowsFit := by
    intro e member row stored
    have each : row = ⟨[.int 1], 0, 0⟩ := by
      rcases List.mem_cons.mp member with rfl | member
      · exact Option.some.inj (List.mem_singleton.mp stored)
      · rw [List.mem_singleton.mp member] at stored
        cases stored
    rw [each]
    decide
  have proper : ∀ p ∈ accesses plainEnv [] 0 (db.begun 0) [addBook, dropAuthors], p.2.Proper p.1 := by
    have all : (accesses plainEnv [] 0 (db.begun 0) [addBook, dropAuthors]).all
        (fun p => decide (p.2.Proper p.1)) = true := by decide +kernel
    exact fun p member => of_decide_eq_true (List.all_eq_true.mp all p member)
  -- The other sessions are outside transactions, and do not see the version that is deleted.
  have observers : ∀ p ∈ accesses plainEnv [] 0 (db.begun 0) [addBook, dropAuthors], ∀ reader,
      p.1.Observes 0 reader → reader = (0, none) := by
    rintro p member reader (rfl | ⟨other, isOther, rfl⟩)
    · rfl
    · rw [(accesses_within consistent_init fit rfl proper p member).sessions]
      have outside : (db.begun 0).sessions other = {} := Function.update_of_ne isOther _ _
      rw [outside]
      rfl
  have unseen : (accesses plainEnv [] 0 (db.begun 0) [addBook, dropAuthors]).all hiddenDelete = true := by
    decide +kernel
  have isPrivate : ∀ p ∈ accesses plainEnv [] 0 (db.begun 0) [addBook, dropAuthors],
      p.2.Private plainEnv.functions 0 p.1 := by
    intro p member
    have hidden := List.all_eq_true.mp unseen p member
    have alone := observers p member
    obtain ⟨now, op⟩ := p
    cases op with
    | updateInPlace name i values => cases hidden
    | deleteInPlace name i =>
      intro old isOld reader observes
      rw [alone reader observes]
      have isOld : now.versionAt name i = some old := isOld
      simpa [hiddenDelete, isOld] using hidden
    | _ => trivial
  obtain ⟨hidden, same⟩ :=
    (actions_hidden_iff consistent_init fit rfl proper).mpr isPrivate
  exact ⟨hidden, by decide +kernel, same⟩

/-- The author is deleted in a transaction: other sessions miss the book before the commit, and
    ROLLBACK does not bring it back. -/
theorem rolled_back_cascade_kept :
    let db := library [1]
    let inside := executeAll plainEnv [] 0 (db.begun 0) [dropAuthors]
    db.seenBy (0, none) "books" = {[.int 1]} ∧
      inside.Observes 0 (0, none) ∧ inside.seenBy (0, none) "books" = 0 ∧
      (inside.executeRollback 0).1.seenBy (0, none) "authors" = {[.int 1]} ∧
      (inside.executeRollback 0).1.seenBy (0, none) "books" = 0 :=
  ⟨by decide +kernel, .inl rfl, by decide +kernel, by decide +kernel, by decide +kernel⟩

end Library

end Executor

end NobugDb
