import NobugDb.Core.Proofs.LockReleases
import NobugDb.Core.Proofs.RowPositions

/-!
# Rows under row locks

A row lock names a position of a table. The rows of a table are renumbered when a row before them is
taken out, by whichever session, and the lock then is on another row. Each lock is followed here from
where it is granted to where it is given back, together with the row it was granted on. The row stays
at its position exactly when meanwhile nothing at or before the position is taken out.
-/

namespace NobugDb

open Misc (AssocMap Meets compactAll run)

/-- What changes the rows of tables in the course of a run. -/
inductive Change where
  | access (s : Nat) (storage : Storage) (db : Database) (op : Op)
  /-- A statement that changes which tables there are; it leaves these. -/
  | alter (after : AssocMap String Table)
  /-- A turn of the vacuum worker. -/
  | vacuum (db : Database)

/-- A row lock that a session was granted: the position it names, and where the row that was there is
    now. -/
structure RowLock where
  session : Nat
  table : String
  position : Nat
  now : Option Nat
  deriving DecidableEq

namespace Database

/-- The operation gives the locks of its session back. -/
def letsGo (storage : Storage) (s : Nat) (db : Database) : Op → Bool
  | .release => true
  | .commit => (db.sessions s).inTransaction &&
      !((db.executeCommitOn storage s).1.sessions s).inTransaction
  | .rollback => (db.sessions s).inTransaction && !((db.executeRollback s).1.sessions s).inTransaction
  | _ => false

/-- The rows a lock key names, each where it is. -/
def rowsOfKey (db : Database) (s : Nat) (key : String) : List RowLock :=
  db.tables.flatMap (fun e =>
    ((List.range e.2.rowCount).filter (fun i => LockManager.makeRowLockKey e.1 i = key)).map
      (fun i => ⟨s, e.1, i, some i⟩))

end Database

/-- The row the operation takes out by `delete_row`. -/
def Op.takesOut : Op → Option (String × Nat)
  | .delete table i false | .deleteInPlace table i => some (table, i)
  | _ => none

namespace Change

/-- The rows taken out of a table, pass by pass. A statement that changes which tables there are takes
    out those of a table that is gone. -/
def removals (name : String) : Change → List (Nat → Bool)
  | .access s _ db op => db.removals s op name
  | .alter after => [fun p => (after.lookup name).all (fun t => decide (t.rowCount ≤ p))]
  | .vacuum db => [db.vacuumRemoves name]

/-- The lock is given back, or its session itself deletes the row. -/
def ends (lock : RowLock) : Change → Bool
  | .access s storage db op =>
    lock.session = s &&
      (db.letsGo storage s op || op.takesOut.any (fun row => row.1 = lock.table && lock.now = some row.2))
  | _ => false

def grants : Change → List RowLock
  | .access s _ db op =>
    match op with
    | .request key _ | .attempt key _ =>
      if (db.grants s op).isSome then db.rowsOfKey s key else []
    | _ => []
  | _ => []

/-- The storage of the change leaves rows as they are. -/
def Steady : Change → Prop
  | .access _ storage _ _ => Database.KeepsRows storage
  | _ => True

/-- The row at the position has the values it had, unless the operation writes to it. -/
def SameValues (name : String) (p : Nat) : Change → Prop
  | .access s storage db op => ∀ fns db' response, db.performOn storage fns s op = some (db', response) →
      (db.valuesAt name p).isSome = true → (op.target db = some name → op.position ≠ some p) →
        db'.valuesAt name p = db.valuesAt name p
  | .alter _ => True
  | .vacuum db => db.vacuumAllTables.1.valuesAt name p = db.valuesAt name p

end Change

namespace RowLock

/-- Where the row is after a change. -/
def follow (lock : RowLock) (c : Change) : RowLock :=
  { lock with now := lock.now.bind (compactAll (c.removals lock.table)) }

def followAll (locks : List RowLock) (c : Change) : List RowLock :=
  (locks.filter (fun lock => !c.ends lock)).map (·.follow c) ++ c.grants

/-- Each lock is on the row it was granted on. -/
def InPlace (locks : List RowLock) : Prop := ∀ lock ∈ locks, lock.now = some lock.position

/-- Through the change the position of each lock goes on denoting the row the lock was granted on. -/
def Kept (locks : List RowLock) (c : Change) : Prop :=
  InPlace (followAll locks c) ∧
    ∀ lock ∈ locks, c.ends lock = false → c.SameValues lock.table lock.position

/-- The change takes out no row at or before the position of a lock that it does not end. -/
def Undisturbed (locks : List RowLock) (c : Change) : Prop :=
  ∀ lock ∈ locks, c.ends lock = false →
    ∀ removed ∈ c.removals lock.table, ∀ p ≤ lock.position, removed p = false

variable {locks : List RowLock} {lock : RowLock} {c : Change} {name : String} {p : Nat}

/-- A position before which nothing is taken out keeps its row. -/
theorem sameValues_of_stays (steady : c.Steady) (stays : compactAll (c.removals name) p = some p) :
    c.SameValues name p := by
  cases c with
  | access s storage db op =>
    intro fns db' resp ran inside unwritten
    exact Database.performOn_valuesAt steady ran inside stays unwritten
  | alter after => trivial
  | vacuum db =>
    obtain ⟨q, first, rest⟩ := Option.bind_eq_some_iff.mp stays
    obtain rfl : q = p := by simpa using rest
    exact Database.vacuumAll_valuesAt first

/-- A lock is granted on the row that is at its position. -/
theorem grants_inPlace (c : Change) : InPlace c.grants := by
  have named (db : Database) (s : Nat) (key : String) : InPlace (db.rowsOfKey s key) := by
    intro lock mem
    obtain ⟨e, -, inTable⟩ := List.mem_flatMap.mp mem
    obtain ⟨i, -, rfl⟩ := List.mem_map.mp inTable
    rfl
  intro lock mem
  cases c with
  | access s storage db op =>
    cases op with
    | request key mode | attempt key mode =>
      simp only [Change.grants] at mem
      split at mem
      · exact named db s key lock mem
      · cases mem
    | _ => cases mem
  | alter after => cases mem
  | vacuum db => cases mem

/-- A lock that was in place stays so when nothing at or before its position is taken out. -/
theorem follow_now_iff (inPlace : lock.now = some lock.position) :
    (lock.follow c).now = some (lock.follow c).position ↔
      ∀ removed ∈ c.removals lock.table, ∀ p ≤ lock.position, removed p = false := by
  rw [← Misc.compactAll_eq_self_iff]
  show lock.now.bind _ = some lock.position ↔ _
  rw [inPlace]
  rfl

theorem kept_iff (steady : c.Steady) (inPlace : InPlace locks) : Kept locks c ↔ Undisturbed locks c := by
  constructor
  · rintro ⟨after, -⟩ lock mem stays
    refine (follow_now_iff (inPlace lock mem)).mp (after _ ?_)
    refine List.mem_append_left _ (List.mem_map_of_mem (List.mem_filter.mpr ⟨mem, ?_⟩))
    rw [stays]
    rfl
  · intro undisturbed
    constructor
    · intro followed mem
      obtain old | granted := List.mem_append.mp mem
      · obtain ⟨lock, kept, rfl⟩ := List.mem_map.mp old
        obtain ⟨mem, stays⟩ := List.mem_filter.mp kept
        exact (follow_now_iff (inPlace lock mem)).mpr (undisturbed lock mem (by simpa using stays))
      · exact grants_inPlace c followed granted
    · intro lock mem stays
      exact sameValues_of_stays steady
        (Misc.compactAll_eq_self_iff.mpr (undisturbed lock mem stays))

end RowLock

namespace Dispatcher

def changes (d : Dispatcher) : Event → List Change
  | .call _ _ _ => []
  | .resume s storage =>
    match d.calls s with
    | some (_, .alter execute _) => if d.blocked s then [] else [.alter (execute d.db.tables).1]
    | _ => (d.performed s storage).map (fun access => .access s storage access.1 access.2)
  | .vacuumWorker => if d.mutex.isSome then [] else [.vacuum d.db]

def history (d : Dispatcher) : List Event → List Change
  | [] => []
  | e :: events => d.changes e ++ (d.step e).history events

/-- The storage of the event leaves rows as they are. -/
def Event.Steady : Event → Prop
  | .resume _ storage => Database.KeepsRows storage
  | _ => True

variable {d : Dispatcher} {events : List Event}

theorem steady_changes {e : Event} (steady : e.Steady) : ∀ c ∈ d.changes e, c.Steady := by
  intro c mem
  cases e with
  | call fns s command => cases mem
  | resume s store =>
    simp only [changes] at mem
    split at mem
    · split at mem
      · cases mem
      · rw [List.mem_singleton.mp mem]
        trivial
    · obtain ⟨acc, -, rfl⟩ := List.mem_map.mp mem
      exact steady
  | vacuumWorker =>
    simp only [changes] at mem
    split at mem
    · cases mem
    · rw [List.mem_singleton.mp mem]
      trivial

theorem steady_history (steady : ∀ e ∈ events, e.Steady) : ∀ c ∈ d.history events, c.Steady := by
  induction events generalizing d with
  | nil => nofun
  | cons e events ih =>
    intro c mem
    obtain fst | later := List.mem_append.mp mem
    · exact steady_changes (steady e (by simp)) c fst
    · exact ih (fun e mem => steady e (by simp [mem])) c later

/-- In a run of calls the position of every row lock denotes the row the lock was granted on, until it
    is given back, if and only if no operation takes out a row at or before the position meanwhile. -/
theorem locked_position_denotes_row_iff (d : Dispatcher) (events : List Event)
    (steady : ∀ e ∈ events, e.Steady) :
    Meets RowLock.followAll RowLock.Kept [] (d.history events) ↔
      Meets RowLock.followAll RowLock.Undisturbed [] (d.history events) := by
  have steady := @steady_history d events steady
  refine @Meets.iff_of_inv _ _ _ _ _ RowLock.InPlace _ (fun locks c _ _ kept => kept.1)
    (fun locks c member inPlace => RowLock.kept_iff (steady c member) inPlace) _ ?_
  nofun

/-! ## A row that moves under its lock -/

open Engine (account setBalance)

/-- A table with the rows `(1, 10)` and `(2, 20)`. -/
def accounts : Table :=
  { account with directory := [some ⟨[.int 1, .int 10], 0, 0⟩, some ⟨[.int 2, .int 20], 0, 0⟩] }

def hasId (n : Int) : Expr Empty := .binary .eq (.columnRef "" "id") (.literal (.int n))

/-- `UPDATE account SET balance = 30 WHERE id = 2`. -/
def setSecond : Statement :=
  .update ⟨"account", [("balance", .literal (.int 30))], some (hasId 2)⟩

def lockSecond : List Event := query 0 .begin 3 ++ query 0 setSecond 8

theorem steady_query {s : Nat} {stmt : Statement} {turns : Nat} :
    ∀ e ∈ query s stmt turns, e.Steady := by
  intro e mem
  obtain rfl | mem := List.mem_cons.mp mem
  · trivial
  · rw [List.eq_of_mem_replicate mem]
    exact Database.keepsRows_reliable

instance (locks : List RowLock) (c : Change) : Decidable (RowLock.Undisturbed locks c) :=
  inferInstanceAs (Decidable (∀ lock ∈ locks, c.ends lock = false →
    ∀ removed ∈ c.removals lock.table, ∀ p ≤ lock.position, removed p = false))

instance (locks : List RowLock) : Decidable (RowLock.InPlace locks) :=
  inferInstanceAs (Decidable (∀ lock ∈ locks, lock.now = some lock.position))

/-- Another session updates the first row in place before the COMMIT. -/
theorem update_keeps_locked_row :
    Meets RowLock.followAll RowLock.Kept []
      (history { db := { tables := [("account", accounts)] } }
        (lockSecond ++ query 1 (setBalance 15) 8 ++ query 0 .commit 3)) := by
  refine (locked_position_denotes_row_iff _ _ (fun e member => ?_)).mpr (by decide +kernel)
  simp only [lockSecond, List.mem_append] at member
  obtain ((first | second) | third) | fourth := member
  all_goals exact steady_query e ‹_›

/-- DELETE of the first row in session 1, outside a transaction. -/
def deleteFirst : List Event := query 1 (.delete ⟨"account", some (hasId 1)⟩) 8

/-- Another session deletes the first row. The second one, under the lock `account:#1`, is at position
    0 then, and the other session is granted `account:#0` for an update of it: both hold a lock on the
    same row. -/
theorem delete_moves_locked_row :
    ¬ Meets RowLock.followAll RowLock.Kept []
      (history { db := { tables := [("account", accounts)] } } (lockSecond ++ deleteFirst)) ∧
    run RowLock.followAll [] (history { db := { tables := [("account", accounts)] } }
        (lockSecond ++ deleteFirst ++ query 1 setSecond 4)) =
      [⟨0, "account", 1, some 0⟩, ⟨1, "account", 0, some 0⟩] := by
  refine ⟨fun kept => ?_, by decide +kernel⟩
  have inPlace : Meets RowLock.followAll (fun locks c => RowLock.InPlace (RowLock.followAll locks c)) []
      (history { db := { tables := [("account", accounts)] } } (lockSecond ++ deleteFirst)) :=
    @Meets.of_inv _ _ _ RowLock.Kept _ (fun _ => True) (fun _ _ _ _ => trivial)
      (fun _ _ _ kept => kept.1) _ _ kept trivial
  revert inPlace
  decide +kernel

end Dispatcher

end NobugDb
