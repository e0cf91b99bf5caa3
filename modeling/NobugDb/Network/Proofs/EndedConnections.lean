import NobugDb.Core.Proofs.DispatcherSteps
import NobugDb.Network.Serving

/-!
# What is left of a connection

When a connection ends nothing is done to its session, and no later event does anything for it. A
transaction that is open then stays open: it is rolled back just when a ROLLBACK was sent before.
-/

namespace NobugDb

open Connection (handlerOf)
open Misc (run run_inv)
open TransactionManager
open Function (update_of_ne update_self)

/-! ## Ids of transactions -/

namespace Database

variable {store : Storage} {fns : Functions} {s t : Nat} {db db' : Database} {op : Op}
  {resp : Response}

/-- Each session in a transaction has an id of its own that was given out, and the registered
    snapshots are those of transactions in progress. -/
structure Issued (db : Database) : Prop where
  pos : 0 < db.transactionManager.nextXid
  nonzero : ∀ s, (db.sessions s).inTransaction = true → (db.sessions s).transactionId ≠ 0
  given : ∀ s, (db.sessions s).inTransaction = true →
    (db.sessions s).transactionId < db.transactionManager.nextXid
  distinct : ∀ s t, s ≠ t → (db.sessions s).inTransaction = true →
    (db.sessions t).inTransaction = true →
    (db.sessions s).transactionId ≠ (db.sessions t).transactionId
  registered : ∀ entry ∈ db.transactionManager.activeSnapshots,
    db.transactionManager.statuses entry.1 = some .inProgress

namespace Issued

theorem perform (issued : db.Issued) (eff : ManagerEffect s db db') : db'.Issued := by
  have numbered : db.Numbered := { issued with }
  obtain ⟨pos, nonzero, given, nodup⟩ := numbered.perform eff
  refine ⟨pos, nonzero, given, nodup, ?_⟩
  cases eff with
  | keeps mgr => exact mgr ▸ issued.registered
  | begins _ mgr =>
    rw [mgr]
    intro entry mem
    simp only [registerSnapshot, beginTransaction, setStatus, eraseSnapshot] at mem ⊢
    obtain rfl | mem := List.mem_cons.mp mem
    · exact update_self ..
    · obtain ⟨mem, older⟩ := List.mem_filter.mp mem
      rw [update_of_ne (by simpa using older)]
      exact issued.registered entry mem
  | ends _ mgr =>
    rw [mgr]
    intro entry mem
    simp only [endTransaction, setStatus, eraseSnapshot] at mem ⊢
    obtain ⟨mem, ne⟩ := List.mem_filter.mp mem
    rw [update_of_ne (by simpa using ne)]
    exact issued.registered entry mem

end Issued

/-- The session is in a transaction that was rolled back: `execute_rollback` has set the status and
    did not come to the end. -/
structure RolledBack (s : Nat) (db : Database) : Prop where
  inTransaction : (db.sessions s).inTransaction = true
  status : db.transactionManager.statuses (db.sessions s).transactionId = some .aborted

theorem RolledBack.perform (rolled : db.RolledBack s) (issued : db.Issued) (apart : s ≠ t)
    (eff : ManagerEffect t db db') :
    db'.RolledBack s ∧ (db'.sessions s).transactionId = (db.sessions s).transactionId := by
  have inside := rolled.inTransaction
  cases eff with
  | keeps mgr inTx ids =>
    have same := ids s (issued.nonzero s inside)
    refine ⟨⟨(inTx s).trans inside, ?_⟩, same⟩
    rw [mgr, same]
    exact rolled.status
  | begins _ mgr sess =>
    have same : db'.sessions s = db.sessions s := by rw [sess, update_of_ne apart]
    refine ⟨⟨same ▸ inside, ?_⟩, by rw [same]⟩
    rw [same, mgr]
    exact (update_of_ne (issued.given s inside).ne _ _).trans rolled.status
  | ends insideT mgr sess =>
    have same : db'.sessions s = db.sessions s := by
      obtain same | ended := sess
      · rw [same]
      · rw [ended, update_of_ne apart]
    refine ⟨⟨same ▸ inside, ?_⟩, by rw [same]⟩
    rw [same, mgr]
    exact (update_of_ne (issued.distinct s t apart inside insideT) _ _).trans rolled.status

end Database

/-! ## Events -/

namespace Dispatcher

variable {d : Dispatcher} {s : Nat} {e : Event}

theorem step_issued (issued : d.db.Issued) : (d.step e).db.Issued := by
  exact step_keeps (fun db db' eq issued => issued.perform (eq.effect 0))
    (fun s store _ _ acc _ fns db' resp ran issued =>
      issued.perform (Database.performOn_managerEffect ran)) issued

theorem step_calls_none (idle : d.calls s = none) (notCalled : ∀ fns command, e ≠ .call fns s command) :
    (d.step e).calls s = none := by
  cases e with
  | call fns t command =>
    have apart : s ≠ t := fun isT => notCalled fns command (isT ▸ rfl)
    simp only [step]
    split
    · exact idle
    · exact (update_of_ne apart _ _).trans idle
  | vacuumWorker =>
    simp only [step]
    split <;> exact idle
  | resume t store =>
    simp only [step]
    split
    · exact idle
    · next fns rest called =>
      have apart : s ≠ t := fun isT => by
        rw [← isT, idle] at called
        cases called
      exact (resume_calls_of_ne apart).trans idle

end Dispatcher

namespace Serving

variable {sv : Serving} {s : Nat} {e : Event}

/-- An event does nothing, ends a connection that has no call, or is an event of the dispatcher. A
    statement comes on an active connection only. -/
inductive Served (sv : Serving) : Serving → Prop
  | nothing : Served sv sv
  | closes {s : Nat} : sv.dispatcher.calls s = none → Served sv (sv.close s)
  | dispatches {event : Dispatcher.Event} :
      (∀ fns s command, event = .call fns s command → sv.active s = true) →
      Served sv { sv with dispatcher := sv.dispatcher.step event }

theorem served (sv : Serving) (e : Event) : Served sv (sv.step e) := by
  cases e with
  | resume s store | vacuumWorker => exact .dispatches nofun
  | receive s message sends work =>
    simp only [step]
    split
    · next listening =>
      obtain ⟨active, idle⟩ := Bool.and_eq_true_iff.mp listening
      have closes : Served sv (sv.close s) := .closes (Option.isNone_iff_eq_none.mp idle)
      split
      · exact closes
      · split
        · next req _ =>
          cases handlerOf req with
          | query | rpcQuery =>
            cases work with
            | none => exact .nothing
            | some work =>
              refine .dispatches ?_
              rintro _ _ _ ⟨⟩
              exact active
          | quit =>
            simp only [handle]
            split
            · exact closes
            · exact .nothing
          | _ => exact .nothing
        · exact .nothing
    · exact .nothing

theorem step_dispatcher (sv : Serving) (e : Event) :
    (sv.step e).dispatcher = sv.dispatcher ∨
      ∃ event, (sv.step e).dispatcher = sv.dispatcher.step event ∧
        ∀ fns s command, event = .call fns s command → sv.active s = true := by
  have served := sv.served e
  generalize sv.step e = next at served ⊢
  cases served with
  | nothing | closes _ => exact .inl rfl
  | dispatches active => exact .inr ⟨_, rfl, active⟩

theorem step_issued (issued : sv.db.Issued) : (sv.step e).db.Issued := by
  unfold db
  obtain eq | ⟨event, steps, -⟩ := sv.step_dispatcher e
  · rw [eq]
    exact issued
  · rw [steps]
    exact Dispatcher.step_issued issued

/-- The event ends the connection. -/
def Ends (sv : Serving) (s : Nat) (e : Event) : Prop :=
  sv.active s = true ∧ (sv.step e).active s = false

theorem Ends.quiet (ends : sv.Ends s e) :
    (sv.step e).dispatcher = sv.dispatcher ∧ sv.dispatcher.calls s = none := by
  obtain ⟨active, ended⟩ := ends
  have served := sv.served e
  generalize sv.step e = next at served ended ⊢
  cases served with
  | nothing | dispatches _ =>
    rw [show sv.active s = false from ended] at active
    cases active
  | @closes t idle =>
    by_cases isT : s = t
    · exact ⟨rfl, isT ▸ idle⟩
    · have still : (sv.close t).active s = true := (update_of_ne isT _ _).trans active
      rw [still] at ended
      cases ended

theorem step_inactive (ended : sv.active s = false) : (sv.step e).active s = false := by
  have served := sv.served e
  generalize sv.step e = next at served ⊢
  cases served with
  | nothing | dispatches _ => exact ended
  | @closes t _ =>
    by_cases isT : s = t
    · rw [isT]
      exact update_self ..
    · exact (update_of_ne isT _ _).trans ended

/-- The session of a connection that has ended, in a transaction with this id that was rolled
    back. -/
structure Left (s i : Nat) (sv : Serving) : Prop where
  inactive : sv.active s = false
  idle : sv.dispatcher.calls s = none
  issued : sv.db.Issued
  rolledBack : sv.db.RolledBack s
  id : (sv.db.sessions s).transactionId = i

theorem Left.step {i : Nat} (left : Left s i sv) (e : Event) : Left s i (sv.step e) := by
  have inactive : (sv.step e).active s = false := step_inactive left.inactive
  obtain eq | ⟨event, steps, calls⟩ := sv.step_dispatcher e
  · have kept : (sv.step e).db = sv.db := congrArg Dispatcher.db eq
    exact ⟨inactive, eq ▸ left.idle, kept ▸ left.issued, kept ▸ left.rolledBack, kept ▸ left.id⟩
  · have reached : (sv.step e).db = (sv.dispatcher.step event).db := congrArg Dispatcher.db steps
    have notCalled (fns : Functions) (command : Command) : event ≠ .call fns s command := by
      intro called
      have active := calls fns s command called
      rw [left.inactive] at active
      cases active
    have stays {t : Nat} {db db' : Database} (apart : s ≠ t) (eff : Database.ManagerEffect t db db') :
        (db.Issued ∧ db.RolledBack s ∧ (db.sessions s).transactionId = i) →
          db'.Issued ∧ db'.RolledBack s ∧ (db'.sessions s).transactionId = i := by
      rintro ⟨issued, rolledBack, id⟩
      obtain ⟨still, sameId⟩ := rolledBack.perform issued apart eff
      exact ⟨issued.perform eff, still, sameId.trans id⟩
    -- the operations of an event are those of a session with a call
    have kept := @Dispatcher.step_keeps sv.dispatcher
      (fun db => db.Issued ∧ db.RolledBack s ∧ (db.sessions s).transactionId = i) event
      (fun db db' eq => stays (Nat.lt_succ_self s).ne (eq.effect _))
      (fun t store _ busy acc _ fns db' resp ran =>
        stays (fun isT : s = t => busy (isT ▸ left.idle)) (Database.performOn_managerEffect ran))
      ⟨left.issued, left.rolledBack, left.id⟩
    refine ⟨inactive, ?_, reached ▸ kept.1, reached ▸ kept.2.1, reached ▸ kept.2.2⟩
    rw [steps]
    exact Dispatcher.step_calls_none left.idle notCalled

end Serving

/-! ## The open transaction of a connection that ends -/

/-- The keys under which the id has a granted lock. -/
def LockManager.heldKeys (lm : LockManager) (i : Nat) : List String :=
  (lm.tables.filter (fun e => e.2.any (fun req => req.granted && req.txnId = i))).map Prod.fst

/-- The transaction a session had open when its connection ended has been rolled back: its status
    says so, its snapshot is not registered, and of the locks it held none is held under its id. -/
def Database.Settled (s : Nat) (atEnd now : Database) : Prop :=
  (atEnd.sessions s).inTransaction = true →
    now.transactionManager.statuses (atEnd.sessions s).transactionId = some .aborted ∧
    (∀ entry ∈ now.transactionManager.activeSnapshots,
      entry.1 ≠ (atEnd.sessions s).transactionId) ∧
    ∀ key ∈ atEnd.lockManager.heldKeys (atEnd.sessions s).transactionId,
      key ∉ now.lockManager.heldKeys (atEnd.sessions s).transactionId

namespace Serving

variable {sv : Serving} {s : Nat} {e : Event}

theorem Left.settled {i : Nat} {now : Serving} (left : Left s i now)
    (id : (sv.db.sessions s).transactionId = i) (free : sv.db.lockManager.heldKeys i = []) :
    Database.Settled s sv.db now.db := by
  intro _
  subst id
  have status := left.rolledBack.status
  rw [left.id] at status
  refine ⟨status, fun entry mem isId => ?_, fun key held => ?_⟩
  · have progress := left.issued.registered entry mem
    rw [isId, status] at progress
    cases progress
  · rw [free] at held
    cases held

/-- From the end of a connection on its transaction is rolled back just when there is none, or when
    `execute_rollback` has set the status of one without locks and then failed. -/
theorem ended_transaction_settled_iff (outside : ∀ s, (sv.db.sessions s).inTransaction = false)
    (fresh : sv.db.transactionManager = {}) (before : List Event)
    (ends : (run step sv before).Ends s e) :
    (∀ later, Database.Settled s (run step sv before).db
        (run step ((run step sv before).step e) later).db) ↔
      ((run step sv before).db.sessions s).inTransaction = false ∨
      (run step sv before).db.RolledBack s ∧
        (run step sv before).db.lockManager.heldKeys
          ((run step sv before).db.sessions s).transactionId = [] := by
  have start : sv.db.Issued := by
    refine ⟨by rw [fresh]; decide, ?_, ?_, ?_, by rw [fresh]; exact nofun⟩
    all_goals
      intro s
      simp [outside]
  have issued : (run step sv before).db.Issued :=
    @run_inv _ _ step (fun sv => sv.db.Issued) (fun _ _ => step_issued) sv start before
  generalize run step sv before = atEnd at ends issued ⊢
  obtain ⟨same, idle⟩ := ends.quiet
  have kept : (atEnd.step e).db = atEnd.db := congrArg Dispatcher.db same
  constructor
  · intro settled
    have now := settled []
    rw [Misc.run_nil, kept] at now
    cases inTx : (atEnd.db.sessions s).inTransaction with
    | false => exact .inl rfl
    | true =>
      obtain ⟨status, -, free⟩ := now inTx
      refine .inr ⟨⟨inTx, status⟩, List.eq_nil_iff_forall_not_mem.mpr (fun key held => ?_)⟩
      exact free key held held
  · rintro (outside | ⟨rolledBack, free⟩) later
    · intro inTx
      rw [outside] at inTx
      cases inTx
    · have left : Left s (atEnd.db.sessions s).transactionId (atEnd.step e) :=
        ⟨ends.2, same ▸ idle, kept ▸ issued, kept ▸ rolledBack, by rw [kept]⟩
      exact (run_inv (fun _ e left => left.step e) left later).settled rfl free

open Engine (account plainEnv setBalance)

/-- A request with a statement, and `turns` steps of its call. -/
def query (s : Nat) (text : String) (statement : Statement) (turns : Nat) : List Event :=
  .receive s ("QUERY|" ++ text ++ "\n").toList true
      (some (plainEnv.functions, .ofStatement plainEnv statement)) ::
    List.replicate turns (.resume s Database.reliable)

def updating : List Event :=
  query 0 "BEGIN" .begin 3 ++
    query 0 "UPDATE account SET balance = 20 WHERE id = 1" (setBalance 20) 8

def started : Serving where
  dispatcher := { db := { tables := [("account", account)] } }

/-- A client that sends ROLLBACK before QUIT. -/
theorem rolled_back_before_quit :
    (run step started (updating ++ query 0 "ROLLBACK" .rollback 3)).Ends 0
      (.receive 0 "QUIT|\n".toList true none) ∧
    ∀ later, Database.Settled 0
      (run step started (updating ++ query 0 "ROLLBACK" .rollback 3)).db
      (run step ((run step started (updating ++ query 0 "ROLLBACK" .rollback 3)).step
        (.receive 0 "QUIT|\n".toList true none)) later).db := by
  have ends : (run step started (updating ++ query 0 "ROLLBACK" .rollback 3)).Ends 0
      (.receive 0 "QUIT|\n".toList true none) := by
    unfold Ends
    decide +kernel
  refine ⟨ends, (ended_transaction_settled_iff (fun _ => rfl) rfl _ ends).mpr (.inl ?_)⟩
  decide +kernel

/-- A client that disconnects in its transaction. The transaction stays in progress with its
    snapshot and its lock, and the UPDATE of another client's transaction waits. -/
theorem open_transaction_left :
    let sv := run step started updating
    let now := run step (sv.step (.receive 0 [] true none))
      (query 1 "BEGIN" .begin 3 ++
        query 1 "UPDATE account SET balance = 30 WHERE id = 1" (setBalance 30) 20)
    sv.Ends 0 (.receive 0 [] true none) ∧ ¬ Database.Settled 0 sv.db now.db ∧
      now.db.transactionManager.statuses 1 = some .inProgress ∧
      1 ∈ now.db.transactionManager.activeSnapshots.map Prod.fst ∧
      now.db.lockManager.heldKeys 1 = ["account:#0"] ∧ (now.dispatcher.calls 1).isSome = true := by
  refine ⟨by unfold Ends; decide +kernel, fun settled => ?_, by decide +kernel, by decide +kernel,
    by decide +kernel, by decide +kernel⟩
  have aborted := (settled (by decide +kernel)).1
  revert aborted
  decide +kernel

end Serving

end NobugDb
