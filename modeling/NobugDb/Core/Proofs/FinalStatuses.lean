import NobugDb.Core.Proofs.DispatcherSteps

/-!
# How transactions end

COMMIT and ROLLBACK set the status of the transaction first and end the session's transaction last.
When a step in between fails the session stays in a transaction whose status says that it has ended,
and the next COMMIT or ROLLBACK sets the other status. When none fails, a status that says how a
transaction ended never changes.
-/

namespace NobugDb

open Misc (Meets Program run)
open Function (update_of_ne update_self)

namespace Database

variable {storage : Storage} {fns : Functions} {s t : Nat} {db db' : Database} {op : Op}
  {resp : Response}

/-! ## COMMIT and ROLLBACK that go through -/

/-- No table raises an exception when the session's transaction ends. -/
def Sweeps (s : Nat) (db : Database) : Op → Prop
  | .commit =>
    let xid := (db.sessions s).transactionId
    let tm := db.transactionManager.commitTransaction xid
    (∀ e ∈ db.tables, (e.2.vacuumVersions tm).2 = .ok ()) ∧
    (tm.canFreezeCommitted xid = true → ∀ e ∈ db.tables,
      ((e.2.vacuumVersions tm).1.freezeCommittedVersions xid).2 = .ok ())
  | .rollback => ∀ e ∈ db.tables, (e.2.vacuumVersions
      (db.transactionManager.abortTransaction (db.sessions s).transactionId)).2 = .ok ()
  | _ => True

/-- When the operation ends a transaction no table raises an exception, and COMMIT can write the
    tables. -/
def EndsWell (storage : Storage) (s : Nat) (db : Database) (op : Op) : Prop :=
  (db.sessions s).inTransaction = true →
    db.Sweeps s op ∧ (op = .commit → ∀ tables disk, (storage tables disk).2 = .ok ())

theorem andThen_ok {fst : Database × Except Exn Unit}
    {next : Database → Database × Except Exn QueryResult} (ok : fst.2 = .ok ()) :
    andThen fst next = next fst.1 := by
  obtain ⟨db, out⟩ := fst
  subst ok
  rfl

theorem freezeAll_outcome {xid : Nat} (freezes : db.transactionManager.canFreezeCommitted xid = true →
    ∀ e ∈ db.tables, (e.2.freezeCommittedVersions xid).2 = .ok ()) :
    (db.freezeAllTables xid).2 = .ok () := by
  unfold freezeAllTables
  split
  next frees => rw [onTables_ok (freezes frees)]
  next => rfl

theorem persist_outcome (writes : ∀ tables disk, (storage tables disk).2 = .ok ())
    (result : QueryResult) (inTx : Bool) :
    (db.persistDirtyTables storage result inTx).2 = .ok result := by
  unfold persistDirtyTables
  split
  · rfl
  · have written := writes db.tables db.disk
    generalize storage db.tables db.disk = run at written ⊢
    obtain ⟨⟨tables, disk⟩, out⟩ := run
    subst written
    rfl

theorem commitOn_ends (well : EndsWell storage s db .commit)
    (inTx : (db.sessions s).inTransaction = true) :
    ((db.executeCommitOn storage s).1.sessions s).inTransaction = false := by
  obtain ⟨⟨vacuums, freezes⟩, writes⟩ := well inTx
  unfold executeCommitOn
  simp only [inTx, Bool.not_true, Bool.false_eq_true, if_false]
  -- the three steps between the status and the end of the session's transaction
  set db₁ : Database := { db with transactionManager :=
    db.transactionManager.commitTransaction (db.sessions s).transactionId } with started
  have vacuumed := @vacuumAll_of_ok db₁ vacuums
  rw [andThen_ok (by rw [vacuumed])]
  set db₂ := db₁.vacuumAllTables.1 with swept
  have frozen : (db₂.freezeAllTables (db.sessions s).transactionId).2 = .ok () := by
    refine freezeAll_outcome (fun frees e mem => ?_)
    rw [swept, vacuumed] at mem
    obtain ⟨old, inTables, rfl⟩ := List.mem_map.mp mem
    exact freezes frees old inTables
  rw [andThen_ok frozen]
  set db₃ := (db₂.freezeAllTables (db.sessions s).transactionId).1 with froze
  have persisted := @persist_outcome storage db₃ (writes rfl) (.successResult "COMMIT OK") false
  generalize db₃.persistDirtyTables storage (.successResult "COMMIT OK") false = result at *
  obtain ⟨db₄, out⟩ := result
  obtain rfl : out = .ok (.successResult "COMMIT OK") := persisted
  show ((db₄.endSession s).sessions s).inTransaction = false
  rw [endSession_sessions, update_self]

theorem rollback_ends (well : EndsWell storage s db .rollback)
    (inTx : (db.sessions s).inTransaction = true) :
    ((db.executeRollback s).1.sessions s).inTransaction = false := by
  have vacuumed := @vacuumAll_of_ok { db with
      transactionManager := db.transactionManager.abortTransaction (db.sessions s).transactionId }
    (well inTx).1
  unfold executeRollback
  simp only [inTx, Bool.not_true, Bool.false_eq_true, if_false]
  rw [andThen_ok (by rw [vacuumed]), endSession_sessions, update_self]

/-- An operation that leaves the session in its transaction leaves all transactions, unless a COMMIT
    or ROLLBACK fails on the way. -/
theorem EndsWell.leaves (well : EndsWell storage s db op)
    (ran : db.performOn storage fns s op = some (db', resp))
    (inTx : (db.sessions s).inTransaction = true) (still : (db'.sessions s).inTransaction = true) :
    db'.transactionManager = db.transactionManager := by
  cases op with
  | commit =>
    obtain rfl := respondWith_fst_eq (Option.some.inj ran)
    rw [commitOn_ends well inTx] at still
    cases still
  | rollback =>
    obtain rfl := respondWith_fst_eq (Option.some.inj ran)
    rw [rollback_ends well inTx] at still
    cases still
  | begin =>
    simp only [performOn, perform, executeBegin, inTx, if_true] at ran
    cases ran
    rfl
  | _ => exact performOn_tm rfl ran

/-! ## Transactions in progress -/

/-- What one operation leaves of the statuses: those of transactions that have ended. -/
def KeepsEnded (db db' : Database) : Prop :=
  ∀ i status, status ≠ .inProgress → db.transactionManager.statuses i = some status →
    db'.transactionManager.statuses i = some status

theorem KeepsEnded.refl (db : Database) : KeepsEnded db db := fun _ _ _ has => has

theorem KeepsEnded.trans {db'' : Database} (fst : KeepsEnded db db') (snd : KeepsEnded db' db'') :
    KeepsEnded db db'' :=
  fun i status ended has => snd i status ended (fst i status ended has)

/-- A transaction that has committed is not one that was rolled back, nor the other way round. -/
def Final (before after : Database) : Prop := ∀ i,
  (before.transactionManager.statuses i = some .committed →
    after.transactionManager.statuses i ≠ some .aborted) ∧
  (before.transactionManager.statuses i = some .aborted →
    after.transactionManager.statuses i ≠ some .committed)

theorem KeepsEnded.final (keeps : KeepsEnded db db') : Final db db' := by
  intro i
  constructor
  · intro committed
    simp [keeps i .committed nofun committed]
  · intro aborted
    simp [keeps i .aborted nofun aborted]

/-- Each session in a transaction has one of its own that is in progress, and ids that have not been
    given have no status. -/
structure InProgress (db : Database) : Prop where
  pos : 0 < db.transactionManager.nextXid
  unused : ∀ i, db.transactionManager.nextXid ≤ i → db.transactionManager.statuses i = none
  nonzero : ∀ s, (db.sessions s).inTransaction = true → (db.sessions s).transactionId ≠ 0
  status : ∀ s, (db.sessions s).inTransaction = true →
    db.transactionManager.statuses (db.sessions s).transactionId = some .inProgress
  distinct : ∀ s t, s ≠ t → (db.sessions s).inTransaction = true →
    (db.sessions t).inTransaction = true →
    (db.sessions s).transactionId ≠ (db.sessions t).transactionId

namespace InProgress

theorem numbered (progress : db.InProgress) : db.Numbered where
  pos := progress.pos
  nonzero := progress.nonzero
  given := by
    intro t inside
    by_contra large
    have none := progress.unused _ (not_lt.mp large)
    rw [progress.status t inside] at none
    cases none
  distinct := progress.distinct

theorem step (progress : db.InProgress) (eff : ManagerEffect s db db')
    (leaves : (db.sessions s).inTransaction = true → (db'.sessions s).inTransaction = true →
      db'.transactionManager = db.transactionManager) :
    db'.InProgress ∧ KeepsEnded db db' := by
  have session {t : Nat} := @Numbered.session s t db db' progress.numbered eff
  obtain ⟨pos, nonzero, -, nodup⟩ := progress.numbered.perform eff
  -- where the transactions are as before no session has got the next id
  have kept (mgr : db'.transactionManager = db.transactionManager) :
      db'.InProgress ∧ KeepsEnded db db' := by
    refine ⟨⟨pos, mgr ▸ progress.unused, nonzero, fun t isIn => ?_, nodup⟩,
      fun i status _ has => mgr ▸ has⟩
    obtain ⟨before, eq⟩ | ⟨-, -, more⟩ := session isIn
    · rw [eq, mgr]
      exact progress.status t before
    · rw [mgr] at more
      omega
  cases eff with
  | keeps mgr => exact kept mgr
  | begins _ mgr sess =>
    have older (i : Nat) (lt : i < db.transactionManager.nextXid) :
        db'.transactionManager.statuses i = db.transactionManager.statuses i := by
      rw [mgr]
      exact update_of_ne lt.ne _ _
    refine ⟨⟨pos, fun i large => ?_, nonzero, fun t isIn => ?_, nodup⟩, fun i status _ has => ?_⟩
    · rw [mgr] at large ⊢
      exact (update_of_ne (Nat.ne_of_gt large) _ _).trans
        (progress.unused i (Nat.le_of_succ_le large))
    · obtain ⟨before, eq⟩ | ⟨-, isNext, -⟩ := session isIn
      · rw [eq, older _ (progress.numbered.given t before)]
        exact progress.status t before
      · rw [isNext, mgr]
        exact update_self ..
    · refine (older i ?_).trans has
      by_contra large
      rw [progress.unused i (not_lt.mp large)] at has
      cases has
  | ends isIn mgr sess =>
    obtain eq | ended := sess
    · exact kept (leaves isIn (eq ▸ isIn))
    · have status (i : Nat) (other : i ≠ (db.sessions s).transactionId) :
          db'.transactionManager.statuses i = db.transactionManager.statuses i := by
        rw [mgr]
        exact update_of_ne other _ _
      refine ⟨⟨pos, fun i large => ?_, nonzero, fun t still => ?_, nodup⟩, fun i out final has => ?_⟩
      · rw [mgr] at large
        rw [status i ((progress.numbered.given s isIn).trans_le large).ne']
        exact progress.unused i large
      · have isT : t ≠ s := by
          intro isT
          rw [isT, ended, update_self] at still
          cases still
        rw [ended, update_of_ne isT] at still ⊢
        rw [status _ (progress.distinct t s isT still isIn)]
        exact progress.status t still
      · refine (status i ?_).trans has
        rintro rfl
        rw [progress.status s isIn] at has
        exact final (Option.some.inj has).symm

end InProgress

end Database

/-! ## Runs -/

namespace Dispatcher

variable {d : Dispatcher} {s : Nat}

def during (d : Dispatcher) : Event → List Database
  | .resume s storage => (d.performed s storage).map Prod.fst
  | _ => []

def databases (d : Dispatcher) (events : List Event) : List Database :=
  Misc.seen step Dispatcher.db during d events

/-- The event's COMMIT and ROLLBACK go through. -/
def EndsWell (d : Dispatcher) : Event → Prop
  | .resume s storage => ∀ access ∈ d.performed s storage, Database.EndsWell storage s access.1 access.2
  | _ => True

/-- What an event does to the databases seen in its course, in order. -/
def Ordered (d : Dispatcher) (e : Event) : Prop :=
  (d.step e).db.InProgress ∧ (d.during e ++ [(d.step e).db]).Pairwise Database.KeepsEnded ∧
    ∀ x ∈ d.during e ++ [(d.step e).db], d.db.KeepsEnded x

theorem ordered_of_quiet {e : Event} (progress : d.db.InProgress) (quiet : d.during e = [])
    (eq : d.db.SameControl (d.step e).db) : d.Ordered e := by
  obtain ⟨after, keeps⟩ := progress.step (eq.effect 0) (fun _ _ => eq.transactionManager)
  refine ⟨after, ?_, ?_⟩
  · rw [quiet]
    exact List.pairwise_singleton _ _
  · rw [quiet]
    intro x mem
    rw [List.mem_singleton.mp mem]
    exact keeps

/-- Each operation of an event keeps the invariant and the statuses of transactions that have
    ended. -/
theorem ordered_step (e : Event) (progress : d.db.InProgress) (well : d.EndsWell e) : d.Ordered e := by
  cases d.effect e with
  | quiet none eq =>
    refine ordered_of_quiet progress ?_ eq
    cases e with
    | resume s storage => exact congrArg (List.map Prod.fst) (none s storage rfl)
    | _ => rfl
  | @performs s storage fns α guarded body next called _ accesses reached =>
    have each : ∀ acc ∈ Program.performed (Database.performOn storage fns s) d.db body,
        ∀ db' resp, acc.1.performOn storage fns s acc.2 = some (db', resp) →
          acc.1.InProgress → db'.InProgress ∧ acc.1.KeepsEnded db' := by
      intro acc mem db' resp performs progress
      exact progress.step (Database.performOn_managerEffect performs)
        ((well acc (accesses ▸ mem)).leaves performs)
    obtain ⟨pairwise, later⟩ := Program.performed_pairwise Database.KeepsEnded.refl
      (fun _ _ _ => Database.KeepsEnded.trans) each progress
    have kept := Program.exec_inv (fun acc mem db' resp performs progress =>
        (each acc mem db' resp performs progress).1) progress
    unfold Ordered
    rw [reached, show d.during (.resume s storage) = _ from congrArg (List.map Prod.fst) accesses]
    exact ⟨kept, pairwise, later⟩

/-- When every COMMIT and ROLLBACK that ends a transaction goes through, a transaction that has
    committed is never rolled back and one that was rolled back never commits. -/
theorem ended_statuses_final {events : List Event} (idle : ∀ s, d.db.sessions s = {})
    (fresh : d.db.transactionManager = {}) (well : Meets step EndsWell d events) :
    (d.databases events).Pairwise Database.Final := by
  have progress : d.db.InProgress := by
    refine ⟨by rw [fresh]; decide, fun i _ => by rw [fresh], ?_, ?_, ?_⟩
    all_goals
      intro s
      simp [idle]
  have ordered := well.seen_pairwise Database.KeepsEnded.refl (fun _ _ _ => Database.KeepsEnded.trans)
    (fun d e progress well => (ordered_step e progress well).1)
    (fun d e progress well => (ordered_step e progress well).2.1)
    (fun d e progress well => (ordered_step e progress well).2.2) progress
  exact ordered.1.imp Database.KeepsEnded.final

/-! ## A COMMIT that cannot write its tables -/

/-- In the event no table raises an exception when a transaction ends. -/
def Sweeps (d : Dispatcher) : Event → Prop
  | .resume s storage => ∀ access ∈ d.performed s storage,
      (access.1.sessions s).inTransaction = true → access.1.Sweeps s access.2
  | _ => True

/-- The storage of the event does not fail. -/
def Event.Writes : Event → Prop
  | .resume _ storage => ∀ tables disk, (storage tables disk).2 = .ok ()
  | _ => True

theorem meets_endsWell {events : List Event} (sweeps : Meets step Sweeps d events)
    (writes : ∀ e ∈ events, e.Writes) : Meets step EndsWell d events := by
  refine @Meets.of_inv _ _ step _ _ (fun _ => True) (fun _ _ _ _ => trivial) ?_ _ _
    (sweeps.and_forall writes) trivial
  rintro d e - ⟨sweeps, writes⟩
  cases e with
  | resume s storage => exact fun acc mem inTx => ⟨sweeps acc mem inTx, fun _ => writes⟩
  | _ => trivial

instance (s : Nat) (db : Database) (op : Op) : Decidable (db.Sweeps s op) := by
  cases op with
  | commit => exact inferInstanceAs (Decidable ((∀ e ∈ db.tables, _) ∧ (_ → ∀ e ∈ db.tables, _)))
  | rollback => exact inferInstanceAs (Decidable (∀ e ∈ db.tables, _))
  | _ => exact .isTrue trivial

instance (d : Dispatcher) (e : Event) : Decidable (d.Sweeps e) := by
  cases e with
  | resume s storage => exact inferInstanceAs (Decidable (∀ access ∈ d.performed s storage, _ → _))
  | _ => exact .isTrue trivial

open Engine (account plainEnv setBalance)

theorem writes_query {stmt : Statement} {turns : Nat} {e : Event}
    (mem : e ∈ query s stmt turns) : e.Writes := by
  obtain rfl | mem := List.mem_cons.mp mem
  · trivial
  · rw [List.eq_of_mem_replicate mem]
    exact fun _ _ => rfl

/-- BEGIN, an UPDATE and COMMIT. -/
theorem commit_status_final :
    (databases { db := { tables := [("account", account)] } }
      (query 0 .begin 3 ++ query 0 (setBalance 20) 8 ++ query 0 .commit 3)).Pairwise Database.Final := by
  refine ended_statuses_final (fun _ => rfl) rfl (meets_endsWell (by decide +kernel) ?_)
  intro e member
  obtain (first | second) | third := (List.mem_append.mp member).imp_left List.mem_append.mp
  · exact writes_query first
  · exact writes_query second
  · exact writes_query third

/-- Storage on a full device: `append_table_blob` fails (`wal_manager.cc:39-41`). -/
def fullDisk : Storage := fun tables disk =>
  ((tables, disk), .error ⟨.storage, "Failed writing WAL: data/wal.log"⟩)

/-- BEGIN, an UPDATE, and a COMMIT on a full device. -/
def failingCommit : List Event :=
  query 0 .begin 3 ++ query 0 (setBalance 20) 8 ++
    .call plainEnv.functions 0 .commit :: List.replicate 3 (.resume 0 fullDisk)

/-- COMMIT sets the status, cannot write the table and leaves the session in the transaction; the
    ROLLBACK that follows sets the other status. -/
theorem failed_commit_rolled_back :
    ¬ (databases { db := { tables := [("account", account)] } }
      (failingCommit ++ query 0 .rollback 3)).Pairwise Database.Final ∧
    (run step { db := { tables := [("account", account)] } }
      failingCommit).db.transactionManager.statuses 1 = some .committed ∧
    (run step { db := { tables := [("account", account)] } }
      (failingCommit ++ query 0 .rollback 3)).db.transactionManager.statuses 1 = some .aborted := by
  refine ⟨fun final => ?_, by decide +kernel, by decide +kernel⟩
  have statuses := final.imp (fun h => h 1)
  revert statuses
  decide +kernel

end Dispatcher

end NobugDb
