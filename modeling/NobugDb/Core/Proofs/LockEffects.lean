import NobugDb.Core.Proofs.EngineSteps

/-!
# Operations, sessions and locks

What an operation does to the sessions and to the lock manager: most operations nothing, BEGIN and
the first lock of a session give it an id, COMMIT and ROLLBACK take it away with its locks.
-/

namespace NobugDb

open Function (update)

/-- The operation asks for a lock that the session has not asked for yet. -/
def Op.isRequest : Op → Bool
  | .request _ _ => true
  | _ => false

namespace Database

variable {fns : Functions} {s : Nat} {db db' : Database} {op : Op} {resp : Response}

structure SameLocks (db db' : Database) : Prop where
  sessions : db'.sessions = db.sessions
  lockManager : db'.lockManager = db.lockManager
  nextLockId : db'.nextLockId = db.nextLockId

theorem SameLocks.refl (db : Database) : SameLocks db db := ⟨rfl, rfl, rfl⟩

/-- The owner id of the locks a session asks for, when it asks for the next. -/
def lockId (db : Database) (s : Nat) : Nat := ((db.ensureLockTxnId s).sessions s).transactionId

/-- What an operation of session `s` does to sessions and locks. -/
inductive LockEffect (s : Nat) (db : Database) : Op → Database → Prop
  | same {op : Op} {db' : Database} : op.isRequest = false → SameLocks db db' → LockEffect s db op db'
  | begins {db' : Database} {snapshot : Option TransactionSnapshot} :
      (db.sessions s).inTransaction = false →
      db'.sessions =
        Function.update db.sessions s ⟨true, db.transactionManager.nextXid, snapshot⟩ →
      db'.lockManager = db.lockManager → db'.nextLockId = db.nextLockId →
      LockEffect s db .begin db'
  | ends {op : Op} {db' : Database} : op = .commit ∨ op = .rollback →
      db'.sessions = Function.update db.sessions s {} →
      db'.lockManager = (db.releaseSessionLocks s).lockManager →
      db'.nextLockId = db.nextLockId → LockEffect s db op db'
  | requests {key : String} {mode : LockMode} {db' : Database} :
      db'.sessions = (db.ensureLockTxnId s).sessions →
      db'.lockManager = (db.lockManager.request (db.lockId s) key mode).1 →
      db'.nextLockId = (db.ensureLockTxnId s).nextLockId →
      LockEffect s db (.request key mode) db'
  | attempts {key : String} {mode : LockMode} {db' : Database} : db'.sessions = db.sessions →
      db'.lockManager = (db.lockManager.attempt (db.sessions s).transactionId key mode).1 →
      db'.nextLockId = db.nextLockId →
      LockEffect s db (.attempt key mode) db'
  | releases {db' : Database} : db'.sessions = db.sessions →
      db'.lockManager = (db.releaseSessionLocks s).lockManager →
      db'.nextLockId = db.nextLockId → LockEffect s db .release db'

theorem LockEffect.locks {P : LockManager → Prop} (eff : LockEffect s db op db')
    (old : P db.lockManager)
    (req : ∀ key mode, op = .request key mode →
      P (db.lockManager.request (db.lockId s) key mode).1)
    (attempt : ∀ key mode, op = .attempt key mode →
      P (db.lockManager.attempt (db.sessions s).transactionId key mode).1)
    (release : P (db.lockManager.releaseAll (db.sessions s).transactionId)) : P db'.lockManager := by
  have released : P (db.releaseSessionLocks s).lockManager := by
    unfold releaseSessionLocks
    split
    · exact old
    · exact release
  cases eff with
  | same _ kept => exact kept.lockManager ▸ old
  | begins _ _ locks _ => exact locks ▸ old
  | ends _ _ locks _ => exact locks ▸ released
  | requests _ locks _ => exact locks ▸ req _ _ rfl
  | attempts _ locks _ => exact locks ▸ attempt _ _ rfl
  | releases _ locks _ => exact locks ▸ released

theorem LockEffect.sessions (eff : LockEffect s db op db') :
    ∃ session, db'.sessions = update db.sessions s session := by
  have unchanged (same : db'.sessions = db.sessions) :
      ∃ session, db'.sessions = update db.sessions s session :=
    ⟨db.sessions s, by rw [same, Function.update_eq_self]⟩
  cases eff with
  | same _ kept => exact unchanged kept.sessions
  | begins _ sess _ _ | ends _ sess _ _ => exact ⟨_, sess⟩
  | requests sess _ _ =>
    unfold ensureLockTxnId at sess
    split at sess
    · exact ⟨_, sess⟩
    · exact unchanged sess
  | attempts sess _ _ | releases sess _ _ => exact unchanged sess

theorem onTables_sameLocks (f : Table → Table × Except Exn Unit) : SameLocks db (db.onTables f).1 :=
  ⟨rfl, rfl, rfl⟩

theorem lockTxnId_lockManager : (db.ensureLockTxnId s).lockManager = db.lockManager := by
  unfold ensureLockTxnId
  split <;> rfl

theorem releaseLocks_sessions : (db.releaseSessionLocks s).sessions = db.sessions := by
  unfold releaseSessionLocks
  split <;> rfl

theorem releaseLocks_nextLockId : (db.releaseSessionLocks s).nextLockId = db.nextLockId := by
  unfold releaseSessionLocks
  split <;> rfl

theorem SameLocks.release (eq : SameLocks db db') :
    (db'.releaseSessionLocks s).lockManager = (db.releaseSessionLocks s).lockManager := by
  unfold releaseSessionLocks
  rw [eq.sessions, eq.lockManager]
  split
  · exact eq.lockManager
  · rfl

theorem SameLocks.ended (eq : SameLocks db db') :
    (db'.endSession s).sessions = update db.sessions s {} ∧
      (db'.endSession s).lockManager = (db.releaseSessionLocks s).lockManager ∧
      (db'.endSession s).nextLockId = db.nextLockId := by
  refine ⟨?_, ?_, ?_⟩
  · show update (db'.releaseSessionLocks s).sessions s {} = _
    rw [releaseLocks_sessions, eq.sessions]
  · exact eq.release
  · show (db'.releaseSessionLocks s).nextLockId = _
    rw [releaseLocks_nextLockId, eq.nextLockId]

/-- The database after a transaction was ended, or could not be. -/
def EndsOrKeeps (s : Nat) (db db' : Database) : Prop :=
  SameLocks db db' ∨ (db'.sessions = Function.update db.sessions s {} ∧
    db'.lockManager = (db.releaseSessionLocks s).lockManager ∧ db'.nextLockId = db.nextLockId)

theorem OnlyTables.sameLocks (only : OnlyTables db db') : SameLocks db db' :=
  ⟨(congrArg sessions only).trans rfl, (congrArg lockManager only).trans rfl,
    (congrArg nextLockId only).trans rfl⟩

theorem Finishes.endsOrKeeps {status : TransactionStatus} (finishes : Finishes s status db db') :
    EndsOrKeeps s db db' := by
  cases finishes with
  | outside _ => exact .inl (.refl db)
  | @inside db₁ _ _ only ended =>
    have same := only.sameLocks
    have kept : SameLocks db db₁ := { same with }
    obtain rfl | rfl := ended
    · exact .inl kept
    · exact .inr kept.ended

theorem EndsOrKeeps.effect (ending : EndsOrKeeps s db db') (which : op = .commit ∨ op = .rollback) :
    LockEffect s db op db' := by
  obtain kept | ⟨sess, locks, counter⟩ := ending
  · refine .same ?_ kept
    obtain rfl | rfl := which <;> rfl
  · exact .ends which sess locks counter

theorem perform_lockEffect (ran : db.perform fns s op = some (db', resp)) :
    LockEffect s db op db' := by
  cases op with
  | begin =>
    simp only [perform, executeBegin] at ran
    split at ran
    · cases ran
      exact .same rfl (.refl db)
    · next outside =>
      cases ran
      exact .begins (by simpa using outside) rfl rfl rfl
  | commit =>
    have after := respondWith_fst_eq (Option.some.inj ran)
    exact (after ▸ commit_finishes.endsOrKeeps).effect (.inl rfl)
  | rollback =>
    have after := respondWith_fst_eq (Option.some.inj ran)
    exact (after ▸ rollback_finishes.endsOrKeeps).effect (.inr rfl)
  | request key mode =>
    cases ran
    refine .requests rfl ?_ rfl
    have locks : (db.ensureLockTxnId s).lockManager = db.lockManager := lockTxnId_lockManager
    rw [← locks]
    rfl
  | attempt key mode =>
    simp only [perform] at ran
    split at ran <;> cases ran <;> exact .attempts rfl rfl rfl
  | release =>
    cases ran
    exact .releases releaseLocks_sessions rfl releaseLocks_nextLockId
  | _ => exact .same rfl (perform_onlyTables rfl ran).sameLocks

end Database

end NobugDb
