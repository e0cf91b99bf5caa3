import NobugDb.Core.Proofs.LockReleases

/-!
# Steps of the dispatcher

What an operation does to the transaction manager, and what an event of the dispatcher does to the
database: it performs the operations of a section, or it has nothing to do with sessions, locks and
transactions.
-/

namespace NobugDb

open Misc (Program)
open Function (update_of_ne update_self)

namespace Database

variable {storage : Storage} {fns : Functions} {s t : Nat} {db db' : Database} {op : Op}
  {resp : Response}

/-! ## The transaction manager -/

theorem lockTxnId_tm : (db.ensureLockTxnId s).transactionManager = db.transactionManager := by
  unfold ensureLockTxnId
  split <;> rfl

theorem performOn_tm (keeps : op.keepsTransaction = true)
    (ran : db.performOn storage fns s op = some (db', response)) :
    db'.transactionManager = db.transactionManager := by
  cases op with
  | begin | commit | rollback => cases keeps
  | persist res =>
    have after := respondWith_fst_eq (Option.some.inj ran)
    exact after ▸ (persist_onlyTables _ _).transactionManager
  | request key mode =>
    cases ran
    exact lockTxnId_tm
  | attempt key mode =>
    simp only [performOn, perform] at ran
    split at ran <;> cases ran <;> rfl
  | release =>
    cases ran
    unfold releaseSessionLocks
    split <;> rfl
  | _ =>
    simp only [performOn] at ran
    exact (perform_onlyTables rfl ran).transactionManager

theorem LockEffect.transactionId (eff : LockEffect s db op db') (keeps : op.keepsTransaction = true)
    (some : (db.sessions t).transactionId ≠ 0) :
    (db'.sessions t).transactionId = (db.sessions t).transactionId := by
  by_cases isS : t = s
  · subst isS
    cases eff with
    | same _ kept => rw [kept.sessions]
    | begins _ _ _ _ => cases keeps
    | ends which _ _ _ => obtain rfl | rfl := which <;> cases keeps
    | requests sess _ _ => rw [sess, ensureLockTxnId, if_neg some]
    | attempts sess _ _ => rw [sess]
    | releases sess _ _ => rw [sess]
  · rw [eff.other isS]

theorem LockEffect.inTransaction (eff : LockEffect s db op db') (keeps : op.keepsTransaction = true)
    (t : Nat) : (db'.sessions t).inTransaction = (db.sessions t).inTransaction := by
  by_cases isS : t = s
  · rw [isS]
    exact inTx_of_keeps eff keeps
  · rw [eff.other isS]

/-- What an operation of session `s` does to the transaction manager, with what it does to the
    session. A COMMIT or ROLLBACK that fails on the way leaves the session in the transaction. -/
inductive ManagerEffect (s : Nat) (db : Database) : Database → Prop
  | keeps {db' : Database} : db'.transactionManager = db.transactionManager →
      (∀ t, (db'.sessions t).inTransaction = (db.sessions t).inTransaction) →
      (∀ t, (db.sessions t).transactionId ≠ 0 →
        (db'.sessions t).transactionId = (db.sessions t).transactionId) →
      ManagerEffect s db db'
  | begins {db' : Database} {snapshot : TransactionSnapshot} :
      (db.sessions s).inTransaction = false →
      db'.transactionManager =
        db.transactionManager.beginTransaction.1.registerSnapshot db.transactionManager.nextXid snapshot →
      db'.sessions =
        Function.update db.sessions s ⟨true, db.transactionManager.nextXid, some snapshot⟩ →
      ManagerEffect s db db'
  | ends {db' : Database} {status : TransactionStatus} : (db.sessions s).inTransaction = true →
      db'.transactionManager =
        db.transactionManager.endTransaction (db.sessions s).transactionId status →
      db'.sessions = db.sessions ∨ db'.sessions = Function.update db.sessions s {} →
      ManagerEffect s db db'

theorem ManagerEffect.refl (s : Nat) (db : Database) : ManagerEffect s db db :=
  .keeps rfl (fun _ => rfl) (fun _ _ => rfl)

theorem EndsOrKeeps.sessions (ending : EndsOrKeeps s db db') :
    db'.sessions = db.sessions ∨ db'.sessions = Function.update db.sessions s {} :=
  ending.imp SameLocks.sessions And.left

theorem Finishes.managerEffect {status : TransactionStatus} (finishes : Finishes s status db db') :
    ManagerEffect s db db' := by
  have sessions := finishes.endsOrKeeps.sessions
  cases finishes with
  | outside _ => exact .refl s db
  | inside inTx only ended =>
    refine @ManagerEffect.ends s db _ status inTx ?_ sessions
    obtain rfl | rfl := ended
    · exact only.transactionManager
    · exact endSession_tm.trans only.transactionManager

theorem performOn_managerEffect (ran : db.performOn storage fns s op = some (db', resp)) :
    ManagerEffect s db db' := by
  have eff := performOn_effect ran
  have kept (keeps : op.keepsTransaction = true) : ManagerEffect s db db' :=
    .keeps (performOn_tm keeps ran) (eff.inTransaction keeps)
      (fun t some => eff.transactionId keeps some)
  cases op with
  | begin =>
    simp only [performOn, perform, executeBegin] at ran
    split at ran
    · cases ran
      exact .refl s db
    · next outside =>
      cases ran
      exact .begins (by simpa using outside) rfl rfl
  | commit =>
    obtain rfl := respondWith_fst_eq (Option.some.inj ran)
    exact commitOn_finishes.managerEffect
  | rollback =>
    obtain rfl := respondWith_fst_eq (Option.some.inj ran)
    exact rollback_finishes.managerEffect
  | _ => exact kept rfl

/-- Each session in a transaction has an id of its own that was given out. -/
structure Numbered (db : Database) : Prop where
  pos : 0 < db.transactionManager.nextXid
  nonzero : ∀ s, (db.sessions s).inTransaction = true → (db.sessions s).transactionId ≠ 0
  given : ∀ s, (db.sessions s).inTransaction = true →
    (db.sessions s).transactionId < db.transactionManager.nextXid
  distinct : ∀ s t, s ≠ t → (db.sessions s).inTransaction = true →
    (db.sessions t).inTransaction = true →
    (db.sessions s).transactionId ≠ (db.sessions t).transactionId

/-- A session in a transaction was in it before, or got the next id. -/
theorem Numbered.session (numbered : db.Numbered) (eff : ManagerEffect s db db')
    (isIn : (db'.sessions t).inTransaction = true) :
    ((db.sessions t).inTransaction = true ∧
        (db'.sessions t).transactionId = (db.sessions t).transactionId) ∨
      t = s ∧ (db'.sessions t).transactionId = db.transactionManager.nextXid ∧
        db'.transactionManager.nextXid = db.transactionManager.nextXid + 1 := by
  cases eff with
  | keeps mgr inTx ids =>
    have before : (db.sessions t).inTransaction = true := inTx t ▸ isIn
    exact .inl ⟨before, ids t (numbered.nonzero t before)⟩
  | begins _ mgr sess =>
    rw [sess] at isIn ⊢
    by_cases isT : t = s
    · rw [isT, update_self, mgr]
      exact .inr ⟨rfl, rfl, rfl⟩
    · rw [update_of_ne isT] at isIn ⊢
      exact .inl ⟨isIn, rfl⟩
  | ends _ mgr sess =>
    obtain eq | ended := sess
    · rw [eq] at isIn ⊢
      exact .inl ⟨isIn, rfl⟩
    · rw [ended] at isIn ⊢
      by_cases isT : t = s
      · rw [isT, update_self] at isIn
        cases isIn
      · rw [update_of_ne isT] at isIn ⊢
        exact .inl ⟨isIn, rfl⟩

theorem Numbered.perform (numbered : db.Numbered) (eff : ManagerEffect s db db') : db'.Numbered := by
  have next : db.transactionManager.nextXid ≤ db'.transactionManager.nextXid := by
    cases eff with
    | keeps mgr => rw [mgr]
    | begins _ mgr => exact mgr ▸ Nat.le_succ _
    | ends _ mgr => exact mgr ▸ le_rfl
  refine ⟨numbered.pos.trans_le next, fun t isIn => ?_, fun t isIn => ?_,
    fun t u differ isIn also => ?_⟩
  · obtain ⟨before, eq⟩ | ⟨-, isNext, -⟩ := numbered.session eff isIn
    · exact eq ▸ numbered.nonzero t before
    · exact isNext ▸ numbered.pos.ne'
  · obtain ⟨before, eq⟩ | ⟨-, isNext, more⟩ := numbered.session eff isIn
    · exact eq ▸ (numbered.given t before).trans_le next
    · omega
  · obtain ⟨before, eq⟩ | ⟨isT, isNext, -⟩ := numbered.session eff isIn
    · obtain ⟨beforeU, sameU⟩ | ⟨-, isNext, -⟩ := numbered.session eff also
      · rw [eq, sameU]
        exact numbered.distinct t u differ before beforeU
      · rw [eq, isNext]
        exact (numbered.given t before).ne
    · obtain ⟨beforeU, sameU⟩ | ⟨isU, -⟩ := numbered.session eff also
      · rw [isNext, sameU]
        exact (numbered.given u beforeU).ne'
      · exact absurd (isT.trans isU.symm) differ

/-- Sessions, locks and transactions are as they were. -/
structure SameControl (db db' : Database) : Prop extends SameLocks db db' where
  transactionManager : db'.transactionManager = db.transactionManager

theorem SameControl.effect (eq : SameControl db db') (s : Nat) : ManagerEffect s db db' :=
  .keeps eq.transactionManager (fun t => by rw [eq.sessions]) (fun t _ => by rw [eq.sessions])

end Database

/-! ## Events -/

namespace Dispatcher

variable {d : Dispatcher} {s t : Nat} {storage : Storage} {fns : Functions} {rest : Sections}

/-- Apart from the operations of a section, what a call does has nothing to do with transactions. -/
theorem resume_sameControl
    (outside : ∀ (α : Type) guarded (body : Body α) next, rest ≠ .enter guarded body next) :
    d.db.SameControl (d.resume s storage fns rest).db := by
  cases rest with
  | enter guarded body next => exact absurd rfl (outside _ guarded body next)
  | done out =>
    cases out with
    | ok res => exact ⟨⟨rfl, rfl, rfl⟩, rfl⟩
    | error exn =>
      simp only [resume]
      split <;> exact ⟨⟨rfl, rfl, rfl⟩, rfl⟩
  | asks next => exact ⟨⟨rfl, rfl, rfl⟩, rfl⟩
  | alter execute next =>
    unfold resume
    dsimp only
    split <;> exact ⟨⟨rfl, rfl, rfl⟩, rfl⟩
  | persist res inTx next =>
    unfold resume
    dsimp only
    split
    · exact ⟨⟨rfl, rfl, rfl⟩, rfl⟩
    · have only := @Database.persist_onlyTables d.db storage res inTx
      exact ⟨only.sameLocks, only.transactionManager⟩

theorem resume_calls_of_ne (apart : s ≠ t) : (d.resume t storage fns rest).calls s = d.calls s := by
  cases rest with
  | done out =>
    cases out with
    | ok res => exact update_of_ne apart _ _
    | error exn =>
      simp only [resume]
      split <;> exact update_of_ne apart _ _
  | asks next => exact update_of_ne apart _ _
  | enter guarded body next =>
    simp only [resume]
    split
    · rfl
    · split
      · unfold unlock
        split <;> exact update_of_ne apart _ _
      · exact update_of_ne apart _ _
  | alter execute next | persist res inTx next =>
    simp only [resume]
    split
    · rfl
    · exact update_of_ne apart _ _

/-- What an event does: a call performs the operations of a section as far as it can, or nothing is
    performed and sessions, locks and transactions are as they were. -/
inductive Effect (d : Dispatcher) : Event → Prop
  | performs {s : Nat} {storage : Storage} {fns : Functions} {α : Type} {guarded : Bool}
      {body : Body α} {next : Except Exn α → Sections} :
      d.calls s = some (fns, .enter guarded body next) → (guarded && d.blocked s) = false →
      d.performed s storage = Program.performed (Database.performOn storage fns s) d.db body →
      (d.step (.resume s storage)).db =
        (Program.exec (Database.performOn storage fns s) d.db body).1 →
      Effect d (.resume s storage)
  | quiet {e : Event} : (∀ s storage, e = .resume s storage → d.performed s storage = []) →
      d.db.SameControl (d.step e).db → Effect d e

section Enter

variable {α : Type} {guarded : Bool} {body : Body α} {next : Except Exn α → Sections}

variable (called : d.calls s = some (fns, .enter guarded body next))
include called

theorem step_of_blocked
    (blocked : (guarded && d.blocked s) = true) : d.step (.resume s storage) = d := by
  simp only [step, called, resume, blocked, if_true]

theorem performed_enter (free : (guarded && d.blocked s) = false) :
    d.performed s storage = Program.performed (Database.performOn storage fns s) d.db body := by
  simp only [performed, called, free, Bool.false_eq_true, if_false]

theorem step_enter_db (free : (guarded && d.blocked s) = false) :
    (d.step (.resume s storage)).db =
      (Program.exec (Database.performOn storage fns s) d.db body).1 := by
  simp only [step, called, resume, free, Bool.false_eq_true, if_false]
  split
  next db out executed =>
    rw [executed]
    unfold setRest unlock
    split <;> rfl
  next db op k executed =>
    rw [executed]
    rfl

theorem effect_enter : Effect d (.resume s storage) := by
  cases blocked : guarded && d.blocked s with
  | true =>
    refine .quiet ?_ ?_
    · intro s' storage' eq
      cases eq
      simp only [performed, called, blocked, if_true]
    · rw [step_of_blocked called blocked]
      exact ⟨.refl d.db, rfl⟩
  | false =>
    exact .performs called blocked (performed_enter called blocked) (step_enter_db called blocked)

end Enter

theorem effect (d : Dispatcher) (e : Event) : Effect d e := by
  cases e with
  | call fns s command | vacuumWorker =>
    refine .quiet (by simp) ?_
    simp only [step]
    split <;> exact ⟨⟨rfl, rfl, rfl⟩, rfl⟩
  | resume s storage =>
    cases called : d.calls s with
    | none =>
      refine .quiet ?_ ?_
      · intro s' storage' eq
        cases eq
        simp only [performed, called]
      · have eq : d.step (.resume s storage) = d := by simp only [step, called]
        rw [eq]
        exact ⟨.refl d.db, rfl⟩
    | some call =>
      obtain ⟨fns, rest⟩ := call
      cases rest with
      | enter guarded body next => exact effect_enter called
      | _ =>
        refine .quiet ?_ ?_
        · intro s' storage' eq
          cases eq
          simp only [performed, called]
        · simp only [step, called]
          exact resume_sameControl (by simp)

/-- What operations keep, and whatever has nothing to do with sessions, locks and transactions, is
    kept by an event. -/
theorem step_keeps {I : Database → Prop} {e : Event}
    (quiet : ∀ db db', Database.SameControl db db' → I db → I db')
    (operations : ∀ s storage, e = .resume s storage → d.calls s ≠ none →
      ∀ acc ∈ d.performed s storage, ∀ fns db' resp,
        acc.1.performOn storage fns s acc.2 = some (db', resp) → I acc.1 → I db')
    (start : I d.db) : I (d.step e).db := by
  cases d.effect e with
  | quiet _ eq => exact quiet _ _ eq start
  | @performs s storage fns α guarded body next called _ accesses reached =>
    rw [reached]
    refine Program.exec_inv (fun acc mem db' resp performs kept => ?_) start
    exact operations s storage rfl (by simp [called]) acc (accesses ▸ mem) fns db' resp
      performs kept

theorem performed_keeps {I : Database → Prop}
    (operations : ∀ acc ∈ d.performed s storage, ∀ fns db' resp,
      acc.1.performOn storage fns s acc.2 = some (db', resp) → I acc.1 → I db')
    (start : I d.db) : ∀ acc ∈ d.performed s storage, I acc.1 := by
  intro acc mem
  cases d.effect (.resume s storage) with
  | quiet none _ =>
    rw [none s storage rfl] at mem
    cases mem
  | @performs _ _ fns α guarded body next called _ accesses _ =>
    rw [accesses] at mem operations
    exact Program.performed_inv
      (fun acc mem db' resp performs => operations acc mem fns db' resp performs)
      start acc mem

end Dispatcher

end NobugDb
