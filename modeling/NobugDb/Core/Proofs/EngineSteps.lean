import NobugDb.Core.Dispatch

/-!
# What a step of a call can do

A call that goes on performs operations of its statement and then moves to another phase. What
it does besides those operations to the database is little: it clears `active_session_`,
releases locks, flushes, or rolls back after a deadlock. Invariants of the database, and ghost
state that follows the operations, are carried over a step here once.
-/

namespace NobugDb.Engine

open Misc (Program)

variable {e : Engine} {s : Nat} {call : Call}

/-! ## Calls -/

theorem unlock_db : (e.unlock s).db = e.db := by
  unfold unlock
  split <;> rfl

theorem unlock_calls : (e.unlock s).calls = e.calls := by
  unfold unlock
  split <;> rfl

theorem setPhase_calls_self (phase : Phase) :
    (e.setPhase s call phase).calls s = some { call with phase := phase } :=
  Function.update_self _ _ _

variable {other : Nat}

theorem setPhase_calls_other (phase : Phase) (ne : other ≠ s) :
    (e.setPhase s call phase).calls other = e.calls other :=
  Function.update_of_ne ne _ _

theorem finish_calls_self (res : QueryResult) : (e.finish s res).calls s = none :=
  Function.update_self _ _ _

theorem finish_calls_other (res : QueryResult) (ne : other ≠ s) :
    (e.finish s res).calls other = e.calls other :=
  Function.update_of_ne ne _ _

theorem handle_calls_other (exn : Exn) (ne : other ≠ s) :
    (e.handle s call exn).calls other = e.calls other := by
  unfold handle
  split
  · exact setPhase_calls_other _ ne
  · exact finish_calls_other _ ne
  · exact finish_calls_other _ ne
  · exact finish_calls_other _ ne
  · exact finish_calls_other _ ne

theorem handle_db (exn : Exn) : (e.handle s call exn).db = e.clearActive.db := by
  unfold handle
  split <;> rfl

/-- The database after the operations of a program. -/
def afterProgram {α : Type} (e : Engine) (s : Nat) (call : Call) (rest : Body α) : Database :=
  (Program.exec (Database.perform call.env.functions s) e.db rest).1

/-- What holds of the three ways a program of a call can stop holds of `advance`. -/
theorem advance_cases {α : Type} {P : Engine → Prop} (rest : Body α)
    {waits : Engine → Body α → Engine} {next : Engine → α → Engine}
    (onWait : ∀ (e' : Engine) rest', e'.db = e.afterProgram s call rest → e'.calls = e.calls →
      P (waits e' rest'))
    (onValue : ∀ (e' : Engine) a, e'.db = e.afterProgram s call rest → e'.calls = e.calls →
      P (next e' a))
    (onThrow : ∀ (e' : Engine) exn, e'.db = e.afterProgram s call rest → e'.calls = e.calls →
      P (e'.handle s call exn)) :
    P (e.advance s call rest waits next) := by
  unfold advance
  simp only
  split
  · exact onValue _ _ unlock_db unlock_calls
  · exact onThrow _ _ unlock_db unlock_calls
  · exact onWait _ _ rfl rfl

theorem resume_calls_other (ne : other ≠ s) : (e.resume s call).calls other = e.calls other := by
  have advanced {α : Type} (rest : Body α) {waits : Engine → Body α → Engine}
      {next : Engine → α → Engine} (waitsKeep : ∀ e' rest', (waits e' rest').calls other = e'.calls other)
      (nextKeeps : ∀ e' a, (next e' a).calls other = e'.calls other) :
      (e.advance s call rest waits next).calls other = e.calls other := by
    refine advance_cases (P := fun e' => e'.calls other = e.calls other) rest ?_ ?_ ?_
    · intro e' rest' _ eq
      rw [waitsKeep, eq]
    · intro e' a _ eq
      rw [nextKeeps, eq]
    · intro e' exn _ eq
      rw [handle_calls_other exn ne, eq]
  unfold resume
  split
  case h_1 rest _ =>
    split
    · rfl
    · exact advanced rest (fun _ _ => setPhase_calls_other _ ne) (fun _ _ => setPhase_calls_other _ ne)
  case h_2 rest _ =>
    exact advanced rest (fun _ _ => setPhase_calls_other _ ne) (fun _ _ => setPhase_calls_other _ ne)
  case h_3 rest _ =>
    split
    · rfl
    · exact advanced rest (fun _ _ => setPhase_calls_other _ ne) (fun _ _ => setPhase_calls_other _ ne)
  case h_4 =>
    split
    · exact setPhase_calls_other _ ne
    · split
      · rfl
      · exact setPhase_calls_other _ ne
  case h_5 => exact finish_calls_other _ ne
  case h_6 =>
    split
    · split
      · rfl
      · exact finish_calls_other _ ne
    · exact finish_calls_other _ ne

theorem performed_cases (inCall : e.calls s = some call) :
    e.performed s = [] ∨
      ∃ (α : Type) (rest : Body α), e.performed s = e.performedBy s call rest := by
  unfold performed
  simp only [inCall]
  split
  · split
    · exact .inl rfl
    · exact .inr ⟨_, _, rfl⟩
  · exact .inr ⟨_, _, rfl⟩
  · split
    · exact .inl rfl
    · exact .inr ⟨_, _, rfl⟩
  · exact .inl rfl

/-! ## The database -/

section Simulation

variable {τ : Type} {I : Database → τ → Prop} {follow : τ → Database × Op → τ} {t : τ}

/-- The steps of a call outside its statement's operations keep `I`. -/
structure KeptOutside (I : Database → τ → Prop) (e : Engine) (s : Nat) (call : Call) : Prop where
  clear : ∀ db t, I db t → I { db with activeSession := none } t
  release : ∀ db t, I db t → I (db.releaseSessionLocks s) t
  flush : ∀ result t, call.phase = .persist result → I e.db t → I e.db.flush t
  rollback : ∀ exn t, call.phase = .deadlocked exn → I e.db t → I (e.db.executeRollback s).1 t

theorem leaveBody_simulation (outside : KeptOutside I e s call) (e' : Engine) (res : QueryResult)
    (u : τ) (kept : I e'.db u) : I (e'.leaveBody s call res).db u := by
  unfold leaveBody
  simp only [setPhase]
  split
  · exact outside.release e'.db u kept
  · exact kept

/-- Running a program of the call keeps what its operations keep, when the step into the next
    phase does. -/
theorem advance_simulation {α : Type} (rest : Body α) {waits : Engine → Body α → Engine}
    {next : Engine → α → Engine}
    (ops : ∀ acc ∈ e.performedBy s call rest, ∀ db' resp t,
      acc.1.perform call.env.functions s acc.2 = some (db', resp) →
      I acc.1 t → I db' (follow t acc))
    (outside : KeptOutside I e s call) (start : I e.db t)
    (waitsKeep : ∀ e' rest', (waits e' rest').db = e'.db)
    (nextKeeps : ∀ (e' : Engine) a u, I e'.db u → I (next e' a).db u) :
    I (e.advance s call rest waits next).db ((e.performedBy s call rest).foldl follow t) := by
  have after : I (e.afterProgram s call rest) ((e.performedBy s call rest).foldl follow t) :=
    Program.exec_simulation ops start
  refine advance_cases
    (P := fun e' => I e'.db ((e.performedBy s call rest).foldl follow t)) rest ?_ ?_ ?_
  · intro e' rest' eq _
    rw [waitsKeep, eq]
    exact after
  · intro e' a eq _
    exact nextKeeps e' a _ (eq ▸ after)
  · intro e' exn eq _
    rw [handle_db]
    exact outside.clear e'.db _ (eq ▸ after)

/-- A step of a call keeps what its operations and its other steps keep. -/
theorem resume_simulation (inCall : e.calls s = some call)
    (ops : ∀ acc ∈ e.performed s, ∀ db' resp t,
      acc.1.perform call.env.functions s acc.2 = some (db', resp) →
      I acc.1 t → I db' (follow t acc))
    (outside : KeptOutside I e s call) (start : I e.db t) :
    I (e.resume s call).db ((e.performed s).foldl follow t) := by
  unfold performed at ops ⊢
  unfold resume
  cases phase : call.phase with
  | preview rest =>
    simp only [inCall, phase] at ops ⊢
    by_cases waits : e.blocked s = true
    · simpa [waits] using start
    · simp only [waits, Bool.false_eq_true, if_false] at ops ⊢
      exact advance_simulation rest ops outside start (fun _ _ => rfl) (fun _ _ _ kept => kept)
  | locking rest =>
    simp only [inCall, phase] at ops ⊢
    exact advance_simulation rest ops outside start (fun _ _ => rfl) (fun _ _ _ kept => kept)
  | body rest =>
    simp only [inCall, phase] at ops ⊢
    by_cases waits : e.blocked s = true
    · simpa [waits] using start
    · simp only [waits, Bool.false_eq_true, if_false] at ops ⊢
      exact advance_simulation rest ops outside start (fun _ _ => rfl)
        (leaveBody_simulation outside)
  | persist res =>
    simp only [inCall, phase]
    split
    · exact start
    · split
      · exact start
      · exact outside.flush res t phase start
  | done res =>
    simp only [inCall, phase]
    exact outside.clear e.db t start
  | deadlocked exn =>
    simp only [inCall, phase]
    split
    · split
      · exact start
      · exact outside.rollback exn t phase start
    · exact outside.release e.db t start

theorem performed_meets {ok : τ → Database × Op → Prop} (inCall : e.calls s = some call)
    (ops : ∀ acc ∈ e.performed s, ∀ db' resp t,
      acc.1.perform call.env.functions s acc.2 = some (db', resp) →
      I acc.1 t → I db' (follow t acc))
    (gives : ∀ acc ∈ e.performed s, ∀ t, I acc.1 t → ok t acc)
    (start : I e.db t) : Misc.Meets follow ok t (e.performed s) := by
  rcases performed_cases inCall with none | ⟨α, rest, eq⟩
  · rw [none]
    trivial
  · rw [eq] at ops gives ⊢
    exact Program.performed_meets ops gives start

end Simulation

theorem performed_inv {I : Database → Prop} (inCall : e.calls s = some call)
    (ops : ∀ acc ∈ e.performed s, ∀ db' resp,
      acc.1.perform call.env.functions s acc.2 = some (db', resp) → I acc.1 → I db')
    (start : I e.db) : ∀ acc ∈ e.performed s, I acc.1 := by
  rcases performed_cases inCall with none | ⟨α, rest, eq⟩
  · rw [none]
    intro acc mem
    cases mem
  · rw [eq] at ops ⊢
    exact Program.performed_inv ops start

end NobugDb.Engine

namespace NobugDb

namespace Op

/-- The operation neither begins nor ends a transaction. -/
def keepsTransaction : Op → Bool
  | .begin | .commit | .rollback => false
  | _ => true

/-- The operation has nothing to do with transactions or locks. -/
def isPlain : Op → Bool
  | .request _ _ | .attempt _ _ | .release => false
  | op => op.keepsTransaction

end Op

namespace Database

/-! ## Operations on tables -/

variable {fns : Functions} {s : Nat} {db db' : Database} {op : Op} {resp : Response}

/-- Nothing but the tables, in memory and on disk, has changed. -/
def OnlyTables (db db' : Database) : Prop :=
  db' = { db with tables := db'.tables, disk := db'.disk }

theorem OnlyTables.activeSession (only : OnlyTables db db') : db'.activeSession = db.activeSession :=
  (congrArg Database.activeSession only).trans rfl

theorem OnlyTables.transactionManager (only : OnlyTables db db') :
    db'.transactionManager = db.transactionManager :=
  (congrArg Database.transactionManager only).trans rfl

theorem write_onlyTables (name : String) (f : Table → Table × Except Exn Unit) :
    OnlyTables db (db.write name f).1 := by
  unfold write
  split <;> rfl

theorem executeVacuum_onlyTables (tab : Option String) :
    OnlyTables db (db.executeVacuum tab).1 := by
  cases tab with
  | none =>
    have swept : OnlyTables db db.vacuumAllTables.1 := rfl
    show OnlyTables db (andThen db.vacuumAllTables _).1
    generalize db.vacuumAllTables = result at swept ⊢
    obtain ⟨db₁, _ | _⟩ := result <;> exact swept
  | some name =>
    unfold executeVacuum
    dsimp only
    split <;> rfl

theorem respondWith_fst_eq {res : Database × Except Exn QueryResult}
    (responds : respondWith res = (db', resp)) : res.1 = db' := by
  obtain ⟨db₁, out⟩ := res
  cases out <;> exact congrArg Prod.fst responds

theorem perform_onlyTables (plain : op.isPlain = true)
    (ran : db.perform fns s op = some (db', response)) : OnlyTables db db' := by
  cases op with
  | begin | commit | rollback | request | attempt | release => cases plain
  | look => cases ran; rfl
  | visible name =>
    simp only [perform] at ran
    split at ran
    · cases ran; rfl
    · split at ran <;> cases ran <;> rfl
  | dropIndex indexName =>
    simp only [perform] at ran
    split at ran
    · cases ran; rfl
    · cases ran; exact write_onlyTables _ _
  | vacuum table =>
    have after := respondWith_fst_eq (Option.some.inj ran)
    exact after ▸ executeVacuum_onlyTables table
  | persist res =>
    cases ran
    split <;> rfl
  | _ =>
    have after : _ = db' := congrArg Prod.fst (Option.some.inj ran)
    exact after ▸ write_onlyTables _ _

/-! ## The end of a transaction -/

theorem OnlyTables.trans {db'' : Database} (fst : OnlyTables db db') (snd : OnlyTables db' db'') :
    OnlyTables db db'' := by
  unfold OnlyTables at fst snd ⊢
  rw [fst] at snd
  exact snd

theorem freezeAll_onlyTables (txnId : Nat) : OnlyTables db (db.freezeAllTables txnId).1 := by
  unfold freezeAllTables
  split <;> rfl

theorem persist_onlyTables {store : Storage} (res : QueryResult) (inTx : Bool) :
    OnlyTables db (db.persistDirtyTables store res inTx).1 := by
  unfold persistDirtyTables
  split
  · rfl
  · dsimp only
    split
    · rfl
    · split <;> rfl

/-- What COMMIT or ROLLBACK leaves, outside a transaction and in one. When it fails on the way the
    session stays in the transaction that has ended. -/
inductive Finishes (s : Nat) (status : TransactionStatus) (db : Database) : Database → Prop
  | outside : (db.sessions s).inTransaction = false → Finishes s status db db
  | inside {db₁ db' : Database} : (db.sessions s).inTransaction = true →
      OnlyTables { db with transactionManager :=
        db.transactionManager.endTransaction (db.sessions s).transactionId status } db₁ →
      db' = db₁ ∨ db' = db₁.endSession s → Finishes s status db db'

theorem andThen_finishes {status : TransactionStatus} {fst : Database × Except Exn Unit}
    {next : Database → Database × Except Exn QueryResult}
    (inTx : (db.sessions s).inTransaction = true)
    (only : OnlyTables { db with transactionManager :=
      db.transactionManager.endTransaction (db.sessions s).transactionId status } fst.1)
    (after : ∀ db₁, OnlyTables { db with transactionManager :=
      db.transactionManager.endTransaction (db.sessions s).transactionId status } db₁ →
      Finishes s status db (next db₁).1) : Finishes s status db (andThen fst next).1 := by
  obtain ⟨db₁, out⟩ := fst
  cases out with
  | error e => exact .inside inTx only (.inl rfl)
  | ok _ => exact after db₁ only

theorem commitOn_finishes {store : Storage} :
    Finishes s .committed db (db.executeCommitOn store s).1 := by
  unfold executeCommitOn
  dsimp only
  split
  · next outside => exact .outside (by simpa using outside)
  · next isIn =>
    have inTx : (db.sessions s).inTransaction = true := by simpa using isIn
    refine andThen_finishes inTx (Eq.refl _) (fun db₁ only => ?_)
    refine andThen_finishes inTx (only.trans (freezeAll_onlyTables _)) (fun db₂ only => ?_)
    have persisted := only.trans (@persist_onlyTables db₂ store (.successResult "COMMIT OK") false)
    generalize db₂.persistDirtyTables store (.successResult "COMMIT OK") false = res at persisted ⊢
    obtain ⟨db₃, _ | res⟩ := res
    · exact .inside inTx persisted (.inl rfl)
    · refine .inside inTx persisted ?_
      dsimp only
      split
      · exact .inr rfl
      · exact .inl rfl

theorem commit_finishes : Finishes s .committed db (db.executeCommit s).1 :=
  commitOn_reliable db s ▸ commitOn_finishes

theorem rollback_finishes : Finishes s .aborted db (db.executeRollback s).1 := by
  unfold executeRollback
  dsimp only
  split
  · next outside => exact .outside (by simpa using outside)
  · next isIn =>
    have inTx : (db.sessions s).inTransaction = true := by simpa using isIn
    exact andThen_finishes inTx (Eq.refl _) (fun db₁ only => .inside inTx only (.inr rfl))

end Database

end NobugDb
