import NobugDb.Core.Proofs.EngineSteps

/-!
# Whose transaction a statement works in

The current session is one field of the database, `active_session_`. A call sets it at its
start and clears it at its end, so a call that waits goes on with what the calls in between
left there. Statements work in their own session's transaction as long as no call starts or
returns while another one still has rows to read or write.
-/

namespace NobugDb

open Misc (Program Meets)
open Database
open Option (some.inj some.injEq)

namespace Op

/-- The transaction id and snapshot a row access uses; `none` for an operation that accesses no
    rows for a session. -/
def usedReader (db : Database) : Op → Option (Nat × Option TransactionSnapshot)
  | .visible _ | .insert _ _ | .update _ _ _ => some db.reader
  | .delete _ _ inTx => some (if inTx then db.reader else (0, none))
  | .updateInPlace _ _ _ | .deleteInPlace _ _ => some (0, none)
  | _ => none

/-- The write is in place whatever the session: by a referential action, or by a DELETE that
    started outside a transaction. -/
def writesInPlace : Op → Bool
  | .delete _ _ inTx => !inTx
  | .updateInPlace _ _ _ | .deleteInPlace _ _ => true
  | _ => false

end Op

namespace Database

variable {fns : Functions} {s : Nat} {db db' : Database} {op : Op} {resp : Response}

theorem lockTxnId_active : (db.ensureLockTxnId s).activeSession = db.activeSession := by
  unfold ensureLockTxnId
  split <;> rfl

theorem releaseLocks_active : (db.releaseSessionLocks s).activeSession = db.activeSession := by
  unfold releaseSessionLocks
  split <;> rfl

theorem endSession_active : (db.endSession s).activeSession = db.activeSession :=
  releaseLocks_active

theorem Finishes.activeSession {status : TransactionStatus} (finishes : Finishes s status db db') :
    db'.activeSession = db.activeSession := by
  cases finishes with
  | outside _ => rfl
  | inside _ only ended =>
    obtain rfl | rfl := ended
    · exact only.activeSession
    · exact endSession_active.trans only.activeSession

theorem perform_active (ran : db.perform fns s op = some (db', resp)) :
    db'.activeSession = db.activeSession := by
  cases op with
  | begin =>
    simp only [perform, executeBegin] at ran
    split at ran <;> (cases ran; rfl)
  | commit =>
    have after := respondWith_fst_eq (some.inj ran)
    exact after ▸ commit_finishes.activeSession
  | rollback =>
    have after := respondWith_fst_eq (some.inj ran)
    exact after ▸ rollback_finishes.activeSession
  | request key mode => cases ran; exact lockTxnId_active
  | attempt key mode =>
    simp only [perform] at ran
    split at ran <;> cases ran <;> rfl
  | release => cases ran; exact releaseLocks_active
  | _ => exact (perform_onlyTables rfl ran).activeSession

end Database

/-- The statement may still read or write rows. -/
def Phase.ahead : Phase → Bool
  | .preview _ | .locking _ | .body _ => true
  | _ => false

namespace Engine

variable {e : Engine} {s : Nat} {call : Call}

/-- No other session's statement has row accesses ahead of it. -/
def NoneAhead (e : Engine) (s : Nat) : Prop :=
  ∀ other call, e.calls other = some call → other ≠ s → call.phase.ahead = false

/-- A call starts or returns only when no other one has accesses ahead of it. -/
def Apart (e : Engine) : Action → Prop
  | .call _ s _ => e.calls s = none → e.NoneAhead s
  | .resume s =>
    ∀ call result, e.calls s = some call → call.phase = .done result → e.NoneAhead s
  | .vacuumWorker => True

/-- A session in a transaction makes no write that is in place whatever the session. -/
def Versioned (e : Engine) : Action → Prop
  | .resume s =>
    ∀ access ∈ e.performed s, access.2.writesInPlace = true →
      (access.1.sessions s).inTransaction = false
  | _ => True

instance (e : Engine) : (a : Action) → Decidable (e.Versioned a)
  | .resume s => inferInstanceAs (Decidable (∀ access ∈ e.performed s, _ → _))
  | .call _ _ _ => .isTrue trivial
  | .vacuumWorker => .isTrue trivial

/-- The two conditions under which statements find their own session. -/
def Separate (e : Engine) (a : Action) : Prop := e.Apart a ∧ e.Versioned a

/-- Every access of the action uses the transaction id and the snapshot of the session whose
    call it is. -/
def UsesOwnSession (e : Engine) : Action → Prop
  | .resume s =>
    ∀ access ∈ e.performed s,
      access.2.usedReader access.1 = none ∨
        access.2.usedReader access.1 = some (Database.readerOf (access.1.sessions s))
  | _ => True

instance (e : Engine) : (a : Action) → Decidable (e.UsesOwnSession a)
  | .resume s => inferInstanceAs (Decidable (∀ access ∈ e.performed s, _ ∨ _))
  | .call _ _ _ => .isTrue trivial
  | .vacuumWorker => .isTrue trivial

/-- A call with accesses ahead of it has `active_session_`. -/
def OwnsActive (e : Engine) : Prop :=
  ∀ s call, e.calls s = some call → call.phase.ahead = true → e.db.activeSession = some s

/-- Two calls never both have accesses ahead of them. -/
theorem OwnsActive.noneAhead (owns : e.OwnsActive) (inCall : e.calls s = some call)
    (ahead : call.phase.ahead = true) : e.NoneAhead s := by
  intro other otherCall otherIn ne
  by_contra otherAhead
  have mine := owns s call inCall ahead
  have theirs := owns other otherCall otherIn (by simpa using otherAhead)
  rw [mine] at theirs
  exact ne (some.inj theirs).symm

/-- When nobody else has accesses ahead, what matters is the session's own next phase. -/
theorem ownsActive_of_noneAhead {e' : Engine} (none : e.NoneAhead s)
    (others : ∀ ne, ne ≠ s → e'.calls ne = e.calls ne)
    (own : ∀ call, e'.calls s = some call → call.phase.ahead = true →
      e'.db.activeSession = some s) : e'.OwnsActive := by
  intro ne otherCall inCall ahead
  by_cases eq : ne = s
  · subst eq
    exact own otherCall inCall ahead
  · rw [others ne eq] at inCall
    rw [none ne otherCall inCall eq] at ahead
    cases ahead

theorem afterProgram_active {α : Type} (rest : Body α) :
    (e.afterProgram s call rest).activeSession = e.db.activeSession := by
  refine @Program.exec_inv _ _ _ _ (Database.perform call.env.functions s)
    (fun db => db.activeSession = e.db.activeSession) rest e.db ?_ rfl
  intro acc _ db' resp ran kept
  exact (perform_active ran).trans kept

theorem handle_ahead {exn : Exn} {next : Call}
    (after : (e.handle s call exn).calls s = some next) : next.phase.ahead = false := by
  unfold handle at after
  split at after
  · rw [setPhase_calls_self, Option.some.injEq] at after
    rw [← after]
    rfl
  all_goals
    rw [finish_calls_self] at after
    cases after

/-- The program of a call leaves `active_session_` alone as long as the call has more to do. -/
theorem advance_ahead {α : Type} (rest : Body α) {waits : Engine → Body α → Engine}
    {next : Engine → α → Engine} (waitsKeep : ∀ e' rest', (waits e' rest').db = e'.db)
    (nextKeeps : ∀ (e' : Engine) a, (next e' a).db.activeSession = e'.db.activeSession)
    {after : Call} (inCall : (e.advance s call rest waits next).calls s = some after)
    (ahead : after.phase.ahead = true) :
    (e.advance s call rest waits next).db.activeSession = e.db.activeSession := by
  revert inCall
  refine advance_cases (P := fun e' => e'.calls s = some after →
    e'.db.activeSession = e.db.activeSession) rest ?_ ?_ ?_
  · intro e' rest' eq _ _
    rw [waitsKeep, eq, afterProgram_active]
  · intro e' a eq _ _
    rw [nextKeeps, eq, afterProgram_active]
  · intro e' exn _ _ inCall
    rw [handle_ahead inCall] at ahead
    cases ahead

theorem leaveBody_active (res : QueryResult) :
    (e.leaveBody s call res).db.activeSession = e.db.activeSession := by
  unfold leaveBody
  simp only [setPhase]
  split
  · exact releaseLocks_active
  · rfl

/-- After a step, a call with accesses ahead had them before, and `active_session_` is as it was. -/
theorem resume_ahead (inCall : e.calls s = some call) {next : Call}
    (after : (e.resume s call).calls s = some next) (ahead : next.phase.ahead = true) :
    call.phase.ahead = true ∧ (e.resume s call).db.activeSession = e.db.activeSession := by
  unfold resume at after ⊢
  cases phase : call.phase with
  | preview rest =>
    simp only [phase] at after ⊢
    refine ⟨rfl, ?_⟩
    split at after
    · simp_all
    · simp_all only [Bool.not_eq_true, Bool.false_eq_true, if_false]
      exact advance_ahead rest (fun _ _ => rfl) (fun _ _ => rfl) after ahead
  | locking rest =>
    simp only [phase] at after ⊢
    exact ⟨rfl, advance_ahead rest (fun _ _ => rfl) (fun _ _ => rfl) after ahead⟩
  | body rest =>
    simp only [phase] at after ⊢
    refine ⟨rfl, ?_⟩
    split at after
    · simp_all
    · simp_all only [Bool.not_eq_true, Bool.false_eq_true, if_false]
      exact advance_ahead rest (fun _ _ => rfl) (fun _ _ => leaveBody_active _) after ahead
  | persist res =>
    exfalso
    simp only [phase] at after
    split at after
    · rw [setPhase_calls_self, some.injEq] at after
      rw [← after] at ahead
      cases ahead
    · split at after
      · rw [inCall, some.injEq] at after
        rw [← after, phase] at ahead
        cases ahead
      · rw [setPhase_calls_self, some.injEq] at after
        rw [← after] at ahead
        cases ahead
  | done res =>
    simp only [phase, finish_calls_self] at after
    cases after
  | deadlocked exn =>
    exfalso
    simp only [phase] at after
    split at after
    · split at after
      · rw [inCall, some.injEq] at after
        rw [← after, phase] at ahead
        cases ahead
      · rw [finish_calls_self] at after
        cases after
    · rw [finish_calls_self] at after
      cases after

/-- A call without accesses ahead of it changes `active_session_` only at its end. -/
theorem resume_active_of_behind (behind : call.phase.ahead = false)
    (open_ : ∀ res, call.phase ≠ .done res) :
    (e.resume s call).db.activeSession = e.db.activeSession := by
  unfold resume
  cases phase : call.phase with
  | persist res =>
    simp only
    split
    · rfl
    · split <;> rfl
  | done res => exact absurd phase (open_ res)
  | deadlocked exn =>
    simp only
    split
    · split
      · rfl
      · exact rollback_finishes.activeSession
    · exact releaseLocks_active
  | _ =>
    rw [phase] at behind
    cases behind

theorem ownsActive_step (owns : e.OwnsActive) {a : Action} (apart : e.Apart a) :
    (e.step a).OwnsActive := by
  cases a with
  | call env s stmt =>
    simp only [step]
    cases inCall : e.calls s with
    | some call => exact owns
    | none =>
      refine ownsActive_of_noneAhead (apart inCall) ?_ (fun _ _ _ => rfl)
      exact fun other ne => Function.update_of_ne ne _ _
  | resume s =>
    simp only [step]
    cases inCall : e.calls s with
    | none => exact owns
    | some call =>
      have others : ∀ other, other ≠ s → (e.resume s call).calls other = e.calls other :=
        fun other ne => resume_calls_other ne
      cases ahead : call.phase.ahead with
      | true =>
        refine ownsActive_of_noneAhead (owns.noneAhead inCall ahead) others ?_
        intro next after nextAhead
        rw [(resume_ahead inCall after nextAhead).2]
        exact owns s call inCall ahead
      | false =>
        have own : ∀ next, (e.resume s call).calls s = some next →
            next.phase.ahead = true → (e.resume s call).db.activeSession = some s := by
          intro next after nextAhead
          rw [(resume_ahead inCall after nextAhead).1] at ahead
          cases ahead
        by_cases returns : ∃ res, call.phase = .done res
        · obtain ⟨res, isDone⟩ := returns
          exact ownsActive_of_noneAhead (apart call res inCall isDone) others own
        · -- Nothing touches `active_session_`, so the other calls keep it.
          have same := resume_active_of_behind (e := e) (s := s) ahead
            (fun res isDone => returns ⟨res, isDone⟩)
          intro other otherCall otherIn otherAhead
          by_cases mine : other = s
          · subst mine
            exact own otherCall otherIn otherAhead
          · rw [others other mine] at otherIn
            rw [same]
            exact owns other otherCall otherIn otherAhead
  | vacuumWorker =>
    simp only [step]
    split <;> exact owns

theorem ahead_of_performed {acc : Database × Op} (ran : acc ∈ e.performed s) :
    ∃ call, e.calls s = some call ∧ call.phase.ahead = true := by
  unfold performed at ran
  cases inCall : e.calls s with
  | none => simp [inCall] at ran
  | some call =>
    refine ⟨call, rfl, ?_⟩
    simp only [inCall] at ran
    cases phase : call.phase <;> simp [phase, Phase.ahead] at ran ⊢

/-- Statements find their own session in `active_session_`. -/
theorem OwnsActive.performed (owns : e.OwnsActive) {acc : Database × Op}
    (ran : acc ∈ e.performed s) : acc.1.activeSession = some s := by
  obtain ⟨call, inCall, ahead⟩ := ahead_of_performed ran
  refine performed_inv (I := fun db => db.activeSession = some s) inCall ?_
    (owns s call inCall ahead) acc ran
  intro acc _ db' resp ran kept
  exact (perform_active ran).trans kept

theorem usesOwnSession_of_owns (owns : e.OwnsActive) {a : Action} (vers : e.Versioned a) :
    e.UsesOwnSession a := by
  cases a with
  | resume s =>
    intro acc performs
    have active := owns.performed performs
    have reader : acc.1.reader = readerOf (acc.1.sessions s) := by
      simp only [Database.reader, active]
    have inPlace := vers acc performs
    obtain ⟨db, op⟩ := acc
    have nobody : op.writesInPlace = true → readerOf (db.sessions s) = (0, none) := by
      intro h
      have outside : (db.sessions s).inTransaction = false := inPlace h
      simp [readerOf, outside]
    cases op with
    | visible _ | insert _ _ | update _ _ _ => exact .inr (congrArg some reader)
    | delete _ _ inTx =>
      refine .inr ?_
      cases inTx with
      | true => exact congrArg some reader
      | false => exact congrArg some (nobody rfl).symm
    | updateInPlace _ _ _ | deleteInPlace _ _ => exact .inr (congrArg some (nobody rfl).symm)
    | _ => exact .inl rfl
  | _ => trivial

/-- In every run whose calls start and return only when no other call has accesses ahead of
    it, and whose transactions write no row in place, every access uses the transaction of the
    session that issued the statement. -/
theorem separate_uses_own_session (start : Database) (actions : List Action)
    (separate : Meets step Separate { db := start } actions) :
    Meets step UsesOwnSession { db := start } actions :=
  Meets.of_inv (fun _ _ owns ok => ownsActive_step owns ok.1)
    (fun _ _ owns ok => usesOwnSession_of_owns owns ok.2) separate
    (fun _ _ inCall => by cases inCall)

/-- Only one session has calls. -/
def Alone (e : Engine) (s : Nat) : Prop := ∀ other, other ≠ s → e.calls other = none

def Action.IsOf (s : Nat) : Action → Prop
  | .call _ caller _ => caller = s
  | .resume caller => caller = s
  | .vacuumWorker => True

theorem Alone.noneAhead (alone : e.Alone s) : e.NoneAhead s := by
  intro other call inCall ne
  rw [alone other ne] at inCall
  cases inCall

theorem alone_step (alone : e.Alone s) {a : Action} (own : Action.IsOf s a) : (e.step a).Alone s := by
  intro other ne
  cases a with
  | call env caller stmt =>
    obtain rfl : caller = s := own
    simp only [step]
    split
    · exact alone other ne
    · exact (Function.update_of_ne ne _ _).trans (alone other ne)
  | resume caller =>
    obtain rfl : caller = s := own
    simp only [step]
    split
    · exact alone other ne
    · exact (resume_calls_other ne).trans (alone other ne)
  | vacuumWorker =>
    simp only [step]
    split <;> exact alone other ne

theorem apart_of_alone (alone : e.Alone s) {a : Action} (own : Action.IsOf s a) : e.Apart a := by
  cases a with
  | call env caller stmt =>
    obtain rfl : caller = s := own
    exact fun _ => alone.noneAhead
  | resume caller =>
    obtain rfl : caller = s := own
    exact fun _ _ _ _ => alone.noneAhead
  | vacuumWorker => trivial

/-- A session that has the database for itself meets the first condition. -/
theorem apart_of_single_session {ok : Engine → Action → Prop} {start : Database}
    {actions : List Action} (s : Nat) (own : ∀ a ∈ actions, Action.IsOf s a)
    (meets : Meets step ok { db := start } actions) :
    Meets step (fun e a => e.Apart a ∧ ok e a) { db := start } actions :=
  Meets.of_inv (fun _ _ alone ok => alone_step alone ok.2)
    (fun _ _ alone ok => ⟨apart_of_alone alone ok.2, ok.1⟩) (meets.and_forall own)
    (fun _ _ => rfl)

/-! ## Two sessions updating one row -/

/-- No functions, and no triggers. -/
def plainEnv : Env where
  functions :=
    { callFunction := fun name _ _ => .error ⟨.notFound, "Function '" ++ name ++ "' not found"⟩
      stringToValue := fun text _ => .ok (.string text) }

def account : Table where
  name := "account"
  columns := [⟨"id", .int, true, false, false, none⟩, ⟨"balance", .int, true, false, false, none⟩]
  directory := [some ⟨[.int 1, .int 10], 0, 0⟩]

/-- `UPDATE account SET balance = amount WHERE id = 1`. -/
def setBalance (amount : Int) : Statement :=
  .update ⟨"account", [("balance", .literal (.int amount))],
    some (.binary .eq (.columnRef "" "id") (.literal (.int 1)))⟩

/-- A call of `execute_query` and `turns` steps of it. -/
def query (s : Nat) (statement : Statement) (turns : Nat) : List Action :=
  .call plainEnv s statement :: List.replicate turns (.resume s)

/-- One session in a transaction of its own. -/
theorem single_update_uses_own_session :
    Meets step UsesOwnSession { db := { tables := [("account", account)] } }
      (query 0 .begin 2 ++ query 0 (setBalance 20) 5 ++ query 0 .commit 2) :=
  separate_uses_own_session _ _
    (@apart_of_single_session Versioned _ _ 0 (by simp [query, Action.IsOf])
      (by decide +kernel))

/-- Sessions 0 and 1 begin, 1 updates the row, and 0's update of it waits for the row lock. 1
    commits, and its call clears `active_session_` as it returns. 0 goes on and reads and
    writes for no session, though it is in a transaction. -/
theorem waiting_update_loses_session :
    ¬ Meets step UsesOwnSession { db := { tables := [("account", account)] } }
      (query 0 .begin 2 ++ query 1 .begin 2 ++ query 1 (setBalance 20) 5 ++
        query 0 (setBalance 30) 2 ++ query 1 .commit 2 ++ [.resume 0, .resume 0]) := by
  decide +kernel

end Engine

end NobugDb
