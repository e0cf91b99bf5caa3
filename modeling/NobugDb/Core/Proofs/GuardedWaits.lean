import NobugDb.Core.Proofs.TableStatements

/-!
# Waiting with the database mutex

`dispatch_statement` takes the locks of a statement before it enters `run_locked`. The statements of a
trigger are dispatched by the executor, which runs there, so a trigger that writes to a table may
wait for a lock while its thread holds `db_mutex_`, and then the holder of the lock cannot go on. No
thread waits so when the executors, with the triggers they fire, ask for no locks.
-/

namespace NobugDb

open Misc (Program run run_inv_of_mem)
open Body

/-- The operation waits when it cannot be performed. -/
def Op.isAttempt : Op → Bool
  | .attempt _ _ => true
  | _ => false

theorem Database.performOn_isSome {store : Storage} {fns : Functions} {s : Nat} {db : Database}
    {op : Op} (goes : op.isAttempt = false) : (db.performOn store fns s op).isSome = true := by
  cases op with
  | attempt key mode => cases goes
  | visible name =>
    simp only [performOn, perform]
    split
    · rfl
    · split <;> rfl
  | dropIndex name =>
    simp only [performOn, perform]
    split <;> rfl
  | _ => rfl

/-- Under the mutex no lock is asked for, here and in what follows. -/
def Sections.LocksOutside : Sections → Prop
  | .done _ => True
  | .asks next => ∀ inTx, (next inTx).LocksOutside
  | .enter guarded body next =>
    (guarded = true → body.All (fun op => op.isAttempt = false)) ∧
      ∀ outcome, (next outcome).LocksOutside
  | .alter _ next => ∀ outcome, (next outcome).LocksOutside
  | .persist _ _ next => ∀ outcome, (next outcome).LocksOutside

/-- The statement's executor, its triggers included, asks for no lock, and so do those of the
    statements it runs. -/
def Command.LocksOutside : Command → Prop
  | .begin | .commit | .rollback => True
  | .query execute _ => execute.All (fun op => op.isAttempt = false)
  | .write keys execute => keys.All (fun op => op.isAttempt = false) ∧
      execute.All (fun op => op.isAttempt = false)
  | .ddl _ _ _ => True
  | .sequence first second => first.LocksOutside ∧ second.LocksOutside
  | .nested inner _ => inner.LocksOutside

namespace Sections

theorem locksOutside_onValue {α : Type} {next : α → Sections} (rest : ∀ a, (next a).LocksOutside)
    (out : Except Exn α) : (onValue next out).LocksOutside := by
  cases out with
  | ok a => exact rest a
  | error e => trivial

theorem locksOutside_finish (persists inTx : Bool) (res : QueryResult) :
    (finish persists inTx res).LocksOutside := by
  cases persists with
  | true => exact fun _ => trivial
  | false => trivial

theorem locksOutside_release {inTx : Bool} {next : Sections} (rest : next.LocksOutside) :
    (release inTx next).LocksOutside := by
  cases inTx with
  | true => exact rest
  | false => exact ⟨nofun, locksOutside_onValue (fun _ => rest)⟩

theorem LocksOutside.andThen {rest : Sections} {f : Except Exn QueryResult → Sections}
    (outside : rest.LocksOutside) (next : ∀ out, (f out).LocksOutside) :
    (rest.andThen f).LocksOutside := by
  induction rest with
  | done out => exact next out
  | asks _ ih => exact fun inTx => ih inTx (outside inTx)
  | enter _ _ _ ih => exact ⟨outside.1, fun out => ih out (outside.2 out)⟩
  | alter _ _ ih | persist _ _ _ ih => exact fun out => ih out (outside out)

end Sections

namespace Command

open Sections (locksOutside_onValue locksOutside_finish locksOutside_release)

theorem all_control {Q : Op → Prop} {op : Op} (holds : Q op) : (control op).All Q :=
  (all_perform holds).bind (fun _ => all_pure _)

/-- The locks a statement takes by itself it takes before it enters `run_locked`. -/
theorem LocksOutside.dispatch {c : Command} (outside : c.LocksOutside) : c.dispatch.LocksOutside := by
  induction c with
  | begin | commit | rollback => exact ⟨fun _ => all_control rfl, fun _ => trivial⟩
  | query execute persists =>
    intro inTx
    exact ⟨fun _ => outside, locksOutside_onValue (locksOutside_finish persists inTx)⟩
  | write keys execute =>
    intro inTx
    refine ⟨fun _ => outside.1, locksOutside_onValue (fun keys => ⟨nofun, ?_⟩)⟩
    refine locksOutside_onValue (fun _ => ⟨fun _ => outside.2, ?_⟩)
    exact locksOutside_onValue (fun res =>
      locksOutside_release (locksOutside_finish true inTx res))
  | ddl lock persists execute =>
    cases lock with
    | none =>
      intro inTx
      exact locksOutside_onValue (locksOutside_finish persists inTx)
    | some tab =>
      intro inTx
      refine ⟨nofun, locksOutside_onValue (fun _ => ?_)⟩
      exact locksOutside_onValue (fun res =>
        locksOutside_release (locksOutside_finish persists inTx res))
  | sequence fst snd first_ih second_ih =>
    apply (first_ih outside.1).andThen
    apply locksOutside_onValue
    intro res
    split
    · exact second_ih outside.2
    · trivial
  | nested inner finish ih =>
    apply (ih outside).andThen
    intro out
    trivial

/-- The statements whose executors are modelled: what they run under the mutex asks for no lock when
    their triggers ask for none. -/
theorem locksOutside_ofStatement {env : Env} {stmt : Statement}
    (trigs : env.TriggersIn (fun op => op.isAttempt = false))
    (select : ∀ query, stmt = .select query → query.body.All (fun op => op.isAttempt = false)) :
    (ofStatement env stmt).LocksOutside := by
  have onRows (op : Op) (rows : op.onRows = true) : op.isAttempt = false := by
    cases op with
    | attempt key mode => cases rows
    | _ => rfl
  have goes {op : Op} (goes : op.isAttempt = false) :
      (Body.perform op).All (fun op => op.isAttempt = false) := all_perform goes
  have preview (name : String) (cond : Option (Expr Empty)) :
      (Executor.preview.previewOf env name cond).All (fun op => op.isAttempt = false) := by
    have look : (getTable name).All (fun op => op.isAttempt = false) := all_getTable rfl
    apply look.bind
    intro hit
    cases hit with
    | none => exact all_pure _
    | some t =>
      exact (Executor.all_collect (fun _ => rfl) name t cond).bind (fun _ => all_pure _)
  cases stmt with
  | begin => trivial
  | commit => trivial
  | rollback => trivial
  | select query => exact select query rfl
  | vacuum tab | dropIndex name => exact all_control rfl
  | insert stmt =>
    exact ⟨all_pure _, @Executor.all_body env _ trigs onRows (.insert stmt) trivial⟩
  | createIndex tab name cols =>
    refine ⟨all_pure _, (goes rfl).bind (fun resp => ?_)⟩
    dsimp only
    split
    · exact all_pure _
    · split
      · exact all_pure _
      · exact ((goes rfl).bind (fun _ => all_pure _)).tryCatch (fun _ => all_pure _)
  | update stmt =>
    exact ⟨preview _ _, @Executor.all_body env _ trigs onRows (.update stmt) trivial⟩
  | delete stmt =>
    exact ⟨preview _ _, @Executor.all_body env _ trigs onRows (.delete stmt) trivial⟩

end Command

/-! ## Runs -/

namespace Dispatcher

variable {d : Dispatcher} {s : Nat} {store : Storage} {fns : Functions} {rest : Sections}

/-- No thread waits with the mutex, and no call comes to a lock with it. -/
structure Unheld (d : Dispatcher) : Prop where
  mutex : d.mutex = none
  calls : ∀ s fns rest, d.calls s = some (fns, rest) → rest.LocksOutside

theorem Unheld.setRest (unheld : d.Unheld) (outside : rest.LocksOutside) :
    (d.setRest s fns rest).Unheld := by
  refine ⟨unheld.mutex, fun t fns' rest' called => ?_⟩
  by_cases isT : t = s
  · subst isT
    have eq : (d.setRest t fns rest).calls t = some (fns, rest) := Function.update_self ..
    rw [eq] at called
    cases called
    exact outside
  · have eq : (d.setRest s fns rest).calls t = d.calls t := Function.update_of_ne isT _ _
    exact unheld.calls t fns' rest' (eq ▸ called)

theorem Unheld.finish (unheld : d.Unheld) : (d.clearActive.finish s).Unheld := by
  refine ⟨unheld.mutex, fun t fns rest called => ?_⟩
  by_cases isT : t = s
  · subst isT
    have eq : (d.clearActive.finish t).calls t = none := Function.update_self ..
    rw [eq] at called
    cases called
  · have eq : (d.clearActive.finish s).calls t = d.calls t := Function.update_of_ne isT _ _
    exact unheld.calls t fns rest (eq ▸ called)

theorem locksOutside_onDeadlock (exn : Exn) : (onDeadlock exn).LocksOutside := by
  intro inTx
  cases inTx with
  | true => exact ⟨fun _ => Command.all_control rfl, fun _ => trivial⟩
  | false => exact ⟨nofun, fun _ => trivial⟩

theorem exec_done {α : Type} {body : Body α} (goes : body.All (fun op => op.isAttempt = false))
    (db : Database) : ∃ outcome, (Program.exec (Database.performOn store fns s) db body).2 = .done outcome := by
  obtain ⟨db', outcome, runs⟩ := Program.All.ends goes
    (fun op goes db => @Database.performOn_isSome store fns s db op goes) db
  exact ⟨outcome, congrArg Prod.snd runs⟩

theorem Unheld.resume (unheld : d.Unheld) (outside : rest.LocksOutside) :
    (d.resume s store fns rest).Unheld := by
  have withDb (db : Database) : ({ d with db := db } : Dispatcher).Unheld := ⟨unheld.mutex, unheld.calls⟩
  cases rest with
  | done out =>
    cases out with
    | ok res => exact unheld.finish
    | error exn =>
      simp only [Dispatcher.resume]
      split
      · exact Unheld.setRest (withDb _) (locksOutside_onDeadlock exn)
      · exact unheld.finish
  | asks next => exact unheld.setRest (outside _)
  | enter guarded body next =>
    simp only [Dispatcher.resume]
    split
    · exact unheld
    · split
      · next db out executed =>
        have free : ({ d with db := db } : Dispatcher).unlock s = { d with db := db } :=
          if_neg (by simp [unheld.mutex])
        rw [free]
        exact (withDb db).setRest (outside.2 out)
      · next db op k executed =>
        cases guarded with
        | true =>
          -- a guarded section stops in front of an attempt only
          obtain ⟨out, ended⟩ := @exec_done s store fns _ body (outside.1 rfl) d.db
          rw [executed] at ended
          cases ended
        | false => exact (withDb db).setRest ⟨by simp, outside.2⟩
  | alter execute next | persist res inTx next =>
    simp only [Dispatcher.resume]
    split
    · exact unheld
    · exact Unheld.setRest (withDb _) (outside _)

/-- The statement of the event asks for no lock under the mutex. -/
def Event.LocksOutside : Event → Prop
  | .call _ _ command => command.LocksOutside
  | _ => True

theorem Unheld.step {e : Event} (unheld : d.Unheld) (outside : e.LocksOutside) : (d.step e).Unheld := by
  have withDb (db : Database) : ({ d with db := db } : Dispatcher).Unheld := ⟨unheld.mutex, unheld.calls⟩
  cases e with
  | call fns s command =>
    simp only [Dispatcher.step]
    split
    · exact unheld
    · exact (withDb _).setRest (Command.LocksOutside.dispatch outside)
  | resume s store =>
    simp only [Dispatcher.step]
    split
    · exact unheld
    · next fns rest called => exact unheld.resume (unheld.calls s fns rest called)
  | vacuumWorker =>
    simp only [Dispatcher.step]
    split
    · exact unheld
    · exact withDb _

/-- When no executor asks for locks, no thread ever waits for one while it holds the mutex. -/
theorem mutex_free_of_locksOutside {events : List Event} (idle : ∀ s, d.calls s = none)
    (free : d.mutex = none) (outside : ∀ e ∈ events, e.LocksOutside) :
    (run step d events).mutex = none := by
  have start : d.Unheld := by
    refine ⟨free, fun s fns rest called => ?_⟩
    rw [idle s] at called
    cases called
  have unheld : (run step d events).Unheld :=
    run_inv_of_mem (fun d e member unheld => unheld.step (outside e member)) start
  exact unheld.mutex

open Engine (account plainEnv)
open Tracked (insertInto)

def audit : Table := { account with name := "audit", directory := [] }

/-- AFTER INSERT on `account`: `INSERT INTO audit VALUES (1, 1)`, as `dispatch_statement` runs it in a
    transaction. -/
def audited : Env :=
  { plainEnv with
    fireTriggers := fun timing event name _ new =>
      if timing = .after ∧ event = .insert ∧ name = "account" then do
        Body.acquire "audit" .exclusive
        let result ← Executor.executeInsert plainEnv
          ⟨"audit", [], [[.literal (.int 1), .literal (.int 1)]]⟩
        return (result, new)
      else pure (.successResult "OK", new) }

/-- Two sessions that insert into one table, in transactions: the second waits without the mutex. -/
theorem insert_waits_without_mutex :
    (run step { db := { tables := [("account", account)] } }
      (query 0 .begin 3 ++ query 0 (insertInto "account" 2) 8 ++ query 1 .begin 3 ++
        query 1 (insertInto "account" 3) 8)).mutex = none := by
  refine mutex_free_of_locksOutside (fun _ => rfl) rfl (fun e member => ?_)
  have all : ∀ s stmt turns, (∀ query, stmt ≠ .select query) → ∀ e ∈ query s stmt turns, e.LocksOutside := by
    intro s stmt turns notSelect e member
    rcases List.mem_cons.mp member with rfl | member
    · exact Command.locksOutside_ofStatement (Env.NoTriggers.triggersIn rfl)
        (fun query same => absurd same (notSelect query))
    · rw [List.eq_of_mem_replicate member]
      trivial
  simp only [List.mem_append] at member
  rcases member with ((first | second) | third) | fourth
  · exact all 0 .begin 3 nofun e first
  · exact all 0 (insertInto "account" 2) 8 nofun e second
  · exact all 1 .begin 3 nofun e third
  · exact all 1 (insertInto "account" 3) 8 nofun e fourth

/-- Session 0 has locked `audit` in its transaction. The trigger of session 1's INSERT waits for this
    lock with the mutex, and session 0 cannot commit. -/
theorem trigger_waits_with_mutex :
    let d := run step { db := { tables := [("account", account), ("audit", audit)] } }
      (query 0 .begin 3 ++ query 0 (insertInto "audit" 2) 8 ++ query 1 .begin 3 ++
        .call audited.functions 1 (.ofStatement audited (insertInto "account" 3)) ::
          List.replicate 8 (.resume 1 Database.reliable))
    d.mutex = some 1 ∧
      ((run step d (query 0 .commit 20)).calls 0).isSome = true ∧
      ((run step d (query 0 .commit 20)).db.sessions 0).inTransaction = true := by
  refine ⟨by decide +kernel, by decide +kernel, by decide +kernel⟩

end Dispatcher

end NobugDb
