import NobugDb.Core.Proofs.DispatcherSteps

/-!
# What a statement has locked

The sections of a call do not say which statement they are of. Here they carry, where a statement
takes effect, the keys it has locked before; without these marks they are what `dispatch_statement`
does, and a call and its marks go on together.
-/

namespace NobugDb

open Misc (AssocMap Program)
open Function (update_of_ne update_self)
open Dispatcher (setRest resume)

/-! ## Sections and what they have locked -/

/-- `Sections`, with the keys a statement has locked at the section in which it takes effect. -/
inductive Marked where
  | done (outcome : Except Exn QueryResult)
  | asks (next : Bool → Marked)
  | enter {α : Type} (locked : List String) (guarded : Bool) (body : Body α)
      (next : Except Exn α → Marked)
  | alter (locked : List String)
      (execute : AssocMap String Table → AssocMap String Table × Except Exn QueryResult)
      (next : Except Exn QueryResult → Marked)
  | persist (result : QueryResult) (inTx : Bool) (next : Except Exn QueryResult → Marked)

namespace Marked

def erase : Marked → Sections
  | .done outcome => .done outcome
  | .asks next => .asks (fun inTx => (next inTx).erase)
  | .enter _ guarded body next => .enter guarded body (fun outcome => (next outcome).erase)
  | .alter _ execute next => .alter execute (fun outcome => (next outcome).erase)
  | .persist result inTx next => .persist result inTx (fun outcome => (next outcome).erase)

/-- What follows a section that returns. -/
def onValue {α : Type} (next : α → Marked) : Except Exn α → Marked
  | .ok a => next a
  | .error e => .done (.error e)

def andThen : Marked → (Except Exn QueryResult → Marked) → Marked
  | .done outcome, f => f outcome
  | .asks next, f => .asks (fun inTx => (next inTx).andThen f)
  | .enter locked guarded body next, f =>
    .enter locked guarded body (fun outcome => (next outcome).andThen f)
  | .alter locked execute next, f => .alter locked execute (fun outcome => (next outcome).andThen f)
  | .persist result inTx next, f =>
    .persist result inTx (fun outcome => (next outcome).andThen f)

/-- `if (!in_tx) release_session_locks(session)`. -/
def release (inTx : Bool) (next : Marked) : Marked :=
  if inTx then next else .enter [] false (Body.perform .release) (onValue (fun _ => next))

/-- The end of a branch. -/
def finish (persists inTx : Bool) (result : QueryResult) : Marked :=
  if persists then .persist result inTx .done else .done (.ok result)

/-- The handler of `DeadlockException`. -/
def onDeadlock (exn : Exn) : Marked :=
  let result : Marked := .done (.ok (.errorResult exn.what))
  .asks (fun inTx =>
    if inTx then .enter [] true (Command.control .rollback) (fun _ => result)
    else .enter [] false (Body.perform .release) (fun _ => result))

end Marked

/-- `Command.dispatch` with the keys: a statement takes effect in its executor, after it has locked
    them. -/
def Command.marked : Command → Marked
  | .begin => .enter [] true (control .begin) .done
  | .commit => .enter [] true (control .commit) .done
  | .rollback => .enter [] true (control .rollback) .done
  | .query execute persists =>
    .asks (fun inTx => .enter [] true execute (Marked.onValue (Marked.finish persists inTx)))
  | .write keys execute =>
    .asks (fun inTx =>
      .enter [] true keys (Marked.onValue (fun keys =>
        .enter [] false (acquireAll keys) (Marked.onValue (fun _ =>
          .enter keys true execute (Marked.onValue (fun result =>
            Marked.release inTx (Marked.finish true inTx result))))))))
  | .ddl none persists execute =>
    .asks (fun inTx => .alter [] execute (Marked.onValue (Marked.finish persists inTx)))
  | .ddl (some table) persists execute =>
    .asks (fun inTx =>
      .enter [] false (acquireAll [table]) (Marked.onValue (fun _ =>
        .alter [table] execute (Marked.onValue (fun result =>
          Marked.release inTx (Marked.finish persists inTx result))))))
  | .sequence first second =>
    first.marked.andThen (Marked.onValue (fun result =>
      if result.success then second.marked else .done (.ok result)))
  | .nested inner finish => inner.marked.andThen (fun outcome => .done (outcome.map finish))

namespace Marked

theorem erase_onValue {α : Type} (next : α → Marked) (outcome : Except Exn α) :
    (onValue next outcome).erase = Sections.onValue (fun a => (next a).erase) outcome := by
  cases outcome <;> rfl

theorem erase_andThen (m : Marked) (f : Except Exn QueryResult → Marked) :
    (m.andThen f).erase = m.erase.andThen (fun out => (f out).erase) := by
  induction m with
  | done out => rfl
  | asks next ih => exact congrArg Sections.asks (funext ih)
  | enter locked guarded body next ih => exact congrArg (Sections.enter guarded body) (funext ih)
  | alter locked execute next ih => exact congrArg (Sections.alter execute) (funext ih)
  | persist res inTx next ih => exact congrArg (Sections.persist res inTx) (funext ih)

theorem erase_finish (persists inTx : Bool) (result : QueryResult) :
    (finish persists inTx result).erase = Sections.finish persists inTx result := by
  cases persists <;> rfl

theorem erase_release (inTx : Bool) (next : Marked) :
    (release inTx next).erase = Sections.release inTx next.erase := by
  cases inTx with
  | true => rfl
  | false => exact congrArg (Sections.enter false _) (funext (erase_onValue _))

theorem erase_onDeadlock (exn : Exn) : (onDeadlock exn).erase = Dispatcher.onDeadlock exn := by
  refine congrArg Sections.asks (funext fun inTx => ?_)
  cases inTx <;> rfl

end Marked

open Marked (erase erase_onValue erase_finish erase_release erase_andThen)

/-- The marks are beside what `dispatch_statement` does. -/
theorem Command.erase_marked (c : Command) : c.marked.erase = c.dispatch := by
  induction c with
  | begin => rfl
  | commit => rfl
  | rollback => rfl
  | query execute persists =>
    simp only [marked, dispatch, erase, erase_onValue, erase_finish]
  | write keys execute =>
    simp only [marked, dispatch, erase, erase_onValue, erase_release,
      erase_finish]
  | ddl lock persists execute =>
    cases lock with
    | none => simp only [marked, dispatch, erase, erase_onValue, erase_finish]
    | some tab =>
      simp only [marked, dispatch, erase, erase_onValue, erase_release,
        erase_finish]
  | sequence fst second first_ih second_ih =>
    simp only [marked, dispatch, erase_andThen, first_ih, erase_onValue]
    refine congrArg _ (funext fun out => congrArg (Sections.onValue · out) (funext fun result => ?_))
    split
    · exact second_ih
    · rfl
  | nested inner finish ih =>
    simp only [marked, dispatch, erase_andThen, ih, erase]

/-! ## Calls with their marks -/

/-- The marks of a call that goes on, none when it returns. -/
def Marked.proceed (d : Dispatcher) (s : Nat) (storage : Storage) (fns : Functions) :
    Marked → Option Marked
  | .done (.ok _) => none
  | .done (.error exn) =>
    match exn.kind with
    | .deadlock => some (.onDeadlock exn)
    | _ => none
  | .asks next => some (next (d.db.sessions s).inTransaction)
  | .enter locked guarded body next =>
    if guarded && d.blocked s then some (.enter locked guarded body next)
    else
      match Program.exec (Database.performOn storage fns s) d.db body with
      | (_, .done outcome) => some (next outcome)
      | (_, .perform op k) => some (.enter locked guarded (Program.perform op k) next)
  | .alter locked execute next =>
    if d.blocked s then some (.alter locked execute next)
    else some (next (execute d.db.tables).2)
  | .persist result inTx next =>
    if d.blocked s then some (.persist result inTx next)
    else some (next (d.db.persistDirtyTables storage result inTx).2)

/-- The dispatcher with the marks of the calls in progress. -/
structure Tracked where
  dispatcher : Dispatcher
  marks : Nat → Option Marked := fun _ => none

namespace Tracked

open Dispatcher (Event)

def db (tr : Tracked) : Database := tr.dispatcher.db

def step (tr : Tracked) (e : Event) : Tracked where
  dispatcher := tr.dispatcher.step e
  marks :=
    match e with
    | .call _ s command =>
      match tr.dispatcher.calls s with
      | some _ => tr.marks
      | none => Function.update tr.marks s (some command.marked)
    | .resume s storage =>
      match tr.dispatcher.calls s with
      | some (fns, _) =>
        Function.update tr.marks s ((tr.marks s).bind (Marked.proceed tr.dispatcher s storage fns))
      | none => tr.marks
    | .vacuumWorker => tr.marks

/-- The keys locked by the statement of the session that takes effect when its call goes on. -/
def takesEffect (tr : Tracked) (s : Nat) : List String :=
  match tr.marks s with
  | some (.enter locked guarded _ _) => if guarded && tr.dispatcher.blocked s then [] else locked
  | some (.alter locked _ _) => if tr.dispatcher.blocked s then [] else locked
  | _ => []

def Agrees (tr : Tracked) : Prop :=
  ∀ s, (tr.dispatcher.calls s).map Prod.snd = (tr.marks s).map Marked.erase

variable {tr : Tracked} {s : Nat} {storage : Storage} {fns : Functions}

theorem resume_agrees {d : Dispatcher} {m : Marked} (called : d.calls s = some (fns, m.erase)) :
    ((d.resume s storage fns m.erase).calls s).map Prod.snd =
      (m.proceed d s storage fns).map erase := by
  have goesOn (d' : Dispatcher) (rest : Sections) :
      ((d'.setRest s fns rest).calls s).map Prod.snd = some rest := by
    simp only [setRest, update_self, Option.map_some]
  have returns : ((d.clearActive.finish s).calls s).map Prod.snd = none := by
    simp only [Dispatcher.finish, update_self, Option.map_none]
  have stays : (d.calls s).map Prod.snd = some m.erase := congrArg (Option.map Prod.snd) called
  cases m with
  | done out =>
    cases out with
    | ok res => exact returns
    | error exn =>
      cases kind : exn.kind with
      | deadlock =>
        simp only [erase, resume, Marked.proceed, kind]
        rw [goesOn, Option.map_some, Marked.erase_onDeadlock]
      | _ =>
        simp only [erase, resume, Marked.proceed, kind]
        exact returns
  | asks next => exact goesOn _ _
  | enter locked guarded body next =>
    simp only [erase, resume, Marked.proceed]
    split
    · exact stays
    · cases Program.exec (Database.performOn storage fns s) d.db body with
      | mk db rest =>
        cases rest with
        | done out | perform op k => exact goesOn _ _
  | alter locked execute next | persist res inTx next =>
    simp only [erase, resume, Marked.proceed]
    split
    · exact stays
    · exact goesOn _ _

theorem Agrees.step (agrees : tr.Agrees) (e : Event) : (tr.step e).Agrees := by
  intro t
  have before := agrees t
  cases e with
  | call fns s command =>
    simp only [Tracked.step, Dispatcher.step]
    cases called : tr.dispatcher.calls s with
    | some call => exact before
    | none =>
      dsimp only
      by_cases isT : t = s
      · rw [isT, update_self]
        simp only [setRest, update_self, Option.map_some, Command.erase_marked]
      · rw [update_of_ne isT, ← before]
        exact congrArg (Option.map Prod.snd) (update_of_ne isT _ _)
  | vacuumWorker =>
    simp only [Tracked.step, Dispatcher.step]
    split <;> exact before
  | resume s storage =>
    simp only [Tracked.step, Dispatcher.step]
    cases called : tr.dispatcher.calls s with
    | none => exact before
    | some call =>
      obtain ⟨fns, rest⟩ := call
      dsimp only
      by_cases isT : t = s
      · subst isT
        rw [update_self]
        rw [called] at before
        cases marked : tr.marks t with
        | none => rw [marked] at before; cases before
        | some m =>
          rw [marked, Option.map_some, Option.map_some, Option.some.injEq] at before
          subst before
          exact resume_agrees called
      · rw [update_of_ne isT, ← before]
        exact congrArg (Option.map Prod.snd) (Dispatcher.resume_calls_of_ne isT)

end Tracked

end NobugDb
