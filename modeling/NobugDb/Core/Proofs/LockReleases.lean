import NobugDb.Core.Proofs.LockCustody
import NobugDb.Executor.Proofs.Atomicity

/-!
# Locks after a call

Outside a transaction a call gives its locks back when its statement returns a result, and when it
ends with a deadlock. It does not when another exception leaves the executor: the handlers of
`execute_query` only clear `active_session_`. Apart from that, a session that is not in a
transaction holds no locks between its calls, whatever its calls run and however calls interleave.
-/

namespace NobugDb

open Misc (AssocMap Meets Program run)
open Body

/-! ## Sections -/

/-- A section, or what follows it, is in order when the session stands as given: whatever comes of
    it, the session is settled at the end. What an exception other than a deadlock does outside a
    transaction is left to the condition on the run. -/
inductive Settles : Standing → Sections → Prop
  | done {standing : Standing} {outcome : Except Exn QueryResult} :
      (standing = .outside → ∃ e : Exn, outcome = .error e ∧ e.kind = .deadlock) →
      Settles standing (.done outcome)
  | asks {standing : Standing} {next : Bool → Sections} : standing ≠ .outside →
      Settles .inside (next true) → Settles .outside (next false) → Settles standing (.asks next)
  | asksOutside {next : Bool → Sections} :
      Settles .outside (next false) → Settles .outside (.asks next)
  | asksCalm {standing : Standing} {next : Bool → Sections} : standing ≠ .outside →
      (∀ inTx, Settles .settled (next inTx)) → Settles standing (.asks next)
  | plain {standing : Standing} {α : Type} {guarded : Bool} {body : Body α}
      {next : Except Exn α → Sections} : standing ≠ .outside → body.All (fun op => op.isPlain = true) →
      (∀ outcome, Settles .settled (next outcome)) → Settles standing (.enter guarded body next)
  | works {standing : Standing} {α : Type} {guarded : Bool} {body : Body α}
      {next : Except Exn α → Sections} : standing ≠ .settled →
      body.All (fun op => op.keepsTransaction = true) → (∀ a, Settles standing (next (.ok a))) →
      (∀ e : Exn, (standing = .outside → e.kind = .deadlock) → Settles standing (next (.error e))) →
      (∀ e, Settles .settled (next (.error e))) → Settles standing (.enter guarded body next)
  | controls {standing : Standing} {op : Op} {α : Type} {guarded : Bool} {body : Body α}
      {next : Except Exn α → Sections} : standing ≠ .outside → op.keepsTransaction = false →
      Single op body → (∀ outcome, Settles .settled (next outcome)) →
      Settles standing (.enter guarded body next)
  | releases {α : Type} {guarded : Bool} {body : Body α} {next : Except Exn α → Sections} :
      Single .release body → (∀ outcome, Settles .settled (next outcome)) →
      Settles .outside (.enter guarded body next)
  | alter {standing : Standing}
      {execute : AssocMap String Table → AssocMap String Table × Except Exn QueryResult}
      {next : Except Exn QueryResult → Sections} : (∀ result, Settles standing (next (.ok result))) →
      (∀ e : Exn, (standing = .outside → e.kind = .deadlock) → Settles standing (next (.error e))) →
      (∀ e, Settles .settled (next (.error e))) → Settles standing (.alter execute next)
  | persist {standing : Standing} {result : QueryResult} {inTx : Bool}
      {next : Except Exn QueryResult → Sections} : standing ≠ .outside →
      (∀ outcome, Settles standing (next outcome)) → Settles standing (.persist result inTx next)

variable {α : Type} {guarded : Bool} {body : Body α} {op : Op}

namespace Settles

variable {standing : Standing} {rest : Sections}

theorem done_error (e : Exn) (deadlock : standing = .outside → e.kind = .deadlock) :
    Settles standing (.done (.error e)) :=
  .done (fun outside => ⟨e, rfl, deadlock outside⟩)

theorem settled_done (out : Except Exn QueryResult) : Settles .settled (.done out) := .done nofun

theorem inside (settles : Settles standing rest) (settled : standing = .settled) :
    Settles .inside rest := by
  induction settles with
  | done _ => exact .done nofun
  | asks _ fst snd _ _ => exact .asks nofun fst snd
  | asksOutside _ _ => cases settled
  | asksCalm _ next _ => exact .asksCalm nofun next
  | plain _ all next _ => exact .plain nofun all next
  | works working _ _ _ _ _ _ _ => exact absurd settled working
  | controls _ control single next _ => exact .controls nofun control single next
  | releases _ _ _ => cases settled
  | alter _ _ later ok _ error =>
    exact .alter (fun res => ok res settled) (fun e _ => error e rfl) later
  | persist _ _ ih => exact .persist nofun (fun out => ih out settled)

theorem onValue {next : α → Sections}
    (working : standing ≠ .settled) (all : body.All (fun op => op.keepsTransaction = true))
    (rest : ∀ a, Settles standing (next a)) :
    Settles standing (.enter guarded body (Sections.onValue next)) :=
  .works working all rest done_error (fun _ => settled_done _)

theorem andThen {f : Except Exn QueryResult → Sections} (settles : Settles standing rest)
    (onError : ∀ e, f (.error e) = .done (.error e)) (onResult : ∀ r, Settles .settled (f (.ok r))) :
    Settles standing (rest.andThen f) := by
  induction settles with
  | @done standing out ends =>
    cases out with
    | error e =>
      show Settles standing (f (.error e))
      rw [onError]
      exact .done ends
    | ok r =>
      show Settles standing (f (.ok r))
      cases standing with
      | settled => exact onResult r
      | inside => exact (onResult r).inside rfl
      | outside =>
        obtain ⟨e, eq, -⟩ := ends rfl
        cases eq
  | asks calm _ _ fst snd => exact .asks calm fst snd
  | asksOutside _ ih => exact .asksOutside ih
  | asksCalm calm _ ih => exact .asksCalm calm ih
  | plain calm all _ ih => exact .plain calm all ih
  | works working all _ _ _ ok deadlock error => exact .works working all ok deadlock error
  | controls calm control single _ ih => exact .controls calm control single ih
  | releases single _ ih => exact .releases single ih
  | alter _ _ _ ok deadlock error => exact .alter ok deadlock error
  | persist calm _ ih => exact .persist calm ih

theorem finish (persists inTx : Bool) (res : QueryResult) (calm : standing ≠ .outside) :
    Settles standing (Sections.finish persists inTx res) := by
  unfold Sections.finish
  split
  · exact .persist calm (fun out => .done (fun outside => absurd outside calm))
  · exact .done (fun outside => absurd outside calm)

theorem release {next : Sections} (settled : Settles .settled next) :
    Settles .outside (Sections.release false next) := by
  refine .releases (single_perform .release) (fun out => ?_)
  cases out with
  | error e => exact settled_done _
  | ok _ => exact settled

theorem all_acquireAll (keys : List String) :
    (Command.acquireAll keys).All (fun op => op.keepsTransaction = true) := by
  refine all_forEach (fun key _ => ?_)
  have asks : (Body.perform (.request key .exclusive)).All (fun op => op.keepsTransaction = true) :=
    all_perform rfl
  have waits : (Body.perform (.attempt key .exclusive)).All (fun op => op.keepsTransaction = true) :=
    all_perform rfl
  refine asks.bind (fun resp => ?_)
  split
  · exact all_pure _
  · exact waits.bind (fun _ => all_pure _)

end Settles

namespace Command

open Sections (onValue finish release)

/-- Executors of queries have nothing to do with locks, and no executor begins or ends a
    transaction: no trigger runs BEGIN, COMMIT or ROLLBACK. -/
def Regular : Command → Prop
  | .begin | .commit | .rollback => True
  | .query execute _ => execute.All (fun op => op.isPlain = true)
  | .write keys execute =>
    keys.All (fun op => op.keepsTransaction = true) ∧
      execute.All (fun op => op.keepsTransaction = true)
  | .ddl _ _ _ => True
  | .sequence first second => first.Regular ∧ second.Regular
  | .nested inner _ => inner.Regular

theorem settles_control (control : op.keepsTransaction = false) :
    Settles .settled (.enter true (Command.control op) .done) :=
  .controls nofun control (single_control op) (fun _ => .settled_done _)

theorem settles_onValue_finish (persists inTx : Bool) (out : Except Exn QueryResult) :
    Settles .settled (onValue (finish persists inTx) out) := by
  cases out with
  | error e => exact .settled_done _
  | ok res => exact .finish persists inTx res nofun

/-- The sections of a statement leave its session settled. -/
theorem Regular.settles {command : Command} (regular : command.Regular) :
    Settles .settled command.dispatch := by
  induction command with
  | begin | commit | rollback => exact settles_control rfl
  | query execute persists =>
    exact .asksCalm nofun (fun inTx => .plain nofun regular (settles_onValue_finish persists inTx))
  | write keys execute =>
    have sections {standing : Standing} {inTx : Bool} (working : standing ≠ .settled)
        (ends : ∀ res, Settles standing (release inTx (finish true inTx res))) :
        Settles standing (.enter true keys (onValue (fun keys =>
          .enter false (acquireAll keys) (onValue (fun _ =>
            .enter true execute (onValue (fun res =>
              release inTx (finish true inTx res)))))))) :=
      .onValue working regular.1 (fun keys =>
        .onValue working (Settles.all_acquireAll keys) (fun _ => .onValue working regular.2 ends))
    refine .asks nofun (sections nofun (fun res => ?_)) (sections nofun (fun res => ?_))
    · exact .finish true true res nofun
    · exact .release (.finish true false res nofun)
  | ddl lock persists execute =>
    cases lock with
    | none =>
      refine .asksCalm nofun (fun inTx => ?_)
      exact .alter (fun res => settles_onValue_finish persists inTx (.ok res))
        (fun e _ => .settled_done _) (fun e => .settled_done _)
    | some tab =>
      have sections {standing : Standing} {inTx : Bool} (working : standing ≠ .settled)
          (ends : ∀ res,
            Settles standing (release inTx (finish persists inTx res))) :
          Settles standing (.enter false (acquireAll [tab]) (onValue (fun _ =>
            .alter execute (onValue (fun res =>
              release inTx (finish persists inTx res)))))) :=
        .onValue working (Settles.all_acquireAll [tab]) (fun _ =>
          .alter ends Settles.done_error (fun _ => .settled_done _))
      refine .asks nofun (sections nofun (fun res => ?_)) (sections nofun (fun res => ?_))
      · exact .finish persists true res nofun
      · exact .release (.finish persists false res nofun)
  | sequence fst snd ihFirst ihSecond =>
    refine (ihFirst regular.1).andThen (fun e => rfl) (fun res => ?_)
    show Settles .settled (if res.success then snd.dispatch else .done (.ok res))
    split
    · exact ihSecond regular.2
    · exact .settled_done _
  | nested inner finish ih =>
    exact (ih regular).andThen (fun e => rfl) (fun res => .settled_done _)

end Command

/-! ## Runs -/

namespace Dispatcher

variable {d : Dispatcher} {s : Nat} {storage : Storage} {fns : Functions} {rest : Sections}

/-- The exception in which the section about to run ends, with the database it leaves. -/
def raised (d : Dispatcher) (s : Nat) (storage : Storage) : Option (Database × Exn) :=
  match d.calls s with
  | some (fns, .enter guarded body _) =>
    if guarded && d.blocked s then none
    else
      match Program.exec (Database.performOn storage fns s) d.db body with
      | (db, .done (.error exn)) => some (db, exn)
      | _ => none
  | some (_, .alter execute _) =>
    if d.blocked s then none
    else
      match execute d.db.tables with
      | (tables, .error exn) => some ({ d.db with tables := tables }, exn)
      | _ => none
  | _ => none

/-- No exception other than a deadlock leaves an executor while, outside a transaction, its session
    holds locks. -/
def caught (d : Dispatcher) : Event → Bool
  | .resume s storage =>
    (d.raised s storage).all (fun p =>
      p.2.kind = .deadlock || (p.1.sessions s).inTransaction ||
        !p.1.lockManager.holds (p.1.sessions s).transactionId)
  | _ => true

def Event.Regular : Event → Prop
  | .call _ _ command => command.Regular
  | _ => True

structure Watched where
  dispatcher : Dispatcher
  holders : Holders := fun _ => []

namespace Watched

def step (w : Watched) (e : Event) : Watched where
  dispatcher := w.dispatcher.step e
  holders := match e with
    | .resume s storage => (w.dispatcher.performed s storage).foldl (Holders.follow s) w.holders
    | _ => w.holders

/-- The locks a session holds are those of its transaction. -/
def OnlyInTransaction (w : Watched) (s : Nat) : Prop :=
  ∀ e ∈ w.dispatcher.db.lockManager.tables, ∀ req ∈ e.2, req.granted = true →
    s ∈ w.holders req.txnId →
      (w.dispatcher.db.sessions s).inTransaction = true ∧
        req.txnId = (w.dispatcher.db.sessions s).transactionId

/-- When a call returns its session holds no lock, unless it is in a transaction: then it holds the
    locks of the transaction. -/
def Releases (w : Watched) : Event → Prop
  | .resume s storage =>
    (w.dispatcher.calls s).isSome = true →
      ((w.step (.resume s storage)).dispatcher.calls s).isNone = true →
        (w.step (.resume s storage)).OnlyInTransaction s
  | _ => True

/-- Where a session stands, and that what remains of its call is in order. -/
def Stands (db : Database) (holders : Holders) (s : Nat) : Option (Functions × Sections) → Prop
  | none => Standing.settled.Holds db holders s
  | some (_, rest) => ∃ standing : Standing, standing.Holds db holders s ∧ Settles standing rest

structure Ordered (w : Watched) : Prop where
  custody : Custody w.dispatcher.db w.holders
  stands : ∀ s, Stands w.dispatcher.db w.holders s (w.dispatcher.calls s)

variable {standing : Standing} {db : Database} {w : Watched} {holders : Holders}
  {next : Except Exn α → Sections}

theorem Stands.unharmed {db' : Database} {holders' : Holders} {call : Option (Functions × Sections)}
    (stands : Stands db holders s call) (unharmed : Unharmed s db db' holders holders') :
    Stands db' holders' s call := by
  cases call with
  | none =>
    have settled : Standing.settled.Holds db holders s := stands
    exact unharmed.holds settled
  | some call =>
    obtain ⟨standing, holds, settles⟩ := stands
    exact ⟨standing, unharmed.holds holds, settles⟩

theorem Ordered.move {w' : Watched} (ord : w.Ordered)
    (moves : Moves s standing w.dispatcher.db w.holders w'.dispatcher.db w'.holders)
    (others : ∀ t, t ≠ s → w'.dispatcher.calls t = w.dispatcher.calls t)
    (mine : standing.Holds w'.dispatcher.db w'.holders s →
      Stands w'.dispatcher.db w'.holders s (w'.dispatcher.calls s)) : w'.Ordered := by
  refine ⟨moves.custody, fun t => ?_⟩
  by_cases isS : t = s
  · subst isS
    exact mine moves.mine
  · rw [others t isS]
    exact (ord.stands t).unharmed (moves.others t isS)

theorem settled_of_calm (holds : standing.Holds db holders s) (calm : standing ≠ .outside) :
    Standing.settled.Holds db holders s := by
  cases standing with
  | settled => exact holds
  | inside => exact .inl holds
  | outside => exact absurd rfl calm

/-- The handler of a deadlock gives the locks back. -/
theorem settles_onDeadlock (exn : Exn) (standing : Standing) : Settles standing (onDeadlock exn) := by
  have released : Settles .outside (.enter false (Body.perform .release)
      (fun _ => .done (.ok (.errorResult exn.what)))) :=
    .releases (single_perform .release) (fun _ => .settled_done _)
  have rolledBack : Settles .inside (.enter true (Command.control .rollback)
      (fun _ => .done (.ok (.errorResult exn.what)))) :=
    .controls nofun rfl (single_control .rollback) (fun _ => .settled_done _)
  cases standing with
  | settled | inside => exact .asks nofun rolledBack released
  | outside => exact .asksOutside released

theorem stands_done {out : Except Exn QueryResult} (holds : standing.Holds db holders s)
    (settles : Settles standing (.done out))
    (ne : ∀ e : Exn, out = .error e → e.kind ≠ .deadlock) : Stands db holders s none := by
  cases settles with
  | done ends =>
    refine settled_of_calm holds (fun outside => ?_)
    obtain ⟨e, eq, deadlock⟩ := ends outside
    exact ne e eq deadlock

/-- What `is_in_transaction` says decides how the session stands. -/
theorem stands_asks {next : Bool → Sections} (holds : standing.Holds db holders s)
    (settles : Settles standing (.asks next)) :
    Stands db holders s (some (fns, next (db.sessions s).inTransaction)) := by
  cases settles with
  | asks calm isIn outside =>
    cases inTx : (db.sessions s).inTransaction with
    | true => exact ⟨.inside, inTx, isIn⟩
    | false => exact ⟨.outside, inTx, outside⟩
  | asksOutside outside =>
    have inTx : (db.sessions s).inTransaction = false := holds
    rw [inTx]
    exact ⟨.outside, inTx, outside⟩
  | asksCalm calm next => exact ⟨.settled, settled_of_calm holds calm, next _⟩

/-- What follows a section that ended: a session that raised an exception outside a transaction
    holds no lock, by the condition. -/
theorem stands_after {out : Except Exn α}
    (custody : Custody db holders) (holds : standing.Holds db holders s)
    (ok : ∀ a, Settles standing (next (.ok a)))
    (deadlock : ∀ e : Exn, (standing = .outside → e.kind = .deadlock) →
      Settles standing (next (.error e))) (later : ∀ e, Settles .settled (next (.error e)))
    (free : ∀ e : Exn, out = .error e → e.kind ≠ .deadlock → (db.sessions s).inTransaction = false →
      db.lockManager.holds (db.sessions s).transactionId = false) :
    Stands db holders s (some (fns, next out)) := by
  cases out with
  | ok a => exact ⟨standing, holds, ok a⟩
  | error e =>
    by_cases expected : standing = .outside → e.kind = .deadlock
    · exact ⟨standing, holds, deadlock e expected⟩
    · rw [Classical.not_imp] at expected
      obtain ⟨rfl, ne⟩ := expected
      exact ⟨.settled, .inr (custody.none_of_free (free e rfl ne holds)), later e⟩

/-- What remains after a section has run as far as it goes. -/
def remaining {α : Type} (guarded : Bool) (next : Except Exn α → Sections) :
    Program Op Response (Except Exn α) → Sections
  | .done outcome => next outcome
  | .perform op k => .enter guarded (Program.perform op k) next

theorem performs_single (alone : op.keepsTransaction = false ∨ op = .release)
    (db : Database) : ∃ db' resp, db.performOn storage fns s op = some (db', resp) := by
  cases op with
  | begin | commit | rollback | release => exact ⟨_, _, rfl⟩
  | _ => exact absurd alone (by simp [Op.keepsTransaction])

theorem section_moves (custody : Custody db holders) (holds : standing.Holds db holders s)
    (settles : Settles standing (.enter guarded body next)) {db' : Database}
    {rest : Program Op Response (Except Exn α)}
    (runs : Program.exec (Database.performOn storage fns s) db body = (db', rest))
    (free : ∀ e : Exn, rest = .done (.error e) → e.kind ≠ .deadlock →
      (db'.sessions s).inTransaction = false →
      db'.lockManager.holds (db'.sessions s).transactionId = false) :
    ∃ reached, Moves s reached db holders db' (holders.after storage fns s db body) ∧
      Stands db' (holders.after storage fns s db body) s (some (fns, remaining guarded next rest)) := by
  have isRest : (Program.exec (Database.performOn storage fns s) db body).2 = rest := by rw [runs]
  -- a section of one operation leaves its session settled
  have single {op : Op} (alone : op.keepsTransaction = false ∨ op = .release) (one : Single op body)
      (moves : ∀ db₁ resp, db.performOn storage fns s op = some (db₁, resp) →
        Moves s .settled db holders db₁ (holders.follow s (db, op)))
      (settles : ∀ out, Settles .settled (next out)) :
      ∃ reached, Moves s reached db holders db' (holders.after storage fns s db body) ∧
        Stands db' (holders.after storage fns s db body) s (some (fns, remaining guarded next rest)) := by
    obtain ⟨db₁, resp, ran⟩ := @performs_single op s storage fns alone db
    obtain ⟨out, ended, after⟩ := @Single.exec α storage fns s db holders op body one db₁ resp ran
    rw [runs] at ended
    cases ended
    have moved := moves db' resp ran
    rw [after]
    exact ⟨.settled, moved, .settled, moved.mine, settles out⟩
  cases settles with
  | plain calm all later =>
    have moves := moves_of_program runs all
      (fun _ _ _ _ _ plain custody settled ran => moves_of_plain custody settled plain ran)
      custody (settled_of_calm holds calm)
    refine ⟨.settled, moves, .settled, moves.mine, ?_⟩
    have remains : rest.All (fun op => op.isPlain = true) := isRest ▸ Program.All.rest all db
    cases rest with
    | done out => exact later out
    | perform op k => exact .plain nofun remains later
  | works working all ok deadlock later =>
    have moves := moves_of_program runs all
      (fun _ _ _ _ _ keeps custody mine ran => moves_of_keeps custody mine working keeps ran)
      custody holds
    refine ⟨standing, moves, ?_⟩
    have remains : rest.All (fun op => op.keepsTransaction = true) := isRest ▸ Program.All.rest all db
    cases rest with
    | done out =>
      exact stands_after moves.custody moves.mine ok deadlock later
        (fun e isError => free e (by rw [isError]))
    | perform op k => exact ⟨standing, moves.mine, .works working remains ok deadlock later⟩
  | controls calm control one later =>
    exact single (.inl control) one
      (fun db₁ resp ran => moves_of_control custody (settled_of_calm holds calm) control ran)
      later
  | releases one later =>
    exact single (.inr rfl) one (fun db₁ resp ran => moves_of_release custody ran) later

theorem setRest_other {t : Nat} (apart : t ≠ s) : (d.setRest s fns rest).calls t = d.calls t :=
  Function.update_of_ne apart _ _

theorem setRest_self : (d.setRest s fns rest).calls s = some (fns, rest) :=
  Function.update_self _ _ _

theorem unlock_calls : (d.unlock s).calls = d.calls := by
  unfold unlock
  split <;> rfl

theorem unlock_db : (d.unlock s).db = d.db := by
  unfold unlock
  split <;> rfl

theorem Ordered.goesOn (ord : w.Ordered) (kept : w.dispatcher.db.SameLocks d.db)
    (others : ∀ t, t ≠ s → d.calls t = w.dispatcher.calls t)
    (holds : standing.Holds w.dispatcher.db w.holders s)
    (mine : standing.Holds d.db w.holders s → Stands d.db w.holders s (d.calls s)) :
    Ordered ⟨d, w.holders⟩ := by
  refine ord.move ?_ others mine
  exact moves_of_sameLocks ord.custody holds kept

theorem free_of_caught {exn : Exn} (caught : d.caught (.resume s storage) = true)
    (isRaised : d.raised s storage = some (db, exn)) (ne : exn.kind ≠ .deadlock)
    (outside : (db.sessions s).inTransaction = false) :
    db.lockManager.holds (db.sessions s).transactionId = false := by
  rw [Dispatcher.caught, isRaised] at caught
  simpa [ne, outside] using caught

variable (ord : w.Ordered)
include ord

theorem ordered_enter (inCall : w.dispatcher.calls s = some (fns, .enter guarded body next))
    (holds : standing.Holds w.dispatcher.db w.holders s)
    (settles : Settles standing (.enter guarded body next))
    (caught : w.dispatcher.caught (.resume s storage) = true) :
    Ordered ⟨w.dispatcher.resume s storage fns (.enter guarded body next),
      (w.dispatcher.performed s storage).foldl (Holders.follow s) w.holders⟩ := by
  by_cases waits : (guarded && w.dispatcher.blocked s) = true
  · simpa [resume, performed, inCall, waits] using ord
  · cases runs : Program.exec (Database.performOn storage fns s) w.dispatcher.db body with
    | mk db' rest =>
      have free (e : Exn) (ended : rest = .done (.error e)) (ne : e.kind ≠ .deadlock)
          (outside : (db'.sessions s).inTransaction = false) :
          db'.lockManager.holds (db'.sessions s).transactionId = false := by
        refine free_of_caught caught ?_ ne outside
        simp only [raised, inCall, waits, runs, ended, Bool.false_eq_true, if_false]
      obtain ⟨reached, moves, stands⟩ := section_moves ord.custody holds settles runs free
      have followed : (w.dispatcher.performed s storage).foldl (Holders.follow s) w.holders =
          w.holders.after storage fns s w.dispatcher.db body := by
        simp only [performed, inCall, waits, Bool.false_eq_true, if_false]
        rfl
      rw [followed]
      cases rest with
      | done out =>
        have resumed : w.dispatcher.resume s storage fns (.enter guarded body next) =
            ({ w.dispatcher with db := db' }.unlock s).setRest s fns (next out) := by
          simp only [resume, waits, runs, Bool.false_eq_true, if_false]
        rw [resumed]
        have left : (({ w.dispatcher with db := db' }.unlock s).setRest s fns (next out)).db = db' :=
          unlock_db
        have moved : Moves s reached w.dispatcher.db w.holders
            (({ w.dispatcher with db := db' }.unlock s).setRest s fns (next out)).db
            (w.holders.after storage fns s w.dispatcher.db body) := by
          rw [left]
          exact moves
        refine ord.move moved
          (fun t apart => (setRest_other apart).trans (by rw [unlock_calls])) (fun _ => ?_)
        rw [setRest_self, left]
        exact stands
      | perform op k =>
        have resumed : w.dispatcher.resume s storage fns (.enter guarded body next) =
            { w.dispatcher with
              db := db'
              mutex := if guarded then some s else w.dispatcher.mutex }.setRest s fns
                (.enter guarded (Program.perform op k) next) := by
          simp only [resume, waits, runs, Bool.false_eq_true, if_false]
        rw [resumed]
        refine ord.move moves (fun t apart => setRest_other apart) (fun _ => ?_)
        rw [setRest_self]
        exact stands

theorem ordered_alter {execute : AssocMap String Table → AssocMap String Table × Except Exn QueryResult}
    {next : Except Exn QueryResult → Sections}
    (inCall : w.dispatcher.calls s = some (fns, .alter execute next))
    (holds : standing.Holds w.dispatcher.db w.holders s)
    (settles : Settles standing (.alter execute next))
    (caught : w.dispatcher.caught (.resume s storage) = true) :
    Ordered ⟨w.dispatcher.resume s storage fns (.alter execute next), w.holders⟩ := by
  by_cases waits : w.dispatcher.blocked s = true
  · simpa [resume, waits] using ord
  · cases settles with
    | alter ok deadlock later =>
      cases runs : execute w.dispatcher.db.tables with
      | mk tables out =>
        let db' := { w.dispatcher.db with tables := tables }
        have kept : w.dispatcher.db.SameLocks db' := ⟨rfl, rfl, rfl⟩
        have resumed : w.dispatcher.resume s storage fns (.alter execute next) =
            { w.dispatcher with db := db' }.setRest s fns (next out) := by
          simp only [resume, waits, runs, Bool.false_eq_true, if_false]
          rfl
        rw [resumed]
        refine ord.goesOn kept (fun t apart => setRest_other apart) holds (fun holds => ?_)
        rw [setRest_self]
        refine stands_after (ord.custody.of_sameLocks kept) holds ok deadlock later ?_
        intro e isError ne outside
        refine free_of_caught caught ?_ ne outside
        simp only [raised, inCall, waits, runs, isError, Bool.false_eq_true, if_false]
        rfl

theorem ordered_resume (caught : w.dispatcher.caught (.resume s storage) = true) :
    (w.step (.resume s storage)).Ordered := by
  have stands := ord.stands s
  cases inCall : w.dispatcher.calls s with
  | none =>
    have eq : w.step (.resume s storage) = w := by
      simp [step, Dispatcher.step, performed, inCall]
    rwa [eq]
  | some call =>
    obtain ⟨fns, rest⟩ := call
    rw [inCall] at stands
    obtain ⟨standing, holds, settles⟩ := stands
    have stepped : w.step (.resume s storage) = ⟨w.dispatcher.resume s storage fns rest,
        (w.dispatcher.performed s storage).foldl (Holders.follow s) w.holders⟩ := by
      simp only [step, Dispatcher.step, inCall]
    rw [stepped]
    have finished : ∀ t, t ≠ s → (w.dispatcher.clearActive.finish s).calls t = w.dispatcher.calls t :=
      fun t apart => Function.update_of_ne apart _ _
    have returned : (w.dispatcher.clearActive.finish s).calls s = none := Function.update_self _ _ _
    cases rest with
    | done out =>
      simp only [performed, inCall, List.foldl_nil]
      cases out with
      | ok res =>
        refine ord.goesOn ⟨rfl, rfl, rfl⟩ finished holds (fun holds => ?_)
        rw [resume, returned]
        exact stands_done holds settles nofun
      | error exn =>
        by_cases deadlock : exn.kind = .deadlock
        · have handled : w.dispatcher.resume s storage fns (.done (.error exn)) =
              w.dispatcher.clearActive.setRest s fns (onDeadlock exn) := by
            simp only [resume, deadlock]
          rw [handled]
          refine ord.goesOn ⟨rfl, rfl, rfl⟩ (fun t apart => setRest_other apart) holds
            (fun holds => ?_)
          rw [setRest_self]
          exact ⟨standing, holds, settles_onDeadlock exn standing⟩
        · have handled : w.dispatcher.resume s storage fns (.done (.error exn)) =
              w.dispatcher.clearActive.finish s := by
            simp only [resume]
          rw [handled]
          refine ord.goesOn ⟨rfl, rfl, rfl⟩ finished holds (fun holds => ?_)
          rw [returned]
          exact stands_done holds settles (fun e eq => Except.error.inj eq ▸ deadlock)
    | asks next =>
      simp only [performed, inCall, List.foldl_nil]
      refine ord.goesOn ⟨rfl, rfl, rfl⟩ (fun t apart => setRest_other apart) holds (fun holds => ?_)
      rw [resume, setRest_self]
      exact stands_asks holds settles
    | enter guarded body next => exact ordered_enter ord inCall holds settles caught
    | alter execute next =>
      simp only [performed, inCall, List.foldl_nil]
      exact ordered_alter ord inCall holds settles caught
    | persist res inTx next =>
      simp only [performed, inCall, List.foldl_nil]
      cases settles with
      | persist calm later =>
        rw [resume]
        split
        · exact ord
        · refine ord.goesOn (Database.persist_onlyTables res inTx).sameLocks
            (fun t apart => setRest_other apart) holds (fun holds => ?_)
          rw [setRest_self]
          exact ⟨standing, holds, later _⟩

theorem ordered_step {e : Event} (regular : e.Regular)
    (caught : w.dispatcher.caught e = true) : (w.step e).Ordered := by
  cases e with
  | call fns s command =>
    show Ordered ⟨w.dispatcher.step (.call fns s command), w.holders⟩
    simp only [Dispatcher.step]
    split
    · exact ord
    · next idle =>
      have settled : Standing.settled.Holds w.dispatcher.db w.holders s := by
        have stands := ord.stands s
        rwa [idle] at stands
      refine ord.goesOn ⟨rfl, rfl, rfl⟩ (fun t apart => setRest_other apart) settled
        (fun settled => ?_)
      rw [setRest_self]
      exact ⟨.settled, settled, Command.Regular.settles regular⟩
  | resume s storage => exact ordered_resume ord caught
  | vacuumWorker =>
    show Ordered ⟨w.dispatcher.step .vacuumWorker, w.holders⟩
    simp only [Dispatcher.step]
    split
    · exact ord
    · have kept : w.dispatcher.db.SameLocks w.dispatcher.db.vacuumAllTables.1 :=
        Database.onTables_sameLocks _
      refine ⟨ord.custody.of_sameLocks kept, fun t => ?_⟩
      exact (ord.stands t).unharmed (.of_sameLocks kept)

/-- Between its calls a session holds the locks of its transaction only. -/
theorem Ordered.onlyInTransaction (idle : w.dispatcher.calls s = none) : w.OnlyInTransaction s := by
  intro e entry req mem got holder
  have has : w.holders.Has w.dispatcher.db s req.txnId :=
    ⟨LockManager.holds_iff.2 ⟨e.1, req, ⟨e.2, entry, mem⟩, got, rfl⟩, holder⟩
  have settled : Standing.settled.Holds w.dispatcher.db w.holders s := by
    have stands := ord.stands s
    rwa [idle] at stands
  exact ⟨settled.resolve_right (fun none => none _ has), ord.custody.underId s _ has⟩

end Watched

/-- In every run of regular statements in which no exception other than a deadlock leaves an executor
    while its session, outside a transaction, holds locks, a session holds no locks when its call
    returns, unless it is in a transaction. -/
theorem locks_released (start : Database) (unlocked : start.lockManager = {}) (counter : 0 < start.nextLockId) (events : List Event)
    (regular : ∀ e ∈ events, e.Regular)
    (caught : Meets step (fun d e => d.caught e = true) { db := start } events) :
    Meets Watched.step Watched.Releases { dispatcher := { db := start } } events := by
  have started : Watched.Ordered { dispatcher := { db := start } } := by
    refine ⟨⟨?_, ?_, counter, ?_⟩, fun s => .inr ?_⟩
    · rw [unlocked]
      intro e member
      cases member
    · rw [unlocked]
      rfl
    · rintro s i ⟨-, member⟩
      cases member
    · rintro i ⟨-, member⟩
      cases member
  have watched : Meets Watched.step (fun w e => w.dispatcher.caught e = true)
      { dispatcher := { db := start } } events :=
    @Meets.lift _ _ _ step (fun d e => d.caught e = true) Watched.step Watched.dispatcher
      (fun _ _ => rfl) _ _ caught
  refine @Meets.of_inv _ _ Watched.step _ _ Watched.Ordered
    (fun _ _ ordered ok => Watched.ordered_step ordered ok.2 ok.1) (fun w e ordered ok => ?_) _ _
    (watched.and_forall regular) started
  cases e with
  | resume s storage =>
    intro _ returned
    exact (Watched.ordered_step ordered ok.2 ok.1).onlyInTransaction (Option.isNone_iff_eq_none.1 returned)
  | _ => trivial

/-! ## Statements without triggers -/

theorem keepsTransaction_of_plain (plain : op.isPlain = true) : op.keepsTransaction = true := by
  cases op with
  | request key mode => cases plain
  | attempt key mode => cases plain
  | release => cases plain
  | _ => exact plain

theorem isPlain_of_onRows (onRows : op.onRows = true) : op.isPlain = true := by
  cases op <;> first | rfl | cases onRows

theorem all_query (query : Query) : query.body.All (fun op => op.isPlain = true) := by
  induction query with
  | result r => exact all_pure r
  | read tab next ih =>
    have reads : (Body.perform (.visible tab)).All (fun op => op.isPlain = true) :=
      all_perform rfl
    exact reads.bind ih

theorem all_previewOf {env : Env} (name : String) (cond : Option (Expr Empty)) :
    (Executor.preview.previewOf env name cond).All (fun op => op.keepsTransaction = true) := by
  have looks : (getTable name).All (fun op => op.keepsTransaction = true) := all_getTable rfl
  refine looks.bind (fun hit => ?_)
  cases hit with
  | none => exact all_pure _
  | some t => exact (Executor.all_collect (fun _ => rfl) name t cond).bind (fun _ => all_pure _)

/-- The statements with modelled executors are regular, when there are no triggers. -/
theorem regular_ofStatement {env : Env} (quiet : env.NoTriggers) (statement : Statement) :
    (Command.ofStatement env statement).Regular := by
  have dml {stmt : Statement} (isDml : Executor.IsDml stmt) :
      (Executor.body env stmt).All (fun op => op.keepsTransaction = true) :=
    (Executor.all_onRows quiet isDml).mono
      (fun _ onRows => keepsTransaction_of_plain (isPlain_of_onRows onRows))
  have single {op : Op} (plain : op.isPlain = true) :
      (do return (← Body.perform op).result : Body QueryResult).All (fun op => op.isPlain = true) :=
    (all_perform plain).bind (fun _ => all_pure _)
  cases statement with
  | begin => trivial
  | commit => trivial
  | rollback => trivial
  | vacuum tab => exact single rfl
  | select query => exact all_query query
  | insert stmt => exact ⟨all_pure _, @dml (.insert stmt) trivial⟩
  | update stmt => exact ⟨all_previewOf _ _, @dml (.update stmt) trivial⟩
  | delete stmt => exact ⟨all_previewOf _ _, @dml (.delete stmt) trivial⟩
  | createIndex tab indexName cols =>
    refine ⟨all_pure _, ?_⟩
    have looks : (Body.perform .look).All (fun op => op.keepsTransaction = true) := all_perform rfl
    refine looks.bind (fun resp => ?_)
    dsimp only
    split
    · exact all_pure _
    · split
      · exact all_pure _
      · refine Body.All.tryCatch ?_ (fun _ => all_pure _)
        have creates : (Body.perform (.createIndex tab indexName cols)).All
            (fun op => op.keepsTransaction = true) := all_perform rfl
        exact creates.bind (fun _ => all_pure _)
  | dropIndex indexName => exact single rfl

open Engine (plainEnv account setBalance)

/-- A call of `execute_query` and `turns` steps of it, over storage that does not fail. -/
def query (s : Nat) (statement : Statement) (turns : Nat) : List Event :=
  .call plainEnv.functions s (.ofStatement plainEnv statement) ::
    List.replicate turns (.resume s Database.reliable)

instance (w : Watched) (s : Nat) : Decidable (w.OnlyInTransaction s) :=
  inferInstanceAs (Decidable (∀ e ∈ w.dispatcher.db.lockManager.tables, ∀ req ∈ e.2,
    req.granted = true → s ∈ w.holders req.txnId →
      (w.dispatcher.db.sessions s).inTransaction = true ∧
        req.txnId = (w.dispatcher.db.sessions s).transactionId))

instance (w : Watched) : (e : Event) → Decidable (w.Releases e)
  | .resume s _ => inferInstanceAs (Decidable (_ → _ → Watched.OnlyInTransaction _ s))
  | .call _ _ _ => .isTrue trivial
  | .vacuumWorker => .isTrue trivial

/-- `UPDATE account SET balance = balance - 'x' WHERE id = 1`. -/
def subtractText : Statement :=
  .update ⟨"account", [("balance", .binary .minus (.columnRef "" "balance") (.literal (.string "x")))],
    some (.binary .eq (.columnRef "" "id") (.literal (.int 1)))⟩

/-- An UPDATE outside a transaction. -/
theorem update_releases_locks :
    Meets Watched.step Watched.Releases { dispatcher := { db := { tables := [("account", account)] } } }
      (query 0 (setBalance 20) 8) := by
  have quiet : plainEnv.NoTriggers := rfl
  refine locks_released _ rfl (by decide) _ (fun e member => ?_) (by decide +kernel)
  obtain rfl | member := List.mem_cons.1 member
  · exact regular_ofStatement quiet _
  · rw [List.eq_of_mem_replicate member]
    trivial

/-- The type error of the SET expression leaves the executor, and the row lock stays: it is there
    when the call has returned. -/
theorem failed_update_keeps_lock :
    ¬ Meets Watched.step Watched.Releases
      { dispatcher := { db := { tables := [("account", account)] } } } (query 0 subtractText 5) ∧
    ((run step { db := { tables := [("account", account)] } } (query 0 subtractText 5)).calls 0).isNone =
      true ∧
    (run step { db := { tables := [("account", account)] } }
      (query 0 subtractText 5)).db.lockManager.queue "account:#0" = [⟨1, .exclusive, true⟩] := by
  decide +kernel

end Dispatcher

end NobugDb
