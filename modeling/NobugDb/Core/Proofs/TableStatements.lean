import NobugDb.Core.Proofs.ExclusiveLocks
import NobugDb.Core.Proofs.MarkedSections

/-!
# Statements that lock a table

INSERT, CREATE INDEX, ALTER TABLE and DROP TABLE lock the key of their table, UPDATE and DELETE the
keys of the rows they have found. The lock manager compares keys and nothing else, so a transaction
that holds locks of rows keeps none of the former from their table. They are kept from it when it
also holds the key of the table, as after an INSERT, when sessions have different ids, and when no
statement gives locks back in the midst of another.
-/

namespace NobugDb

open Misc (AssocMap Meets Program run)
open Database
open LockManager

/-! ## Acquiring -/

theorem LockManager.granted_by_grantFirst {q : List LockRequest} {req : LockRequest} {i : Nat}
    {mode : LockMode} (mem : req ∈ q) (waiting : req.granted = false) (isId : req.txnId = i) :
    ∃ req ∈ grantFirst i mode q, req.granted = true ∧ req.txnId = i := by
  induction q with
  | nil => cases mem
  | cons fst q ih =>
    rw [grantFirst]
    split
    · next waits => exact ⟨_, List.mem_cons_self, rfl, waits.1⟩
    · next ne =>
      obtain rfl | mem := List.mem_cons.mp mem
      · exact absurd ⟨isId, waiting⟩ ne
      · obtain ⟨hit, isIn, got⟩ := ih mem
        exact ⟨hit, List.mem_cons_of_mem _ isIn, got⟩

/-- Of these keys the session holds the lock, and for this one it has asked. -/
structure Database.Has (db : Database) (s : Nat) (held : List String) (waits : Option String) :
    Prop where
  holds : ∀ key ∈ held, db.holdsKey s key = true
  waits : ∀ key, waits = some key → db.hasRequest s false key = true

/-- The program goes on to lock the keys, when the session has the locks it holds so far and has
    asked for the one it waits for. -/
inductive Acquiring (keys : List String) :
    List String → Option String → Program Op Response (Except Exn Unit) → Prop
  | ok {held : List String} {waits : Option String} : keys ⊆ held →
      Acquiring keys held waits (.done (.ok ()))
  | error {held : List String} {waits : Option String} {e : Exn} :
      Acquiring keys held waits (.done (.error e))
  | request {held : List String} {waits : Option String} {key : String}
      {next : Response → Program Op Response (Except Exn Unit)} :
      (∀ r, r.held = true → Acquiring keys (key :: held) none (next r)) →
      (∀ r, r.held = false → Acquiring keys held (some key) (next r)) →
      Acquiring keys held waits (.perform (.request key .exclusive) next)
  | attempt {held : List String} {key : String}
      {next : Response → Program Op Response (Except Exn Unit)} :
      (∀ r, r.outcome = .ok () → Acquiring keys (key :: held) none (next r)) →
      (∀ r e, r.outcome = .error e → Acquiring keys held none (next r)) →
      Acquiring keys held (some key) (.perform (.attempt key .exclusive) next)

theorem acquire_bind (key : String) (next : Body Unit) :
    (Body.acquire key .exclusive >>= fun _ => next : Body Unit) =
      Program.perform (.request key .exclusive) (fun r =>
        match r.outcome with
        | .error e => .done (.error e)
        | .ok _ =>
          if r.held then next
          else Program.perform (.attempt key .exclusive) (fun r =>
            match r.outcome with
            | .error e => .done (.error e)
            | .ok _ => next)) := by
  refine congrArg (Program.perform _) (funext fun r => ?_)
  obtain ⟨tables, inTxn, vis, held, res, out⟩ := r
  cases out with
  | error e => rfl
  | ok _ =>
    cases held with
    | true => rfl
    | false =>
      refine congrArg (Program.perform _) (funext fun r => ?_)
      obtain ⟨tables, inTxn, vis, held, res, out⟩ := r
      cases out <;> rfl

variable {keys : List String} {e : Event}

theorem acquiring_acquire {held : List String} {key : String} {next : Body Unit}
    (rest : Acquiring keys (key :: held) none next) :
    Acquiring keys held none (Body.acquire key .exclusive >>= fun _ => next : Body Unit) := by
  rw [acquire_bind]
  refine .request (fun r isHeld => ?_) (fun r notHeld => ?_)
  · split
    · exact .error
    · rw [if_pos isHeld]
      exact rest
  · split
    · exact .error
    · rw [if_neg (by simp [notHeld])]
      refine .attempt (fun r ok => ?_) (fun r e fail => ?_)
      · rw [ok]
        exact rest
      · rw [fail]
        exact .error

theorem acquiring_acquireAll {held rest : List String} (all : keys ⊆ held ++ rest) :
    Acquiring keys held none (Command.acquireAll rest) := by
  induction rest generalizing held with
  | nil => exact .ok (by simpa using all)
  | cons key rest ih =>
    refine acquiring_acquire (ih (fun k mem => ?_))
    have inside := all mem
    simp only [List.mem_append, List.mem_cons] at inside ⊢
    tauto

namespace Database

variable {storage : Storage} {fns : Functions} {s : Nat} {db db' : Database} {key : String}
  {resp : Response}

theorem hasRequest_of_request
    (ran : db.performOn storage fns s (.request key .exclusive) = some (db', resp)) :
    db'.hasRequest s resp.held key = true := by
  simp only [performOn, perform, Option.some.injEq, Prod.mk.injEq] at ran
  obtain ⟨rfl, rfl⟩ := ran
  rw [hasRequest_iff]
  generalize res : (db.ensureLockTxnId s).lockManager.request
    ((db.ensureLockTxnId s).sessions s).transactionId key .exclusive = after
  obtain ⟨lm', held⟩ := after
  show ∃ req ∈ lm'.queue key, req.granted = held ∧ _
  rw [request] at res
  split at res
  · next hit =>
    cases res
    rw [queue_congr tables_noteHeld]
    obtain ⟨req, mem, isHeld⟩ := List.any_eq_true.mp hit
    simp only [Bool.and_eq_true, decide_eq_true_eq] at isHeld
    exact ⟨req, mem, isHeld.1.1, isHeld.1.2⟩
  · cases res
    refine ⟨⟨_, .exclusive, false⟩, ?_, rfl, rfl⟩
    rw [queue_assign, if_pos rfl]
    exact List.mem_append_right _ (List.mem_singleton_self _)

theorem holdsKey_of_attempt
    (ran : db.performOn storage fns s (.attempt key .exclusive) = some (db', resp))
    (ok : resp.outcome = .ok ()) (waits : db.hasRequest s false key = true) :
    db'.holdsKey s key = true := by
  obtain ⟨req, mem, waiting, isId⟩ := hasRequest_iff.mp waits
  simp only [performOn, perform, attempt_eq] at ran
  split_ifs at ran with can cycle
  · cases ran
    refine hasRequest_iff.mpr ?_
    show ∃ req ∈ (db.lockManager.grant (db.sessions s).transactionId key .exclusive).queue key, _
    rw [queue_grant, if_pos rfl]
    exact granted_by_grantFirst mem waiting isId
  · cases ran
    cases ok

end Database

/-- What remains of a program that locks keys goes on from what it has got. -/
theorem Acquiring.exec {held : List String} {waits : Option String}
    {body : Program Op Response (Except Exn Unit)} {storage : Storage} {fns : Functions} {s : Nat}
    {db : Database} (acquiring : Acquiring keys held waits body) (has : db.Has s held waits)
    (excludes : db.Excludes)
    (orderly : ∀ acc ∈ Program.performed (performOn storage fns s) db body,
      Database.OwnId s acc ∧ acc.2.asksExclusive = true) :
    ∃ held' waits', (Program.exec (performOn storage fns s) db body).1.Has s held' waits' ∧
      Acquiring keys held' waits' (Program.exec (performOn storage fns s) db body).2 := by
  induction acquiring generalizing db with
  | ok all => exact ⟨_, _, has, .ok all⟩
  | error => exact ⟨_, _, has, .error⟩
  | @request held waits key next isHeld notHeld isHeld_ih notHeld_ih =>
    cases ran : db.performOn storage fns s (.request key .exclusive) with
    | none =>
      rw [Program.exec_waits ran]
      exact ⟨_, _, has, .request isHeld notHeld⟩
    | some res =>
      obtain ⟨db', r⟩ := res
      rw [Program.exec_perform ran]
      rw [Program.performed_perform ran] at orderly
      have eff := performOn_effect ran
      have fst := orderly _ List.mem_cons_self
      have excludes' := excludes.perform eff fst.1 fst.2
      have kept (k : String) (mem : k ∈ held) : db'.holdsKey s k = true :=
        excludes.holdsKey_own eff rfl (has.holds k mem)
      have asked := hasRequest_of_request ran
      have later := fun acc mem => orderly acc (List.mem_cons_of_mem _ mem)
      cases holds : r.held with
      | true =>
        rw [holds] at asked
        refine isHeld_ih r holds ⟨fun k mem => ?_, nofun⟩ excludes' later
        obtain rfl | mem := List.mem_cons.mp mem
        · exact asked
        · exact kept k mem
      | false =>
        rw [holds] at asked
        refine notHeld_ih r holds ⟨kept, fun k isKey => ?_⟩ excludes' later
        exact Option.some.inj isKey ▸ asked
  | @attempt held key next granted refused granted_ih refused_ih =>
    cases ran : db.performOn storage fns s (.attempt key .exclusive) with
    | none =>
      rw [Program.exec_waits ran]
      exact ⟨_, _, has, .attempt granted refused⟩
    | some res =>
      obtain ⟨db', r⟩ := res
      rw [Program.exec_perform ran]
      rw [Program.performed_perform ran] at orderly
      have eff := performOn_effect ran
      have fst := orderly _ List.mem_cons_self
      have excludes' := excludes.perform eff fst.1 fst.2
      have kept (k : String) (mem : k ∈ held) : db'.holdsKey s k = true :=
        excludes.holdsKey_own eff rfl (has.holds k mem)
      have later := fun acc mem => orderly acc (List.mem_cons_of_mem _ mem)
      cases out : r.outcome with
      | error e => exact refused_ih r e out ⟨kept, nofun⟩ excludes' later
      | ok _ =>
        have got := holdsKey_of_attempt ran out (has.waits key rfl)
        refine granted_ih r out ⟨fun k mem => ?_, nofun⟩ excludes' later
        obtain rfl | mem := List.mem_cons.mp mem
        · exact got
        · exact kept k mem

/-! ## Marks that are true -/

/-- What a call has locked where its marks say so, when the session has these locks. -/
inductive Secures : List String → Option String → Marked → Prop
  | done {outcome : Except Exn QueryResult} : Secures [] none (.done outcome)
  | asks {next : Bool → Marked} : (∀ inTx, Secures [] none (next inTx)) →
      Secures [] none (.asks next)
  | enter {α : Type} {guarded : Bool} {body : Body α} {next : Except Exn α → Marked} :
      (∀ outcome, Secures [] none (next outcome)) → Secures [] none (.enter [] guarded body next)
  | locks {held keys : List String} {waits : Option String} {body : Body Unit}
      {next : Except Exn Unit → Marked} : Acquiring keys held waits body →
      (∀ e, Secures [] none (next (.error e))) → Secures keys none (next (.ok ())) →
      Secures held waits (.enter [] false body next)
  | works {held : List String} {body : Body QueryResult} {next : Except Exn QueryResult → Marked} :
      (∀ outcome, Secures [] none (next outcome)) → Secures held none (.enter held true body next)
  | alter {held : List String}
      {execute : AssocMap String Table → AssocMap String Table × Except Exn QueryResult}
      {next : Except Exn QueryResult → Marked} : (∀ outcome, Secures [] none (next outcome)) →
      Secures held none (.alter held execute next)
  | persist {result : QueryResult} {inTx : Bool} {next : Except Exn QueryResult → Marked} :
      (∀ outcome, Secures [] none (next outcome)) → Secures [] none (.persist result inTx next)

namespace Secures

theorem onValue {α : Type} {next : α → Marked} (rest : ∀ a, Secures [] none (next a))
    (out : Except Exn α) : Secures [] none (Marked.onValue next out) := by
  cases out with
  | ok a => exact rest a
  | error e => exact .done

theorem finish (persists inTx : Bool) (res : QueryResult) :
    Secures [] none (Marked.finish persists inTx res) := by
  cases persists with
  | true => exact .persist (fun _ => .done)
  | false => exact .done

theorem release {inTx : Bool} {next : Marked} (rest : Secures [] none next) :
    Secures [] none (Marked.release inTx next) := by
  cases inTx with
  | true => exact rest
  | false => exact .enter (onValue (fun _ => rest))

theorem onDeadlock (exn : Exn) : Secures [] none (Marked.onDeadlock exn) := by
  refine .asks (fun inTx => ?_)
  cases inTx with
  | true | false => exact .enter (fun _ => .done)

theorem locking {next : Marked} (rest : Secures keys none next) :
    Secures [] none (.enter [] false (Command.acquireAll keys) (Marked.onValue (fun _ => next))) :=
  .locks (acquiring_acquireAll (by simp)) (fun _ => .done) rest

theorem andThen {held : List String} {waits : Option String} {m : Marked}
    {f : Except Exn QueryResult → Marked} (secures : Secures held waits m)
    (rest : ∀ out, Secures [] none (f out)) : Secures held waits (m.andThen f) := by
  induction secures with
  | done => exact rest _
  | asks _ ih => exact .asks ih
  | enter _ ih => exact .enter ih
  | locks acquiring _ _ error_ih ok_ih => exact .locks acquiring error_ih ok_ih
  | works _ ih => exact .works ih
  | alter _ ih => exact .alter ih
  | persist _ ih => exact .persist ih

end Secures

theorem Command.secures_marked (c : Command) : Secures [] none c.marked := by
  induction c with
  | begin | commit | rollback => exact .enter (fun _ => .done)
  | query execute persists =>
    exact .asks (fun inTx => .enter (Secures.onValue (Secures.finish persists inTx)))
  | write keys execute =>
    refine .asks (fun inTx => .enter (Secures.onValue (fun keys => Secures.locking ?_)))
    exact .works (Secures.onValue (fun res => Secures.release (Secures.finish true inTx res)))
  | ddl lock persists execute =>
    cases lock with
    | none => exact .asks (fun inTx => .alter (Secures.onValue (Secures.finish persists inTx)))
    | some tab =>
      refine .asks (fun inTx => Secures.locking ?_)
      exact .alter (Secures.onValue (fun res =>
        Secures.release (Secures.finish persists inTx res)))
  | sequence fst snd first_ih second_ih =>
    refine first_ih.andThen (Secures.onValue (fun res => ?_))
    split
    · exact second_ih
    · exact .done
  | nested inner finish ih => exact ih.andThen (fun _ => .done)

namespace Tracked

open Dispatcher (Event)

variable {tr : Tracked} {s t : Nat} {storage : Storage} {fns : Functions} {held : List String}
  {waits : Option String} {m m' : Marked}

theorem has_none (db : Database) (s : Nat) : db.Has s [] none :=
  ⟨fun _ mem => absurd mem List.not_mem_nil, nofun⟩

theorem has_of_sameLocks {db db' : Database} (eq : db.SameLocks db') (has : db.Has s held waits) :
    db'.Has s held waits := by
  have kept (granted : Bool) (key : String) :
      db'.hasRequest s granted key = db.hasRequest s granted key := by
    unfold hasRequest
    rw [eq.lockManager, eq.sessions]
  refine ⟨fun key mem => ?_, fun key isKey => ?_⟩
  · exact (kept true key).trans (has.holds key mem)
  · exact (kept false key).trans (has.waits key isKey)

/-- The operations of the event give no session the id of another, ask for exclusive locks, and give
    no locks back in a section in which a statement takes effect. -/
def Orderly (tr : Tracked) : Event → Prop
  | .resume s storage => ∀ access ∈ tr.dispatcher.performed s storage,
      Database.OwnId s access ∧ access.2.asksExclusive = true ∧
        (tr.takesEffect s ≠ [] → access.2.keepsLocks = true)
  | _ => True

structure Sound (tr : Tracked) : Prop where
  agrees : tr.Agrees
  excludes : tr.db.Excludes
  secured : ∀ s m, tr.marks s = some m → ∃ held waits, tr.db.Has s held waits ∧ Secures held waits m

theorem secured_proceed (marked : tr.marks s = some m)
    (called : tr.dispatcher.calls s = some (fns, m.erase)) (excludes : tr.db.Excludes)
    (orderly : tr.Orderly (.resume s storage)) (has : tr.db.Has s held waits)
    (secures : Secures held waits m) (goesOn : m.proceed tr.dispatcher s storage fns = some m') :
    ∃ held waits, (tr.dispatcher.step (.resume s storage)).db.Has s held waits ∧
      Secures held waits m' := by
  have without {m : Marked} (secures : Secures [] none m) : ∃ held waits,
      (tr.dispatcher.step (.resume s storage)).db.Has s held waits ∧ Secures held waits m :=
    ⟨[], none, has_none _ _, secures⟩
  cases secures with
  | @done out =>
    cases out with
    | ok res => cases goesOn
    | error exn =>
      simp only [Marked.proceed] at goesOn
      split at goesOn
      · cases goesOn
        exact without (.onDeadlock exn)
      · cases goesOn
  | asks rest =>
    cases goesOn
    exact without (rest _)
  | @enter α guarded body next rest =>
    simp only [Marked.proceed] at goesOn
    split at goesOn
    · cases goesOn
      exact without (.enter rest)
    · split at goesOn
      · cases goesOn
        exact without (rest _)
      · cases goesOn
        exact without (.enter rest)
  | @locks held keys waits body next acquiring fail ok =>
    have free : (false && tr.dispatcher.blocked s) = false := rfl
    have reached := @Dispatcher.step_enter_db _ _ storage _ _ _ _ _ called free
    have performed := @Dispatcher.performed_enter _ _ storage _ _ _ _ _ called free
    obtain ⟨held', waits', has', acquiring'⟩ := @Acquiring.exec _ _ _ _ storage fns s tr.db acquiring has
      excludes (fun acc mem => by
        have conditions := orderly acc (performed ▸ mem)
        exact ⟨conditions.1, conditions.2.1⟩)
    simp only [Marked.proceed, Bool.false_and, Bool.false_eq_true, if_false] at goesOn
    rw [reached]
    unfold db at has' acquiring'
    generalize Program.exec (performOn storage fns s) tr.dispatcher.db body = after at *
    obtain ⟨db', rest⟩ := after
    cases rest with
    | done out =>
      cases goesOn
      cases acquiring' with
      | error => exact ⟨[], none, has_none _ _, fail _⟩
      | ok all => exact ⟨keys, none, ⟨fun key mem => has'.holds key (all mem), by simp⟩, ok⟩
    | perform op k =>
      cases goesOn
      exact ⟨held', waits', has', .locks acquiring' fail ok⟩
  | @works held body next rest =>
    simp only [Marked.proceed] at goesOn
    cases blocked : true && tr.dispatcher.blocked s with
    | true =>
      rw [if_pos blocked] at goesOn
      cases goesOn
      rw [Dispatcher.step_of_blocked called blocked]
      exact ⟨held, none, has, .works rest⟩
    | false =>
      rw [if_neg (by simp [blocked])] at goesOn
      split at goesOn
      · cases goesOn
        exact without (rest _)
      · cases goesOn
        refine ⟨held, none, ⟨fun key mem => ?_, by simp⟩, .works rest⟩
        have some : tr.takesEffect s ≠ [] := by
          simp only [takesEffect, marked, blocked, Bool.false_eq_true, if_false]
          exact List.ne_nil_of_mem mem
        rw [Dispatcher.step_enter_db called blocked]
        have performed := @Dispatcher.performed_enter _ _ storage _ _ _ _ _ called blocked
        refine (Program.exec_inv (I := fun db : Database => db.Excludes ∧ db.holdsKey s key = true)
          (fun acc isIn db' resp ran kept => ?_)
          ⟨excludes, has.holds key mem⟩).2
        have conditions := orderly acc (performed ▸ isIn)
        have eff := performOn_effect ran
        exact ⟨kept.1.perform eff conditions.1 conditions.2.1,
          kept.1.holdsKey_own eff (conditions.2.2 some) kept.2⟩
  | @alter held execute next rest =>
    simp only [Marked.proceed] at goesOn
    split at goesOn
    · next blocked =>
      cases goesOn
      have eq : tr.dispatcher.step (.resume s storage) = tr.dispatcher := by
        simp only [Dispatcher.step, called, Marked.erase, Dispatcher.resume, blocked, if_true]
      rw [eq]
      exact ⟨held, none, has, .alter rest⟩
    · cases goesOn
      exact without (rest _)
  | persist rest =>
    simp only [Marked.proceed] at goesOn
    split at goesOn
    · cases goesOn
      exact without (.persist rest)
    · cases goesOn
      exact without (rest _)

/-- Operations of other sessions leave a session the locks it has. -/
theorem step_has (excludes : tr.db.Excludes) (orderly : tr.Orderly e)
    (ne : ∀ storage, e ≠ .resume t storage) (has : tr.db.Has t held waits) :
    (tr.step e).db.Excludes ∧ (tr.step e).db.Has t held waits := by
  refine @Dispatcher.step_keeps tr.dispatcher (fun db => db.Excludes ∧ db.Has t held waits) e
    (fun db db' eq kept => ⟨kept.1.of_sameLocks eq.toSameLocks,
      has_of_sameLocks eq.toSameLocks kept.2⟩) ?_ ⟨excludes, has⟩
  rintro s storage rfl - acc mem fns db' resp ran ⟨excludes, has⟩
  have apart : t ≠ s := fun isT => ne storage (isT ▸ rfl)
  have conditions := orderly acc mem
  have eff := performOn_effect ran
  refine ⟨excludes.perform eff conditions.1 conditions.2.1, ⟨fun key mem => ?_, fun key isKey => ?_⟩⟩
  · exact excludes.hasRequest_other eff apart (has.holds key mem)
  · exact excludes.hasRequest_other eff apart (has.waits key isKey)

theorem Sound.step (sound : tr.Sound) (orderly : tr.Orderly e) : (tr.step e).Sound := by
  have excludes : (tr.step e).db.Excludes := by
    refine @Dispatcher.step_keeps tr.dispatcher Database.Excludes e
      (fun db db' eq kept => kept.of_sameLocks eq.toSameLocks) ?_ sound.excludes
    rintro s storage rfl - acc mem fns db' resp ran excludes
    have conditions := orderly acc mem
    exact excludes.perform (performOn_effect ran) conditions.1 conditions.2.1
  refine ⟨sound.agrees.step e, excludes, fun t m marked => ?_⟩
  -- a session whose call does not go on has the marks and the locks it had
  have kept (ne : ∀ storage, e ≠ .resume t storage) (marked : tr.marks t = some m) :
      ∃ held waits, (tr.step e).db.Has t held waits ∧ Secures held waits m := by
    obtain ⟨held, waits, has, secures⟩ := sound.secured t m marked
    exact ⟨held, waits, (step_has sound.excludes orderly ne has).2, secures⟩
  cases e with
  | vacuumWorker => exact kept (by simp) marked
  | call fns s command =>
    cases called : tr.dispatcher.calls s with
    | some call =>
      simp only [Tracked.step, called] at marked
      exact kept (by simp) marked
    | none =>
      simp only [Tracked.step, called] at marked
      by_cases isT : t = s
      · rw [isT, Function.update_self] at marked
        cases marked
        exact ⟨[], none, has_none _ _, command.secures_marked⟩
      · rw [Function.update_of_ne isT] at marked
        exact kept (by simp) marked
  | resume s storage =>
    have agrees := sound.agrees s
    cases called : tr.dispatcher.calls s with
    | some call =>
      obtain ⟨fns, rest⟩ := call
      simp only [Tracked.step, called] at marked
      by_cases isT : t = s
      · subst isT
        rw [Function.update_self] at marked
        obtain ⟨before, was, goesOn⟩ := Option.bind_eq_some_iff.mp marked
        obtain ⟨held, waits, has, secures⟩ := sound.secured t before was
        rw [called, was, Option.map_some, Option.map_some, Option.some.injEq] at agrees
        refine secured_proceed was ?_ sound.excludes orderly has secures goesOn
        rw [called, ← agrees]
      · rw [Function.update_of_ne isT] at marked
        exact kept (fun storage' eq => isT (by cases eq; rfl)) marked
    | none =>
      simp only [Tracked.step, called] at marked
      by_cases isT : t = s
      · rw [isT] at marked
        rw [called, marked] at agrees
        cases agrees
      · exact kept (fun storage' eq => isT (by cases eq; rfl)) marked

end Tracked

/-! ## Who is kept out -/

/-- The session holds the lock of the table or of a row of it. -/
def Database.LocksOn (db : Database) (s : Nat) (table : String) : Prop :=
  db.holdsKey s table = true ∨ ∃ i, db.holdsKey s (LockManager.makeRowLockKey table i) = true

namespace Tracked

open Dispatcher (Event)

variable {tr : Tracked} {s t : Nat} {m : Marked}

/-- No statement of another session takes effect that has locked a table on which an open transaction
    holds locks. -/
def Alone (tr : Tracked) : Event → Prop
  | .resume t _ => ∀ table ∈ tr.takesEffect t, ∀ s, s ≠ t →
      (tr.db.sessions s).inTransaction = true → ¬ tr.db.LocksOn s table
  | _ => True

/-- Open transactions that hold locks of rows of the table hold its lock too. -/
def Covered (tr : Tracked) : Event → Prop
  | .resume t _ => ∀ table ∈ tr.takesEffect t, ∀ s, s ≠ t →
      (tr.db.sessions s).inTransaction = true →
      ∀ i, tr.db.holdsKey s (LockManager.makeRowLockKey table i) = true →
        tr.db.holdsKey s table = true
  | _ => True

/-- A statement that takes effect has the locks its marks tell of. -/
theorem Sound.holds_takesEffect (sound : tr.Sound) {key : String} (mem : key ∈ tr.takesEffect t) :
    tr.db.holdsKey t key = true := by
  unfold takesEffect at mem
  split at mem
  · next locked guarded _ _ marked =>
    obtain ⟨held, waits, has, secures⟩ := sound.secured t _ marked
    split at mem
    · cases mem
    · cases secures with
      | enter _ => cases mem
      | locks _ _ _ => cases mem
      | works _ => exact has.holds key mem
  · next locked _ _ marked =>
    obtain ⟨held, waits, has, secures⟩ := sound.secured t _ marked
    split at mem
    · cases mem
    · cases secures with
      | alter _ => exact has.holds key mem
  · cases mem

theorem Sound.alone (sound : tr.Sound) (covered : tr.Covered e) : tr.Alone e := by
  cases e with
  | resume t storage =>
    intro table mem s apart inTx locks
    have mine := sound.holds_takesEffect mem
    have theirs : tr.db.holdsKey s table = true := by
      obtain whole | ⟨i, row⟩ := locks
      · exact whole
      · exact covered table mem s apart inTx i row
    exact apart (sound.excludes.same_session theirs mine)
  | _ => trivial

/-- When sessions have different ids, no statement gives locks back in the midst of another, and the
    open transactions with locks on rows of a table hold the lock of the table, no statement that
    locks the table takes effect in another session. -/
theorem table_statement_alone (start : Database) (idle : ∀ s, start.sessions s = {})
    (free : start.lockManager = {}) (counter : 0 < start.nextLockId) (events : List Event)
    (kept : Meets step (fun tr e => tr.Orderly e ∧ tr.Covered e) { dispatcher := { db := start } }
      events) :
    Meets step Alone { dispatcher := { db := start } } events := by
  have sound : Sound { dispatcher := { db := start } } := by
    refine ⟨fun _ => rfl, ⟨?_, ?_, counter, ?_⟩, nofun⟩
    · exact free ▸ exclusive_empty
    · show start.lockManager.mentions 0 = false
      rw [free]
      rfl
    · intro s t _ some
      exact absurd (congrArg Transaction.transactionId (idle s)) some
  exact @Meets.of_inv _ _ step _ _ Sound (fun tr e sound both => sound.step both.1)
    (fun tr e sound both => sound.alone both.2) _ _ kept sound

/-! ## Runs of a few sessions -/

open Engine (OthersIdle)

/-- The conditions, checked against the sessions among `known` and the keys in use only. -/
def orderlyAmong (known : List Nat) (tr : Tracked) : Event → Bool
  | .resume t storage =>
    known.contains t &&
    (tr.dispatcher.performed t storage).all (fun access =>
      (access.1.givesId t access.2).all (fun i => i ≠ 0 &&
        known.all (fun u => u = t || (access.1.sessions u).transactionId ≠ i)) &&
      access.2.asksExclusive && ((tr.takesEffect t).isEmpty || access.2.keepsLocks)) &&
    (tr.takesEffect t).all (fun table => known.all (fun s => s = t ||
      tr.db.lockManager.tables.all (fun e => !tr.db.holdsKey s e.1 || tr.db.holdsKey s table)))
  | _ => true

variable {known : List Nat}

theorem othersIdle_step (idle : OthersIdle known tr.db)
    (among : orderlyAmong known tr e = true) : OthersIdle known (tr.step e).db := by
  refine @Dispatcher.step_keeps tr.dispatcher (OthersIdle known) e
    (fun db db' eq idle t outside => eq.sessions ▸ idle t outside) ?_ idle
  rintro t storage rfl - acc - fns db' resp ran idle
  simp only [orderlyAmong, Bool.and_eq_true, List.contains_iff_mem] at among
  exact Engine.othersIdle_effect idle among.1.1 (performOn_effect ran)

theorem kept_of_among (idle : OthersIdle known tr.db)
    (among : orderlyAmong known tr e = true) : tr.Orderly e ∧ tr.Covered e := by
  cases e with
  | resume t storage =>
    simp only [orderlyAmong, Bool.and_eq_true, List.contains_iff_mem, List.all_eq_true,
      Bool.or_eq_true, decide_eq_true_eq, List.isEmpty_iff, Bool.not_eq_true'] at among
    obtain ⟨⟨isIn, operations⟩, tables⟩ := among
    have idleAt := @Dispatcher.performed_keeps tr.dispatcher t storage (OthersIdle known)
      (fun acc _ fns db' resp ran idle =>
        Engine.othersIdle_effect idle isIn (performOn_effect ran)) idle
    refine ⟨fun acc mem => ?_, fun tab mem s apart inTx i row => ?_⟩
    · obtain ⟨⟨ids, excl⟩, keeps⟩ := operations acc mem
      refine ⟨fun i given u apart => ?_, excl, fun some => keeps.resolve_left some⟩
      rw [given] at ids
      simp only [Option.all_some, Bool.and_eq_true, decide_eq_true_eq, ne_eq, List.all_eq_true,
        Bool.or_eq_true] at ids
      by_cases known : u ∈ known
      · exact (ids.2 u known).resolve_left apart
      · rw [idleAt acc mem u known]
        exact Ne.symm ids.1
    · have among : s ∈ known := by
        by_contra outside
        rw [idle s outside] at inTx
        cases inTx
      obtain ⟨req, inQueue, -⟩ := hasRequest_iff.mp row
      obtain ⟨q, entry, -⟩ := Queued.of_queue inQueue
      have covers := ((tables tab mem s among).resolve_left apart) _ entry
      exact covers.resolve_left (by simp [row])
  | _ => exact ⟨trivial, trivial⟩

theorem meets_kept {start : Database} {events : List Event} (idle : ∀ s, start.sessions s = {})
    (among : Meets step (fun tr e => orderlyAmong known tr e = true)
      { dispatcher := { db := start } } events) :
    Meets step (fun tr e => tr.Orderly e ∧ tr.Covered e) { dispatcher := { db := start } } events :=
  @Meets.of_inv _ _ step _ _ (fun tr => OthersIdle known tr.db) (fun _ _ => othersIdle_step)
    (fun _ _ => kept_of_among) _ _ among (fun t _ => idle t)

open Dispatcher (query)
open Engine (account setBalance)

/-- `INSERT INTO table VALUES (n, 10)`. -/
def insertInto (table : String) (n : Int) : Statement :=
  .insert ⟨table, [], [[.literal (.int n), .literal (.int 10)]]⟩

/-- An INSERT in an open transaction, and one of another session that waits for its end. -/
theorem insert_after_commit :
    Meets step Alone { dispatcher := { db := { tables := [("account", account)] } } }
      (query 0 .begin 3 ++ query 0 (insertInto "account" 2) 8 ++ query 1 .begin 3 ++ query 1 (insertInto "account" 3) 8 ++
        query 0 .commit 3 ++ List.replicate 5 (.resume 1 Database.reliable)) :=
  table_statement_alone _ (fun _ => rfl) rfl (by decide) _
    (@meets_kept [0, 1] _ _ (fun _ => rfl) (by decide +kernel))

/-- An UPDATE in an open transaction of session 0, and an INSERT of session 1 that has its lock. -/
def besideUpdate : List Event :=
  query 0 .begin 3 ++ query 0 (setBalance 20) 8 ++ query 1 .begin 3 ++ query 1 (insertInto "account" 2) 3

/-- The transaction holds the lock of the row it has updated, and the INSERT into the same table takes
    effect. -/
theorem insert_beside_update :
    let tr := run step { dispatcher := { db := { tables := [("account", account)] } } } besideUpdate
    ¬ tr.Alone (.resume 1 Database.reliable) ∧
      (tr.db.sessions 0).inTransaction = true ∧ tr.db.holdsKey 0 "account:#0" = true ∧
      "account" ∈ tr.takesEffect 1 ∧
      (tr.db.tables.lookup "account").map (fun table => table.directory.length) = some 2 ∧
      ((tr.step (.resume 1 Database.reliable)).db.tables.lookup "account").map
        (fun table => table.directory.length) = some 3 := by
  refine ⟨fun alone => ?_, by decide +kernel, by decide +kernel, by decide +kernel, by decide +kernel,
    by decide +kernel⟩
  refine alone "account" (by decide +kernel) 0 (by decide) (by decide +kernel) (.inr ⟨0, ?_⟩)
  decide +kernel

end Tracked

end NobugDb
