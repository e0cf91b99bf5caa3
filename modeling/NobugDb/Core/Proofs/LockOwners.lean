import NobugDb.Core.Proofs.ActiveSession
import NobugDb.Core.Proofs.LockEffects
import NobugDb.Core.Proofs.Locking

/-!
# Owners of locks

The lock manager knows its clients by an id only. A session in a transaction uses the id that BEGIN
took from the transaction manager, and a session outside takes one from `next_lock_id_` when it
first asks for a lock. Both counters start at 1, so nothing keeps the ids of two sessions apart.
They stay apart when every id, as it is given out, is not that of another session and has no
locks.
-/

namespace NobugDb

open Misc (AssocMap Meets run)

namespace LockManager

variable {lm : LockManager} {i j : Nat} {key : String} {mode : LockMode}

/-- A lock is held or asked for under an id. -/
def mentions (lm : LockManager) (i : Nat) : Bool :=
  lm.tables.any (fun e => e.2.any (fun req => req.txnId = i))

/-- The request stands in the queue of the key. -/
def Queued (lm : LockManager) (key : String) (req : LockRequest) : Prop :=
  ∃ q, (key, q) ∈ lm.tables ∧ req ∈ q

variable {k : String} {req : LockRequest}

theorem mentions_iff : lm.mentions i = true ↔ ∃ k req, lm.Queued k req ∧ req.txnId = i := by
  simp only [mentions, Queued, List.any_eq_true, decide_eq_true_eq, Prod.exists]
  constructor
  · rintro ⟨k, q, entry, req, mem, isI⟩
    exact ⟨k, req, ⟨q, entry, mem⟩, isI⟩
  · rintro ⟨k, req, ⟨q, entry, mem⟩, isI⟩
    exact ⟨k, q, entry, req, mem, isI⟩

theorem Queued.of_queue (mem : req ∈ lm.queue k) : lm.Queued k req := by
  rw [queue] at mem
  cases hit : lm.tables.lookup k with
  | none => rw [hit] at mem; cases mem
  | some q =>
    rw [hit] at mem
    exact ⟨q, Misc.mem_of_lookup hit, mem⟩

theorem mentions_of_mem_queue (mem : req ∈ lm.queue k) : lm.mentions req.txnId = true :=
  mentions_iff.2 ⟨k, req, .of_queue mem, rfl⟩

theorem queued_noteHeld : (lm.noteHeld i key).Queued k req ↔ lm.Queued k req := by
  rw [Queued, tables_noteHeld, Queued]

theorem Queued.assigned {q : List LockRequest}
    (queued : ({ lm with tables := AssocMap.assign key q lm.tables } : LockManager).Queued k req) :
    k = key ∧ req ∈ q ∨ lm.Queued k req := by
  obtain ⟨ne, entry, mem⟩ := queued
  obtain eq | old := AssocMap.mem_assign entry
  · cases eq
    exact .inl ⟨rfl, mem⟩
  · exact .inr ⟨ne, old, mem⟩

theorem queued_request (queued : (lm.request i key mode).1.Queued k req) :
    lm.Queued k req ∨ req = ⟨i, mode, false⟩ := by
  rw [request] at queued
  split at queued
  · exact .inl (queued_noteHeld.1 queued)
  · obtain ⟨rfl, mem⟩ | old := queued.assigned
    · obtain old | new := List.mem_append.1 mem
      · exact .inl (.of_queue old)
      · exact .inr (List.mem_singleton.1 new)
    · exact .inl old

/-- What stands in a queue after a turn stood there before, but for the request it grants. -/
theorem queued_attempt (queued : (lm.attempt i key mode).1.Queued k req) :
    lm.Queued k req ∨ k = key ∧ req.txnId = i ∧ (lm.attempt i key mode).2 = .granted ∧
      lm.mentions i = true := by
  rw [attempt] at queued ⊢
  split_ifs at queued ⊢
  · obtain ⟨rfl, mem⟩ | old := (queued_noteHeld.1 queued).assigned
    · obtain old | ⟨old, inQueue, isI, rfl⟩ := of_mem_grantFirst mem
      · exact .inl (.of_queue old)
      · exact .inr ⟨rfl, isI, rfl, isI ▸ mentions_of_mem_queue inQueue⟩
    · exact .inl old
  · obtain ⟨rfl, mem⟩ | old := queued.assigned
    · exact .inl (.of_queue (List.mem_of_mem_filter mem))
    · exact .inl old
  · exact .inl queued

theorem queued_releaseAll (queued : (lm.releaseAll i).Queued k req) :
    lm.Queued k req ∧ (k ∈ lm.held i → req.txnId ≠ i) := by
  obtain ⟨q, entry, mem⟩ := queued
  obtain ⟨⟨_, old⟩, inTables, eq⟩ := List.mem_map.1 (List.mem_of_mem_filter entry)
  split at eq
  · cases eq
    obtain ⟨isIn, apart⟩ := List.mem_filter.1 mem
    exact ⟨⟨old, inTables, isIn⟩, fun _ => by simpa using apart⟩
  · next unnoted =>
    cases eq
    exact ⟨⟨q, inTables, mem⟩, fun there => absurd there (by simpa [held] using unnoted)⟩

theorem mentions_request (mentioned : (lm.request i key mode).1.mentions j = true) :
    j = i ∨ lm.mentions j = true := by
  obtain ⟨k, req, queued, rfl⟩ := mentions_iff.1 mentioned
  obtain old | rfl := queued_request queued
  · exact .inr (mentions_iff.2 ⟨k, req, old, rfl⟩)
  · exact .inl rfl

theorem mentions_attempt (mentioned : (lm.attempt i key mode).1.mentions j = true) :
    lm.mentions j = true := by
  obtain ⟨k, req, queued, rfl⟩ := mentions_iff.1 mentioned
  obtain old | ⟨-, isI, -, there⟩ := queued_attempt queued
  · exact mentions_iff.2 ⟨k, req, old, rfl⟩
  · exact isI ▸ there

theorem mentions_releaseAll (mentioned : (lm.releaseAll i).mentions j = true) :
    lm.mentions j = true := by
  obtain ⟨k, req, queued, isJ⟩ := mentions_iff.1 mentioned
  exact mentions_iff.2 ⟨k, req, (queued_releaseAll queued).1, isJ⟩

end LockManager

/-! ## Sessions -/

namespace Database

variable {fns : Functions} {s : Nat} {db db' : Database} {op : Op} {resp : Response}

def givesId (db : Database) (s : Nat) : Op → Option Nat
  | .begin => if (db.sessions s).inTransaction then none else some db.transactionManager.nextXid
  | .request _ _ => if (db.sessions s).transactionId = 0 then some db.nextLockId else none
  | _ => none

/-- The operation gives its session no id that another session has or that has locks. -/
def FreshId (s : Nat) (access : Database × Op) : Prop :=
  ∀ i, access.1.givesId s access.2 = some i →
    access.1.lockManager.mentions i = false ∧ ∀ t, t ≠ s → (access.1.sessions t).transactionId ≠ i

/-- The operation gives its session no id that another session has. -/
def OwnId (s : Nat) (access : Database × Op) : Prop :=
  ∀ i, access.1.givesId s access.2 = some i → ∀ t, t ≠ s → (access.1.sessions t).transactionId ≠ i

end Database

/-- For each id the sessions that have asked for locks under it since there were none. -/
abbrev Users := Nat → List Nat

namespace Users

def follow (s : Nat) (users : Users) (access : Database × Op) : Users :=
  if access.2.isRequest then
    Function.update users (access.1.lockId s)
      (s :: if access.1.lockManager.mentions (access.1.lockId s) then users (access.1.lockId s) else [])
  else users

/-- A session that asks for a lock finds no locks of another session under its id. -/
def OwnLocks (s : Nat) (users : Users) (access : Database × Op) : Prop :=
  access.2.isRequest = true → access.1.lockManager.mentions (access.1.lockId s) = true →
    ∀ t ∈ users (access.1.lockId s), t = s

instance (s : Nat) (users : Users) (access : Database × Op) : Decidable (users.OwnLocks s access) :=
  inferInstanceAs (Decidable (_ → _ → ∀ t ∈ _, _))

end Users

namespace Database

variable {fns : Functions} {s : Nat} {db db' : Database} {op : Op} {resp : Response}
  {users : Users}

/-- Sessions have different ids, and the locks under a session's id are its own. -/
structure Owned (db : Database) (users : Users) : Prop where
  distinct : ∀ s t, s ≠ t → (db.sessions s).transactionId ≠ 0 →
    (db.sessions s).transactionId ≠ (db.sessions t).transactionId
  own : ∀ s, (db.sessions s).transactionId ≠ 0 →
    db.lockManager.mentions (db.sessions s).transactionId = true →
    ∀ t ∈ users (db.sessions s).transactionId, t = s
  counter : 0 < db.nextLockId

variable {t j : Nat}

section

variable (eff : LockEffect s db op db')
include eff

theorem LockEffect.other (apart : t ≠ s) : db'.sessions t = db.sessions t := by
  obtain ⟨session, sess⟩ := eff.sessions
  rw [sess, Function.update_of_ne apart]

/-- A session has no id after an operation, or the id it had, or the one that the operation gives. -/
theorem LockEffect.id (t : Nat) :
    (db'.sessions t).transactionId = 0 ∨
      (db'.sessions t).transactionId = (db.sessions t).transactionId ∨
      t = s ∧ db.givesId s op = some (db'.sessions t).transactionId := by
  by_cases isS : t = s
  · subst isS
    cases eff with
    | same _ kept => exact .inr (.inl (by rw [kept.sessions]))
    | begins outside sess _ _ => exact .inr (.inr ⟨rfl, by simp [sess, givesId, outside]⟩)
    | ends _ sess _ _ => exact .inl (by rw [sess, Function.update_self])
    | requests sess _ _ =>
      unfold ensureLockTxnId at sess
      split at sess
      · next none => exact .inr (.inr ⟨rfl, by simp [sess, givesId, none, setSession]⟩)
      · exact .inr (.inl (by rw [sess]))
    | attempts sess _ _ | releases sess _ _ => exact .inr (.inl (by rw [sess]))
  · exact .inr (.inl (by rw [eff.other isS]))

theorem LockEffect.distinct (own : OwnId s (db, op))
    (nodup : ∀ s t, s ≠ t → (db.sessions s).transactionId ≠ 0 →
      (db.sessions s).transactionId ≠ (db.sessions t).transactionId) :
    ∀ s t, s ≠ t → (db'.sessions s).transactionId ≠ 0 →
      (db'.sessions s).transactionId ≠ (db'.sessions t).transactionId := by
  intro a b apart some
  rcases eff.id b with none | isB | ⟨rfl, givenB⟩
  · rwa [none]
  · rcases eff.id a with none | isA | ⟨rfl, givenA⟩
    · exact absurd none some
    · rw [isA] at some ⊢
      rw [isB]
      exact nodup a b apart some
    · rw [isB]
      exact (own _ givenA b apart.symm).symm
  · rw [eff.other apart]
    exact own _ givenB a apart

theorem LockEffect.counter (counter : 0 < db.nextLockId) : 0 < db'.nextLockId := by
  cases eff with
  | same _ kept => exact kept.nextLockId ▸ counter
  | begins _ _ _ same | ends _ _ _ same => exact same ▸ counter
  | requests _ _ same =>
    rw [same]
    unfold ensureLockTxnId
    split
    · exact Nat.succ_pos _
    · exact counter
  | attempts _ _ same | releases _ _ same => exact same ▸ counter

/-- An operation mentions no id that was not mentioned, but for that of a session that asks. -/
theorem LockEffect.mentions (mentioned : db'.lockManager.mentions j = true) :
    db.lockManager.mentions j = true ∨ op.isRequest = true ∧ j = db.lockId s := by
  revert mentioned
  refine eff.locks (P := fun lm => lm.mentions j = true → _) .inl (fun key mode isOp mentioned => ?_)
    (fun _ _ _ mentioned => .inl (LockManager.mentions_attempt mentioned))
    (fun mentioned => .inl (LockManager.mentions_releaseAll mentioned))
  obtain isId | old := LockManager.mentions_request mentioned
  · exact .inr ⟨isOp ▸ rfl, isId⟩
  · exact .inl old

end

theorem lockId_ne_zero (counter : 0 < db.nextLockId) : db.lockId s ≠ 0 := by
  unfold lockId ensureLockTxnId
  split
  · rw [setSession]
    simp only [Function.update_self]
    omega
  · assumption

variable (owned : Owned db users)
include owned

theorem Owned.ownLocks (fresh : FreshId s (db, op)) : users.OwnLocks s (db, op) := by
  intro isRequest mentioned
  cases op with
  | request key mode =>
    by_cases none : (db.sessions s).transactionId = 0
    · have given : db.givesId s (.request key mode) = some (db.lockId s) := by
        simp [givesId, lockId, ensureLockTxnId, none, setSession]
      rw [(fresh _ given).1] at mentioned
      cases mentioned
    · have isId : db.lockId s = (db.sessions s).transactionId := by
        rw [lockId, ensureLockTxnId, if_neg none]
      rw [isId] at mentioned ⊢
      exact owned.own s none mentioned
  | _ => cases isRequest

/-- An operation keeps what is owned, when the id it gives is fresh. -/
theorem Owned.effect (fresh : FreshId s (db, op))
    (eff : LockEffect s db op db') : Owned db' (users.follow s (db, op)) := by
  have distinct := eff.distinct (fun i given => (fresh i given).2) owned.distinct
  refine ⟨distinct, ?_, eff.counter owned.counter⟩
  intro a some mentioned t mem
  rw [Users.follow] at mem
  by_cases asks : op.isRequest = true ∧ (db'.sessions a).transactionId = db.lockId s
  · -- The id that the operation asks under is that of its session.
    have mine : (db'.sessions s).transactionId = db.lockId s := by
      cases eff with
      | requests sess _ _ => rw [sess, lockId]
      | same noRequest _ => cases asks.1.symm.trans noRequest
      | ends which _ _ _ => obtain rfl | rfl := which <;> cases asks.1
      | _ => cases asks.1
    obtain rfl : a = s := by
      by_contra apart
      exact distinct a s apart some (asks.2.trans mine.symm)
    rw [if_pos asks.1, asks.2, Function.update_self] at mem
    obtain rfl | mem := List.mem_cons.1 mem
    · rfl
    · split at mem
      · next held => exact owned.ownLocks fresh asks.1 held t mem
      · cases mem
  · have before := (eff.mentions mentioned).resolve_right asks
    have same : t ∈ users (db'.sessions a).transactionId := by
      split at mem
      · next isRequest =>
        rwa [Function.update_of_ne (fun isId => asks ⟨isRequest, isId⟩)] at mem
      · exact mem
    rcases eff.id a with none | isId | ⟨rfl, given⟩
    · exact absurd none some
    · rw [isId] at some before same
      exact owned.own a some before t same
    · rw [(fresh _ given).1] at before
      cases before

theorem Owned.same (kept : SameLocks db db') : Owned db' users :=
  @Owned.effect 0 db db' .look users owned nofun (.same rfl kept)

end Database

/-! ## Runs -/

namespace Engine

variable {e : Engine} {s : Nat} {call : Call}

/-- The ids the action gives sessions are fresh. -/
def FreshIds (e : Engine) : Action → Prop
  | .resume s => ∀ access ∈ e.performed s, Database.FreshId s access
  | _ => True

structure Watched where
  engine : Engine
  users : Users := fun _ => []

namespace Watched

def step (w : Watched) (a : Action) : Watched where
  engine := w.engine.step a
  users := match a with
    | .resume s => (w.engine.performed s).foldl (Users.follow s) w.users
    | _ => w.users

/-- No session asks for a lock under an id under which another session holds or awaits one. -/
def OwnLocks (w : Watched) : Action → Prop
  | .resume s => Meets (Users.follow s) (Users.OwnLocks s) w.users (w.engine.performed s)
  | _ => True

instance (w : Watched) : (a : Action) → Decidable (w.OwnLocks a)
  | .resume s => inferInstanceAs (Decidable (Meets _ (Users.OwnLocks s) _ _))
  | .call _ _ _ => .isTrue trivial
  | .vacuumWorker => .isTrue trivial

end Watched

theorem keptOutside_owned : KeptOutside (fun db users => Database.Owned db users) e s call where
  clear _ _ owned := owned.same ⟨rfl, rfl, rfl⟩
  release db users owned :=
    @Database.Owned.effect s db _ .release users owned nofun (.releases
      Database.releaseLocks_sessions rfl Database.releaseLocks_nextLockId)
  flush _ _ _ owned := owned.same ⟨rfl, rfl, rfl⟩
  rollback _ users _ owned :=
    @Database.Owned.effect s e.db _ .rollback users owned nofun
      (Database.rollback_finishes.endsOrKeeps.effect (.inr rfl))

variable {known : List Nat} {a : Action} {db db' : Database}

theorem owned_step {w : Watched} (owned : w.engine.db.Owned w.users) (fresh : w.engine.FreshIds a) :
    (w.step a).engine.db.Owned (w.step a).users := by
  cases a with
  | call env s stmt =>
    show ((w.engine.step (.call env s stmt)).db).Owned w.users
    simp only [step]
    split
    · exact owned
    · exact owned.same ⟨rfl, rfl, rfl⟩
  | resume s =>
    show (w.engine.step (.resume s)).db.Owned ((w.engine.performed s).foldl (Users.follow s) w.users)
    cases inCall : w.engine.calls s with
    | none => simpa [step, performed, inCall] using owned
    | some call =>
      simp only [step, inCall]
      refine resume_simulation inCall ?_ keptOutside_owned owned
      intro acc mem db' resp users ran owned
      exact owned.effect (fresh acc mem) (Database.perform_lockEffect ran)
  | vacuumWorker =>
    show (w.engine.step .vacuumWorker).db.Owned w.users
    simp only [step]
    split
    · exact owned
    · exact owned.same (Database.onTables_sameLocks _)

theorem ownLocks_of_owned {w : Watched} (owned : w.engine.db.Owned w.users)
    (fresh : w.engine.FreshIds a) : w.OwnLocks a := by
  cases a with
  | resume s =>
    show Meets (Users.follow s) (Users.OwnLocks s) w.users (w.engine.performed s)
    cases inCall : w.engine.calls s with
    | none =>
      rw [performed, inCall]
      trivial
    | some call =>
      refine performed_meets inCall ?_ ?_ owned
      · intro acc mem db' resp users ran owned
        exact owned.effect (fresh acc mem) (Database.perform_lockEffect ran)
      · intro acc mem users owned
        exact owned.ownLocks (fresh acc mem)
  | _ => trivial

/-- In every run whose ids, as they are given out, are of no other session and have no locks, no
    session asks for a lock under an id under which another session holds or awaits one. -/
theorem fresh_ids_own_locks (start : Database) (idle : ∀ s, start.sessions s = {})
    (counter : 0 < start.nextLockId) (actions : List Action)
    (fresh : Meets step FreshIds { db := start } actions) :
    Meets Watched.step Watched.OwnLocks { engine := { db := start } } actions := by
  have start_owned : start.Owned (fun _ => []) := by
    refine ⟨fun a b _ some => ?_, fun a _ _ t member => ?_, counter⟩
    · exact absurd (by rw [idle]) some
    · cases member
  have watched : Meets Watched.step (fun w a => w.engine.FreshIds a) { engine := { db := start } }
      actions := Meets.lift (fun _ _ => rfl) fresh
  exact @Meets.of_inv _ _ Watched.step _ _ (fun w => w.engine.db.Owned w.users)
    (fun _ _ => owned_step) (fun _ _ => ownLocks_of_owned) _ _ watched start_owned

/-! ## Runs of a few sessions -/

/-- Sessions that are not among `known` have done nothing. -/
def OthersIdle (known : List Nat) (db : Database) : Prop := ∀ t, t ∉ known → db.sessions t = {}

/-- `FreshIds`, checked against the sessions among `known` only. -/
def freshAmong (known : List Nat) (e : Engine) : Action → Bool
  | .resume s => known.contains s && (e.performed s).all (fun access =>
    (access.1.givesId s access.2).all (fun i => i ≠ 0 && !access.1.lockManager.mentions i &&
      known.all (fun t => t = s || (access.1.sessions t).transactionId ≠ i)))
  | _ => true

theorem othersIdle_of_update {session : Transaction} (idle : OthersIdle known db) (among : s ∈ known)
    (sess : db'.sessions = Function.update db.sessions s session) : OthersIdle known db' := by
  intro t outside
  have apart : t ≠ s := fun eq => outside (eq ▸ among)
  rw [sess, Function.update_of_ne apart]
  exact idle t outside

theorem othersIdle_effect {op : Op} (idle : OthersIdle known db) (among : s ∈ known)
    (eff : db.LockEffect s op db') : OthersIdle known db' := by
  obtain ⟨session, sess⟩ := eff.sessions
  exact othersIdle_of_update idle among sess

theorem othersIdle_perform {op : Op} {fns : Functions} {resp : Response}
    (idle : OthersIdle known db) (among : s ∈ known)
    (ran : db.perform fns s op = some (db', resp)) : OthersIdle known db' :=
  othersIdle_effect idle among (Database.perform_lockEffect ran)

theorem othersIdle_step (idle : OthersIdle known e.db) (fresh : freshAmong known e a = true) :
    OthersIdle known (e.step a).db := by
  cases a with
  | call env s stmt =>
    simp only [step]
    split <;> exact idle
  | resume s =>
    simp only [freshAmong, Bool.and_eq_true, List.contains_iff_mem] at fresh
    simp only [step]
    split
    · exact idle
    · next call inCall =>
      refine @resume_simulation e s call Unit (fun db _ => OthersIdle known db) (fun t _ => t) ()
        inCall (fun _ _ _ _ _ ran idle => othersIdle_perform idle fresh.1 ran) ?_ idle
      refine ⟨fun _ _ idle => idle, fun db _ idle => ?_, fun _ _ _ idle => idle, fun _ _ _ idle => ?_⟩
      · intro t outside
        rw [Database.releaseLocks_sessions]
        exact idle t outside
      · exact othersIdle_effect idle fresh.1 (Database.rollback_finishes.endsOrKeeps.effect (.inr rfl))
  | vacuumWorker =>
    simp only [step]
    split <;> exact idle

theorem freshIds_of_among (idle : OthersIdle known e.db) (fresh : freshAmong known e a = true) :
    e.FreshIds a := by
  cases a with
  | resume s =>
    simp only [freshAmong, Bool.and_eq_true, List.contains_iff_mem, List.all_eq_true] at fresh
    obtain ⟨among, all⟩ := fresh
    intro acc mem i given
    have ok := all acc mem
    rw [given] at ok
    simp only [Option.all_some, Bool.and_eq_true, decide_eq_true_eq, Bool.not_eq_true', ne_eq,
      List.all_eq_true, Bool.or_eq_true] at ok
    obtain ⟨⟨positive, unused⟩, others⟩ := ok
    refine ⟨unused, fun t apart => ?_⟩
    by_cases isIn : t ∈ known
    · exact (others t isIn).resolve_left apart
    · obtain ⟨call, inCall, -⟩ := ahead_of_performed mem
      have idle : OthersIdle known acc.1 :=
        performed_inv (I := OthersIdle known) inCall
          (fun _ _ _ _ ran idle => othersIdle_perform idle among ran) idle acc mem
      rw [idle t isIn]
      exact Ne.symm positive
  | _ => trivial

/-- The condition for a run of a few sessions, from a database that was just opened. -/
theorem meets_freshIds {known : List Nat} {start : Database} {actions : List Action}
    (idle : ∀ s, start.sessions s = {})
    (fresh : Meets step (fun e a => freshAmong known e a = true) { db := start } actions) :
    Meets step FreshIds { db := start } actions :=
  @Meets.of_inv _ _ step _ _ (fun e => OthersIdle known e.db) (fun _ _ => othersIdle_step)
    (fun _ _ => freshIds_of_among) _ _ fresh (fun t _ => idle t)

/-- Two sessions in transactions, of which one waits for the other's row lock. -/
theorem two_transactions_own_locks :
    Meets Watched.step Watched.OwnLocks
      { engine := { db := { tables := [("account", account)] } } }
      (query 0 .begin 2 ++ query 1 .begin 2 ++ query 0 (setBalance 20) 5 ++
        query 1 (setBalance 30) 2) :=
  fresh_ids_own_locks _ (fun _ => rfl) (by decide) _
    (@meets_freshIds [0, 1] _ _ (fun _ => rfl) (by decide +kernel))

/-- Session 0 is in the first transaction, id 1, and holds the lock of the row. The update of
    session 1 runs outside a transaction: its id, the first of `next_lock_id_`, is 1 too, and it
    is let through to the row. -/
theorem autocommit_under_transaction_id :
    ¬ Meets Watched.step Watched.OwnLocks
      { engine := { db := { tables := [("account", account)] } } }
      (query 0 .begin 2 ++ query 0 (setBalance 20) 5 ++ query 1 (setBalance 30) 2) ∧
    ((run step { db := { tables := [("account", account)] } }
      (query 0 .begin 2 ++ query 0 (setBalance 20) 5 ++ query 1 (setBalance 30) 2)).calls 1).any
        (fun call => call.phase matches .body _) = true := by
  decide +kernel

end Engine

end NobugDb
