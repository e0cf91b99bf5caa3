import NobugDb.Core.Proofs.HeldLocks
import NobugDb.Executor.Proofs.BodyRuns

/-!
# Custody of locks

Which session was granted a lock is not in the lock manager, which knows ids only; `Holders` follows
it along the operations. A session holds locks under its id, and between statements it holds none
unless it is in a transaction. What an operation or a program of operations does to this, for the
session that performs it and for the others, is said here once.
-/

namespace NobugDb

open Misc (Program)
open LockManager
open Option (some.inj)

/-! ## Who was granted a lock -/

namespace Database

variable {storage : Storage} {fns : Functions} {s t i : Nat} {db db' : Database} {op : Op}
  {response : Response}

theorem performOn_effect (ran : db.performOn storage fns s op = some (db', response)) :
    LockEffect s db op db' := by
  cases op with
  | commit =>
    have after := respondWith_fst_eq (some.inj ran)
    exact (after ▸ commitOn_finishes.endsOrKeeps).effect (.inl rfl)
  | persist res =>
    have after := respondWith_fst_eq (some.inj ran)
    exact .same rfl (after ▸ (persist_onlyTables _ _).sameLocks)
  | _ => exact @perform_lockEffect fns s db db' _ response ran

/-- The id under which the operation grants session `s` a lock. -/
def grants (db : Database) (s : Nat) : Op → Option Nat
  | .request key mode =>
    if (db.lockManager.request (db.lockId s) key mode).2 then some (db.lockId s) else none
  | .attempt key mode =>
    if (db.lockManager.attempt (db.sessions s).transactionId key mode).2 = .granted then
      some (db.sessions s).transactionId
    else none
  | _ => none

variable (eff : LockEffect s db op db')
include eff

/-- A lock that is granted was so before, or the operation granted it. -/
theorem LockEffect.holds (noted : db.lockManager.Noted) (held : db'.lockManager.holds i = true) :
    db.lockManager.holds i = true ∨ db.grants s op = some i := by
  revert held
  refine eff.locks (P := fun lm => lm.holds i = true → _) .inl
    (fun key mode _ held => .inl (holds_request held)) (fun key mode isOp held => ?_)
    (fun held => .inl (noted.holds_releaseAll held).2)
  subst isOp
  obtain old | ⟨rfl, turn⟩ := holds_attempt held
  · exact .inl old
  · exact .inr (if_pos turn)

theorem LockEffect.noted (noted : db.lockManager.Noted) : db'.lockManager.Noted :=
  eff.locks noted (fun _ _ _ => noted.request) (fun _ _ _ => noted.attempt) noted.releaseAll

/-- No lock is asked for under the id 0, which sessions have that never asked. -/
theorem LockEffect.zero (counter : 0 < db.nextLockId)
    (zero : db.lockManager.mentions 0 = false) : db'.lockManager.mentions 0 = false := by
  rw [Bool.eq_false_iff] at zero ⊢
  intro mentioned
  obtain old | ⟨-, isId⟩ := eff.mentions mentioned
  · exact zero old
  · exact lockId_ne_zero counter isId.symm

end Database

/-- For each id the sessions that were granted locks under it since it had none. -/
abbrev Holders := Nat → List Nat

namespace Holders

def follow (s : Nat) (holders : Holders) (access : Database × Op) : Holders :=
  match access.1.grants s access.2 with
  | none => holders
  | some i =>
    Function.update holders i (s :: if access.1.lockManager.holds i then holders i else [])

/-- The session holds a lock under the id. -/
def Has (holders : Holders) (db : Database) (s i : Nat) : Prop :=
  db.lockManager.holds i = true ∧ s ∈ holders i

variable {holders holders' : Holders} {s t i : Nat} {db db' : Database} {op : Op}

theorem follow_of_grants_none (none : db.grants s op = none) : holders.follow s (db, op) = holders := by
  rw [follow, none]

/-- The session whose operation it is may get a lock; other sessions get none. -/
theorem has_of_follow (eff : db.LockEffect s op db') (noted : db.lockManager.Noted)
    (has : (holders.follow s (db, op)).Has db' t i) :
    holders.Has db t i ∨ t = s ∧ db.grants s op = some i := by
  obtain ⟨held, mem⟩ := has
  have before := eff.holds noted held
  rw [follow] at mem
  cases got : db.grants s op with
  | none =>
    rw [got] at mem before
    exact .inl ⟨before.resolve_right nofun, mem⟩
  | some j =>
    rw [got] at mem before
    by_cases same : i = j
    · subst same
      simp only [Function.update_self] at mem
      obtain rfl | mem := List.mem_cons.1 mem
      · exact .inr ⟨rfl, rfl⟩
      · split at mem
        · next old => exact .inl ⟨old, mem⟩
        · cases mem
    · simp only [Function.update_of_ne same] at mem
      exact .inl ⟨before.resolve_right (fun eq => same (some.inj eq).symm), mem⟩

end Holders

/-! ## What holds between the operations -/

/-- Sessions hold locks under their own id. -/
structure Custody (db : Database) (holders : Holders) : Prop where
  noted : db.lockManager.Noted
  zero : db.lockManager.mentions 0 = false
  counter : 0 < db.nextLockId
  underId : ∀ s i, holders.Has db s i → i = (db.sessions s).transactionId

/-- Where a session stands: between statements, or in one that found it inside or outside a
    transaction. -/
inductive Standing where
  | settled
  | inside
  | outside

/-- Between statements a session that is in no transaction holds no lock. -/
def Standing.Holds (db : Database) (holders : Holders) (s : Nat) : Standing → Prop
  | .settled => (db.sessions s).inTransaction = true ∨ ∀ i, ¬ holders.Has db s i
  | .inside => (db.sessions s).inTransaction = true
  | .outside => (db.sessions s).inTransaction = false

/-- Nothing of the session has changed, but for locks it may have lost. -/
structure Unharmed (s : Nat) (db db' : Database) (holders holders' : Holders) : Prop where
  session : db'.sessions s = db.sessions s
  locks : ∀ i, holders'.Has db' s i → holders.Has db s i

section

variable {storage : Storage} {fns : Functions} {s t i : Nat} {db db' : Database}
  {holders holders' : Holders} {op : Op} {standing : Standing} {response : Response}

theorem Unharmed.refl (s : Nat) (db : Database) (holders : Holders) : Unharmed s db db holders holders :=
  ⟨rfl, fun _ has => has⟩

theorem Unharmed.trans {db'' : Database} {holders'' : Holders} (fst : Unharmed s db db' holders holders')
    (snd : Unharmed s db' db'' holders' holders'') : Unharmed s db db'' holders holders'' :=
  ⟨snd.session.trans fst.session, fun i has => fst.locks i (snd.locks i has)⟩

theorem Unharmed.holds (unharmed : Unharmed s db db' holders holders')
    (holds : standing.Holds db holders s) : standing.Holds db' holders' s := by
  cases standing with
  | settled =>
    refine holds.imp (fun inTx => unharmed.session ▸ inTx) (fun none i has => ?_)
    exact none i (unharmed.locks i has)
  | inside => exact (unharmed.session ▸ holds : (db'.sessions s).inTransaction = true)
  | outside => exact (unharmed.session ▸ holds : (db'.sessions s).inTransaction = false)

theorem unharmed_other (custody : Custody db holders) (eff : db.LockEffect s op db') (apart : t ≠ s) :
    Unharmed t db db' holders (holders.follow s (db, op)) :=
  ⟨eff.other apart, fun _ has =>
    (Holders.has_of_follow eff custody.noted has).resolve_right (fun mine => apart mine.1)⟩

theorem Unharmed.of_sameLocks (kept : db.SameLocks db') : Unharmed s db db' holders holders :=
  ⟨by rw [kept.sessions], fun i has => ⟨kept.lockManager ▸ has.1, has.2⟩⟩

variable (custody : Custody db holders)
include custody

theorem Custody.of_sameLocks (kept : db.SameLocks db') :
    Custody db' holders where
  noted := kept.lockManager ▸ custody.noted
  zero := kept.lockManager ▸ custody.zero
  counter := kept.nextLockId ▸ custody.counter
  underId s i has := by
    rw [kept.sessions]
    exact custody.underId s i ⟨kept.lockManager ▸ has.1, has.2⟩

theorem Custody.none_of_free
    (free : db.lockManager.holds (db.sessions s).transactionId = false) (i : Nat) :
    ¬ holders.Has db s i := by
  intro has
  have isId := custody.underId s i has
  rw [isId] at has
  exact absurd has.1 (by simp [free])

theorem Custody.released
    (locks : db'.lockManager = (db.releaseSessionLocks s).lockManager) (i : Nat) :
    ¬ holders.Has db' s i := by
  rintro ⟨held, mem⟩
  rw [locks] at held
  unfold Database.releaseSessionLocks at held
  split at held
  · next isZero =>
    have isId := custody.underId s i ⟨held, mem⟩
    rw [isId, isZero] at held
    exact absurd (mentions_of_holds held) (by simp [custody.zero])
  · obtain ⟨ne, old⟩ := custody.noted.holds_releaseAll held
    exact ne (custody.underId s i ⟨old, mem⟩)

/-- An operation keeps custody; BEGIN, which gives the session another id, does so when the session
    holds no lock. -/
theorem Custody.perform (eff : db.LockEffect s op db')
    (free : op = .begin → Standing.settled.Holds db holders s) :
    Custody db' (holders.follow s (db, op)) where
  noted := eff.noted custody.noted
  zero := eff.zero custody.counter custody.zero
  counter := eff.counter custody.counter
  underId t i has := by
    obtain old | ⟨rfl, got⟩ := Holders.has_of_follow eff custody.noted has
    · have isId := custody.underId t i old
      by_cases isS : t = s
      · subst isS
        cases eff with
        | same _ kept => rw [kept.sessions, isId]
        | begins outside _ _ _ =>
          obtain inTx | none := free rfl
          · exact absurd inTx (by simp [outside])
          · exact absurd old (none i)
        | ends which _ locks _ =>
          have same : holders.follow t (db, op) = holders :=
            Holders.follow_of_grants_none (by obtain rfl | rfl := which <;> rfl)
          exact absurd (same ▸ has) (custody.released locks i)
        | requests sess _ _ =>
          rw [sess]
          unfold Database.ensureLockTxnId
          split
          · next isZero =>
            rw [isId, isZero] at old
            exact absurd (mentions_of_holds old.1) (by simp [custody.zero])
          · exact isId
        | attempts sess _ _ | releases sess _ _ => rw [sess, isId]
      · rw [eff.other isS, isId]
    · cases eff with
      | same noRequest kept =>
        rw [kept.sessions]
        cases op with
        | attempt key mode =>
          simp only [Database.grants] at got
          split at got
          · exact (some.inj got).symm
          · cases got
        | request key mode => cases noRequest
        | _ => cases got
      | begins _ _ _ _ => cases got
      | ends which _ _ _ => obtain rfl | rfl := which <;> cases got
      | requests sess _ _ | attempts sess _ _ =>
        simp only [Database.grants] at got
        split at got
        · rw [sess]
          exact (some.inj got).symm
        · cases got
      | releases _ _ _ => cases got

end

/-! ## Operations of a session -/

section

variable {storage : Storage} {fns : Functions} {s t i : Nat} {db db' : Database}
  {holders holders' : Holders} {op : Op} {response : Response}

variable {standing : Standing}

theorem inTx_of_keeps (eff : db.LockEffect s op db') (keeps : op.keepsTransaction = true) :
    (db'.sessions s).inTransaction = (db.sessions s).inTransaction := by
  cases eff with
  | same _ kept => rw [kept.sessions]
  | begins _ _ _ _ => cases keeps
  | ends which _ _ _ => obtain rfl | rfl := which <;> cases keeps
  | requests sess _ _ =>
    rw [sess]
    unfold Database.ensureLockTxnId
    split
    · simp [Database.setSession]
    · rfl
  | attempts sess _ _ => rw [sess]
  | releases sess _ _ => rw [sess]

theorem sameLocks_of_plain (eff : db.LockEffect s op db') (plain : op.isPlain = true) :
    db.SameLocks db' := by
  cases eff with
  | same _ kept => exact kept
  | begins _ _ _ _ => cases plain
  | ends which _ _ _ => obtain rfl | rfl := which <;> cases plain
  | requests _ _ _ => cases plain
  | attempts _ _ _ => cases plain
  | releases _ _ _ => cases plain

theorem settled_of_control (custody : Custody db holders) (eff : db.LockEffect s op db')
    (control : op.keepsTransaction = false) (settled : Standing.settled.Holds db holders s) :
    Standing.settled.Holds db' holders s := by
  cases eff with
  | same _ kept => exact (Unharmed.of_sameLocks kept).holds settled
  | begins _ sess _ _ =>
    refine .inl ?_
    rw [sess, Function.update_self]
  | ends _ _ locks _ => exact .inr (custody.released locks)
  | requests _ _ _ | attempts _ _ _ | releases _ _ _ => cases control

/-- The whole change of an operation, for the session and for the others. -/
structure Moves (s : Nat) (standing : Standing) (db : Database) (holders : Holders) (db' : Database)
    (holders' : Holders) : Prop where
  custody : Custody db' holders'
  mine : standing.Holds db' holders' s
  others : ∀ t, t ≠ s → Unharmed t db db' holders holders'

theorem Moves.trans {standing' : Standing} {db'' : Database} {holders'' : Holders}
    (fst : Moves s standing db holders db' holders')
    (snd : Moves s standing' db' holders' db'' holders'') :
    Moves s standing' db holders db'' holders'' :=
  ⟨snd.custody, snd.mine, fun t apart => (fst.others t apart).trans (snd.others t apart)⟩

theorem moves_of_sameLocks (custody : Custody db holders) (mine : standing.Holds db holders s)
    (kept : db.SameLocks db') : Moves s standing db holders db' holders :=
  ⟨custody.of_sameLocks kept, (Unharmed.of_sameLocks kept).holds mine,
    fun _ _ => .of_sameLocks kept⟩

theorem grants_of_plain (plain : op.isPlain = true) : db.grants s op = none := by
  cases op with
  | request key mode => cases plain
  | attempt key mode => cases plain
  | _ => rfl

variable (custody : Custody db holders)
include custody

theorem moves_of_plain (settled : Standing.settled.Holds db holders s)
    (plain : op.isPlain = true) (ran : db.performOn storage fns s op = some (db', response)) :
    Moves s .settled db holders db' (holders.follow s (db, op)) := by
  rw [Holders.follow_of_grants_none (grants_of_plain plain)]
  exact moves_of_sameLocks custody settled
    (sameLocks_of_plain (Database.performOn_effect ran) plain)

theorem moves_of_keeps (mine : standing.Holds db holders s)
    (working : standing ≠ .settled) (keeps : op.keepsTransaction = true)
    (ran : db.performOn storage fns s op = some (db', response)) :
    Moves s standing db holders db' (holders.follow s (db, op)) := by
  have eff := Database.performOn_effect ran
  have same := inTx_of_keeps eff keeps
  refine ⟨custody.perform eff ?_, ?_, fun t apart => unharmed_other custody eff apart⟩
  · rintro rfl
    cases keeps
  · cases standing with
    | settled => exact absurd rfl working
    | inside | outside => exact same.trans mine

theorem moves_of_control (settled : Standing.settled.Holds db holders s)
    (control : op.keepsTransaction = false)
    (ran : db.performOn storage fns s op = some (db', response)) :
    Moves s .settled db holders db' (holders.follow s (db, op)) := by
  have effect := Database.performOn_effect ran
  have moved := custody.perform effect (fun _ => settled)
  have others (t : Nat) (apart : t ≠ s) := unharmed_other custody effect apart
  have none : db.grants s op = none := by
    cases op with
    | request key mode | attempt key mode => cases control
    | _ => rfl
  rw [Holders.follow_of_grants_none none] at moved others ⊢
  exact ⟨moved, settled_of_control custody effect control settled, others⟩

theorem moves_of_release (ran : db.performOn storage fns s .release = some (db', response)) :
    Moves s .settled db holders db' (holders.follow s (db, .release)) := by
  have eff := Database.performOn_effect ran
  cases ran
  refine ⟨custody.perform eff nofun, .inr ?_, fun t apart => unharmed_other custody eff apart⟩
  exact custody.released rfl

end

/-! ## Programs of a session -/

section

variable {α : Type} {storage : Storage} {fns : Functions} {s : Nat} {db : Database} {holders : Holders}
  {standing : Standing}

def Holders.after (holders : Holders) (storage : Storage) (fns : Functions) (s : Nat) (db : Database)
    (body : Body α) : Holders :=
  (Program.performed (Database.performOn storage fns s) db body).foldl (follow s) holders

theorem moves_of_program {Q : Op → Prop} {body : Body α} {db' : Database}
    {rest : Program Op Response (Except Exn α)}
    (runs : Program.exec (Database.performOn storage fns s) db body = (db', rest)) (all : body.All Q)
    (each : ∀ db op db' response holders, Q op → Custody db holders → standing.Holds db holders s →
      db.performOn storage fns s op = some (db', response) →
      Moves s standing db holders db' (holders.follow s (db, op)))
    (custody : Custody db holders) (mine : standing.Holds db holders s) :
    Moves s standing db holders db' (holders.after storage fns s db body) := by
  have left : (Program.exec (Database.performOn storage fns s) db body).1 = db' := by rw [runs]
  rw [← left]
  refine @Program.exec_simulation _ _ _ _ Holders (Database.performOn storage fns s) (Holders.follow s)
    (fun db' holders' => Moves s standing db holders db' holders') body db holders ?_
    ⟨custody, mine, fun t _ => .refl t db holders⟩
  intro acc mem db' response holders' ran moves
  exact moves.trans (each acc.1 acc.2 db' response holders'
    (Program.All.performed all acc mem) moves.custody moves.mine ran)

/-- The program performs one operation and ends. -/
def Single (op : Op) (body : Body α) : Prop :=
  ∃ next, body = Program.perform op next ∧ ∀ response, ∃ outcome, next response = Program.done outcome

theorem single_perform (op : Op) : Single op (Body.perform op) := by
  refine ⟨_, rfl, fun response => ?_⟩
  show ∃ out, ExceptT.bindCont _ (.ok response) = Program.done out
  simp only [ExceptT.bindCont]
  split
  · exact ⟨_, rfl⟩
  · exact ⟨_, rfl⟩

theorem single_control (op : Op) : Single op (Command.control op) := by
  obtain ⟨next, eq, ends⟩ := single_perform op
  let result : Except Exn Response → Program Op Response (Except Exn QueryResult) :=
    ExceptT.bindCont (fun response => (pure response.result : Body QueryResult))
  refine ⟨fun response => (next response).bind result, ?_, fun response => ?_⟩
  · unfold Command.control
    rw [eq]
    rfl
  · obtain ⟨out, isDone⟩ := ends response
    dsimp only
    rw [isDone]
    cases out with
    | error e | ok a => exact ⟨_, rfl⟩

theorem Single.exec {op : Op} {body : Body α} (single : Single op body) {db' : Database}
    {response : Response} (ran : db.performOn storage fns s op = some (db', response)) :
    ∃ out, Program.exec (Database.performOn storage fns s) db body = (db', Program.done out) ∧
      holders.after storage fns s db body = holders.follow s (db, op) := by
  obtain ⟨next, rfl, ends⟩ := single
  obtain ⟨out, isDone⟩ := ends response
  refine ⟨out, ?_, ?_⟩
  · rw [Program.exec_perform ran, isDone]
    rfl
  · rw [Holders.after, Program.performed_perform ran, isDone]
    rfl

end

end NobugDb
