import NobugDb.Core.Proofs.DispatcherSteps

/-!
# Locks exclude each other

All locks are asked for in exclusive mode. A key is then granted under one id at a time, so two
sessions with different ids never hold it together. What an operation takes from the queues is the
session's own: the requests of other sessions stay, and so do its granted ones unless it releases
them.
-/

namespace NobugDb

open Misc (AssocMap)
open LockManager

namespace LockManager

variable {lm : LockManager} {i : Nat} {key other : String} {mode : LockMode} {req : LockRequest}
  {q : List LockRequest}

/-! ## Requests that stay -/

theorem mem_grantFirst_of_stays (mem : req ∈ q) (stays : req.granted = true ∨ req.txnId ≠ i) :
    req ∈ grantFirst i mode q := by
  induction q with
  | nil => cases mem
  | cons fst q ih =>
    rw [grantFirst]
    split
    · next waits =>
      obtain rfl | mem := List.mem_cons.1 mem
      · obtain granted | other := stays
        · rw [waits.2] at granted
          cases granted
        · exact absurd waits.1 other
      · exact List.mem_cons_of_mem _ mem
    · obtain rfl | mem := List.mem_cons.1 mem
      · exact List.mem_cons_self
      · exact List.mem_cons_of_mem _ (ih mem)

theorem mem_queue_request (mem : req ∈ lm.queue other) :
    req ∈ (lm.request i key mode).1.queue other := by
  generalize res : lm.request i key mode = after
  obtain ⟨lm', held⟩ := after
  rw [request_eq_ok res]
  cases held with
  | true =>
    rw [if_pos rfl, queue_congr tables_noteHeld]
    exact mem
  | false =>
    rw [if_neg nofun, queue_enqueue]
    split
    · next here => exact List.mem_append_left _ (here ▸ mem)
    · exact mem

theorem mem_queue_attempt (mem : req ∈ lm.queue other)
    (stays : req.granted = true ∨ req.txnId ≠ i) : req ∈ (lm.attempt i key mode).1.queue other := by
  rw [attempt_eq]
  split_ifs
  · rw [queue_grant]
    split
    · next here => exact mem_grantFirst_of_stays (here ▸ mem) stays
    · exact mem
  · rw [queue_refuse]
    split
    · next here =>
      refine List.mem_filter.mpr ⟨here ▸ mem, ?_⟩
      obtain granted | apart := stays
      · simp [granted]
      · simp [apart]
    · exact mem
  · exact mem

theorem mem_queue_releaseAll (sorted : AssocMap.Increasing lm.tables) (mem : req ∈ lm.queue other)
    (apart : req.txnId ≠ i) : req ∈ (lm.releaseAll i).queue other := by
  rw [queue_releaseAll sorted.nodup]
  split
  · exact List.mem_filter.mpr ⟨mem, by simpa using apart⟩
  · exact mem

/-! ## One id at a time -/

/-- All requests are exclusive, and a key is granted under one id only. -/
structure Exclusive (lm : LockManager) : Prop where
  sorted : AssocMap.Increasing lm.tables
  modes : ∀ key, ∀ req ∈ lm.queue key, req.mode = .exclusive
  alone : ∀ key, ∀ a ∈ lm.queue key, ∀ b ∈ lm.queue key, a.granted = true → b.granted = true →
    a.txnId = b.txnId

theorem exclusive_empty : ({} : LockManager).Exclusive :=
  ⟨List.Pairwise.nil, fun _ _ mem => absurd mem List.not_mem_nil,
    fun _ _ mem => absurd mem List.not_mem_nil⟩

theorem Exclusive.of_subset {lm' : LockManager} (excl : lm.Exclusive)
    (sorted : AssocMap.Increasing lm'.tables) (sub : ∀ key, lm'.queue key ⊆ lm.queue key) :
    lm'.Exclusive :=
  ⟨sorted, fun key req mem => excl.modes key req (sub key mem),
    fun key a inA b inB => excl.alone key a (sub key inA) b (sub key inB)⟩

theorem Exclusive.request (excl : lm.Exclusive) : (lm.request i key .exclusive).1.Exclusive := by
  generalize res : lm.request i key .exclusive = after
  obtain ⟨lm', held⟩ := after
  rw [request_eq_ok res]
  cases held with
  | true =>
    rw [if_pos rfl]
    refine excl.of_subset ?_ (fun key => ?_)
    · rw [tables_noteHeld]
      exact excl.sorted
    · rw [queue_congr tables_noteHeld]
      exact List.Subset.refl _
  | false =>
    rw [if_neg nofun]
    refine ⟨excl.sorted.assign _ _, fun key req mem => ?_, fun key a inA b inB => ?_⟩
    · obtain old | ⟨-, rfl⟩ := mem_queue_enqueue mem
      · exact excl.modes key req old
      · rfl
    · intro grantedA grantedB
      obtain oldA | ⟨-, rfl⟩ := mem_queue_enqueue inA
      · obtain oldB | ⟨-, rfl⟩ := mem_queue_enqueue inB
        · exact excl.alone key a oldA b oldB grantedA grantedB
        · cases grantedB
      · cases grantedA

theorem mem_grantFirst_cases (mem : req ∈ grantFirst i .exclusive q) :
    req ∈ q ∨ req = ⟨i, .exclusive, true⟩ := by
  obtain old | ⟨old, -, rfl, rfl⟩ := of_mem_grantFirst mem
  · exact .inl old
  · exact .inr rfl

theorem Exclusive.canGrant (excl : lm.Exclusive)
    (can : canGrant i .exclusive (lm.queue key) = true) :
    ∀ req ∈ lm.queue key, req.granted = true → req.txnId = i := by
  intro req mem granted
  by_contra apart
  have compatible : Compatible (lm.queue key) := fun a inA b inB grantedA grantedB differ =>
    absurd (excl.alone key a inA b inB grantedA grantedB) differ
  cases (canGrant_spec compatible can req mem granted apart).2

theorem Exclusive.attempt (excl : lm.Exclusive) : (lm.attempt i key .exclusive).1.Exclusive := by
  rw [attempt_eq]
  split_ifs with can
  · have mine := excl.canGrant can
    refine ⟨?_, fun other req mem => ?_, fun other a inA b inB grantedA grantedB => ?_⟩
    · rw [grant, tables_noteHeld]
      exact excl.sorted.assign _ _
    · rw [queue_grant] at mem
      split at mem
      · obtain old | rfl := mem_grantFirst_cases mem
        · exact excl.modes key req old
        · rfl
      · exact excl.modes other req mem
    · rw [queue_grant] at inA inB
      split at inA
      · next here =>
        rw [if_pos here] at inB
        have id {req : LockRequest} (mem : req ∈ grantFirst i .exclusive (lm.queue key))
            (granted : req.granted = true) : req.txnId = i := by
          obtain old | rfl := mem_grantFirst_cases mem
          · exact mine req old granted
          · rfl
        rw [id inA grantedA, id inB grantedB]
      · next elsewhere =>
        rw [if_neg elsewhere] at inB
        exact excl.alone other a inA b inB grantedA grantedB
  · exact excl.of_subset (excl.sorted.assign _ _) (fun other => (refuse_sublist other).subset)
  · exact excl

theorem Exclusive.releaseAll (excl : lm.Exclusive) : (lm.releaseAll i).Exclusive :=
  excl.of_subset (sorted_releaseAll excl.sorted)
    (fun other => (releaseAll_sublist other excl.sorted.nodup).subset)

end LockManager

/-! ## Sessions -/

namespace Op

/-- A lock is asked for in exclusive mode, as all callers of `acquire_table_lock` and
    `acquire_row_lock` do. -/
def asksExclusive : Op → Bool
  | .request _ mode | .attempt _ mode => mode = .exclusive
  | _ => true

/-- The operation gives back no locks and leaves the session its id. -/
def keepsLocks : Op → Bool
  | .release => false
  | op => op.keepsTransaction

end Op

namespace Database

variable {store : Storage} {fns : Functions} {s t : Nat} {db db' : Database} {op : Op}
  {resp : Response} {key : String}

/-- Sessions have different ids, and a key is granted under one id only. -/
structure Excludes (db : Database) : Prop where
  locks : db.lockManager.Exclusive
  zero : db.lockManager.mentions 0 = false
  counter : 0 < db.nextLockId
  distinct : ∀ s t, s ≠ t → (db.sessions s).transactionId ≠ 0 →
    (db.sessions s).transactionId ≠ (db.sessions t).transactionId

variable {granted : Bool}

theorem LockEffect.exclusive (eff : LockEffect s db op db') (asks : op.asksExclusive = true)
    (excl : db.lockManager.Exclusive) : db'.lockManager.Exclusive := by
  refine eff.locks excl (fun key mode isOp => ?_) (fun key mode isOp => ?_) excl.releaseAll
  · subst isOp
    obtain rfl := of_decide_eq_true asks
    exact excl.request
  · subst isOp
    obtain rfl := of_decide_eq_true asks
    exact excl.attempt

theorem Excludes.perform (excludes : db.Excludes) (eff : LockEffect s db op db')
    (own : OwnId s (db, op)) (asks : op.asksExclusive = true) : db'.Excludes :=
  ⟨eff.exclusive asks excludes.locks, eff.zero excludes.counter excludes.zero,
    eff.counter excludes.counter, eff.distinct own excludes.distinct⟩

theorem Excludes.of_sameLocks (excludes : db.Excludes) (eq : SameLocks db db') : db'.Excludes :=
  ⟨eq.lockManager ▸ excludes.locks, eq.lockManager ▸ excludes.zero,
    eq.nextLockId ▸ excludes.counter, eq.sessions ▸ excludes.distinct⟩

/-! ## What a session holds -/

/-- The key has a request under the session's id, a granted or a waiting one. -/
def hasRequest (db : Database) (s : Nat) (granted : Bool) (key : String) : Bool :=
  (db.lockManager.queue key).any (fun req =>
    req.granted = granted && req.txnId = (db.sessions s).transactionId)

def holdsKey (db : Database) (s : Nat) (key : String) : Bool := db.hasRequest s true key

theorem hasRequest_iff : db.hasRequest s granted key = true ↔
    ∃ req ∈ db.lockManager.queue key, req.granted = granted ∧
      req.txnId = (db.sessions s).transactionId := by
  simp [hasRequest]

theorem Excludes.id_ne_zero (excludes : db.Excludes) (has : db.hasRequest s granted key = true) :
    (db.sessions s).transactionId ≠ 0 := by
  obtain ⟨req, mem, -, isId⟩ := hasRequest_iff.mp has
  intro none
  have mentioned := mentions_of_mem_queue mem
  rw [isId, none, excludes.zero] at mentioned
  cases mentioned

theorem Excludes.same_session (excludes : db.Excludes) (fst : db.holdsKey s key = true)
    (second : db.holdsKey t key = true) : s = t := by
  by_contra apart
  obtain ⟨a, inA, grantedA, isA⟩ := hasRequest_iff.mp fst
  obtain ⟨b, inB, grantedB, isB⟩ := hasRequest_iff.mp second
  have same := excludes.locks.alone key a inA b inB grantedA grantedB
  rw [isA, isB] at same
  exact excludes.distinct s t apart (excludes.id_ne_zero fst) same

theorem LockEffect.mem_queue (eff : LockEffect s db op db') (excl : db.lockManager.Exclusive)
    {req : LockRequest} (mem : req ∈ db.lockManager.queue key)
    (apart : req.txnId ≠ (db.sessions s).transactionId) : req ∈ db'.lockManager.queue key :=
  eff.locks (P := fun lm => req ∈ lm.queue key) mem (fun _ _ _ => mem_queue_request mem)
    (fun _ _ _ => mem_queue_attempt mem (.inr apart))
    (mem_queue_releaseAll excl.sorted mem apart)

/-- What a session has in the queues it keeps through operations of others. -/
theorem Excludes.hasRequest_other (excludes : db.Excludes) (eff : LockEffect s db op db')
    (apart : t ≠ s) (has : db.hasRequest t granted key = true) :
    db'.hasRequest t granted key = true := by
  have some := excludes.id_ne_zero has
  obtain ⟨req, mem, isGranted, isId⟩ := hasRequest_iff.mp has
  refine hasRequest_iff.mpr ⟨req, ?_, isGranted, ?_⟩
  · refine eff.mem_queue excludes.locks mem ?_
    rw [isId]
    exact excludes.distinct t s apart some
  · rw [eff.other apart]
    exact isId

/-- What a session holds it keeps until it gives it back. -/
theorem Excludes.holdsKey_own (excludes : db.Excludes) (eff : LockEffect s db op db')
    (keeps : op.keepsLocks = true) (holds : db.holdsKey s key = true) :
    db'.holdsKey s key = true := by
  have some := excludes.id_ne_zero holds
  have keepsTransaction : op.keepsTransaction = true := by
    cases op with
    | release => cases keeps
    | _ => exact keeps
  obtain ⟨req, mem, granted, isId⟩ := hasRequest_iff.mp holds
  refine hasRequest_iff.mpr ⟨req, ?_, granted, isId.trans (eff.transactionId keepsTransaction some).symm⟩
  cases eff with
  | same _ kept => exact kept.lockManager ▸ mem
  | begins _ _ _ _ => cases keeps
  | ends which _ _ _ => obtain rfl | rfl := which <;> cases keeps
  | requests _ locks _ => exact locks ▸ mem_queue_request mem
  | attempts _ locks _ => exact locks ▸ mem_queue_attempt mem (.inl granted)
  | releases _ _ _ => cases keeps

end Database

end NobugDb
