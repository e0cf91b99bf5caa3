import NobugDb.Core.Proofs.ExclusiveLocks

/-!
# Waiting for a lock ends

From a request that waits, the waits lead to someone who can go on: a transaction that holds a lock
and waits for none, or a request that its next turn grants. And no wake-up is lost: between a turn
that cannot grant a lock and a moment when it can be granted, `release_all` has notified the
sleepers. So `acquire` need not notify anyone when it takes a refused request out of a queue.
-/

namespace NobugDb.Locking

open LockManager
open Relation (ReflTransGen TransGen)

variable {s s' : Locking} {txnId : Nat} {key : String} {mode : LockMode} {req : LockRequest}

theorem search_finds_cycle (lm : LockManager) (txnId : Nat) :
    (Misc.dfs lm.waitEdges (lm.waitEdges.length + 2) [] [] txnId).1 = true ↔
      ∃ b, ReflTransGen lm.WaitsFor txnId b ∧ TransGen lm.WaitsFor b b := by
  rw [← hasCycle_eq_dfs, hasCycle_iff]
  simp [Misc.Clean]

theorem canGrant_of_shared {q : List LockRequest} (shared : ∀ req ∈ q, req.granted = true →
    req.txnId ≠ txnId → req.mode = .shared ∧ mode = .shared) : canGrant txnId mode q = true := by
  induction q with
  | nil => rfl
  | cons fst q ih =>
    have rest := ih fun req mem => shared req (List.mem_cons_of_mem _ mem)
    rw [canGrant]
    split_ifs with waiting own mine clash
    · exact rest
    · rfl
    · exact rest
    · obtain ⟨held, asked⟩ := shared fst List.mem_cons_self (by simpa using waiting) own
      simp [held, asked] at clash
    · exact rest

theorem waits_lead_to_progress (reachable : s.Reachable) (mem : req ∈ s.lm.queue key)
    (waits : req.granted = false) :
    ∃ c, ReflTransGen s.lm.WaitsFor req.txnId c ∧
      ((∃ key, ∃ r ∈ s.lm.queue key, r.txnId = c ∧ r.granted = false ∧
          canGrant c r.mode (s.lm.queue key) = true) ∨
        ((∃ key, ∃ r ∈ s.lm.queue key, r.granted = true ∧ r.txnId = c) ∧
          ∀ key, ∀ r ∈ s.lm.queue key, r.txnId = c → r.granted = true)) := by
  have ok := reachable.ok
  obtain ⟨c, path, last⟩ := Misc.exists_end ok.acyclic req.txnId
  refine ⟨c, path, or_iff_not_imp_left.2 ?_⟩
  intro stuck
  have idle (key : String) (r : LockRequest) (mem : r ∈ s.lm.queue key) (own : r.txnId = c) :
      r.granted = true := by
    by_contra waits
    refine stuck ⟨key, r, mem, own, by simpa using waits, canGrant_of_shared ?_⟩
    -- Who else holds the lock would be waited for.
    intro holder held granted other
    have edge : s.lm.WaitsFor c holder.txnId := (waitsFor_iff ok.distinct).2
      ⟨key, ⟨r, mem, by simpa using waits, own⟩, ⟨holder, held, granted, rfl⟩, other.symm⟩
    exact absurd edge (last _)
  refine ⟨?_, idle⟩
  rcases path.cases_tail with rfl | ⟨b, -, edge⟩
  · rw [idle key req mem rfl] at waits
    cases waits
  · obtain ⟨key, -, holds, -⟩ := (waitsFor_iff ok.distinct).1 edge
    exact ⟨key, holds⟩

/-- All but `release_all` leave the granted requests in their queues. -/
theorem Step.keeps (step : Step s s') (mem : req ∈ s.lm.queue key) (granted : req.granted = true) :
    req ∈ s'.lm.queue key ∨
      ∃ holder, s.pending holder = none ∧ s' = { s with lm := s.lm.releaseAll holder } := by
  have turned {s : Locking} {i : Nat} {other : String} {mode : LockMode}
      (mem : req ∈ s.lm.queue key) : req ∈ (s.turn i other mode).lm.queue key := by
    have same : (s.turn i other mode).lm = (s.lm.attempt i other mode).1 := by
      rw [turn]
      split <;> simp [*]
    rw [same]
    exact mem_queue_attempt mem (.inl granted)
  cases step with
  | @again lm i other mode idle res =>
    obtain rfl : _ = lm := congrArg Prod.fst res
    exact .inl (mem_queue_request mem)
  | @acquire lm i other mode idle res =>
    obtain rfl : _ = lm := congrArg Prod.fst res
    exact .inl (turned (mem_queue_request mem))
  | wake asleep => exact .inl (turned mem)
  | release idle => exact .inr ⟨_, idle, rfl⟩

theorem unblocked_by_release (reachable : s.Reachable) (run : ReflTransGen Step s s')
    (blocked : canGrant txnId mode (s.lm.queue key) = false)
    (free : canGrant txnId mode (s'.lm.queue key) = true) :
    ∃ u holder, ReflTransGen Step s u ∧ u.pending holder = none ∧
      ReflTransGen Step { u with lm := u.lm.releaseAll holder } s' := by
  induction run with
  | refl =>
    rw [blocked] at free
    cases free
  | @tail u u' before step ih =>
    by_cases early : canGrant txnId mode (u.lm.queue key) = true
    · obtain ⟨v, holder, start, idle, rest⟩ := ih early
      exact ⟨v, holder, start, idle, rest.tail step⟩
    · by_contra other
      have after : u'.Reachable := (reachable.trans before).tail step
      have grants := canGrant_spec (after.ok.compatible key) free
      apply early
      apply canGrant_of_shared
      intro req mem granted
      rcases step.keeps mem granted with kept | ⟨holder, idle, rfl⟩
      · exact grants req kept granted
      · exact absurd ⟨u, holder, before, idle, .refl⟩ other

/-- Transaction 2 waits for the lock of 1. -/
private def contended : Locking := (Locking.call {} 1 "t" .exclusive).call 2 "t" .exclusive

private theorem contended_reachable : contended.Reachable :=
  (Reachable.call .refl 1 "t" .exclusive rfl rfl).call 2 "t" .exclusive rfl rfl

theorem second_waits : contended.Reachable ∧ ∃ c, ReflTransGen contended.lm.WaitsFor 2 c := by
  obtain ⟨c, path, -⟩ :=
    @waits_lead_to_progress _ "t" ⟨2, .exclusive, false⟩ contended_reachable (by decide) rfl
  exact ⟨contended_reachable, c, path⟩

theorem first_releases :
    ∃ u holder, ReflTransGen Step contended u ∧ u.pending holder = none ∧
      ReflTransGen Step { u with lm := u.lm.releaseAll holder }
        { contended with lm := contended.lm.releaseAll 1 } :=
  @unblocked_by_release _ _ 2 "t" .exclusive contended_reachable (.single (.release (by decide)))
    (by decide) (by decide)

end NobugDb.Locking
