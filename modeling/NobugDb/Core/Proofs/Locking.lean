import NobugDb.Core.LockManager
import NobugDb.Misc.CycleSearch

/-!
# The lock manager under any interleaving

The calls of `acquire` and `release_all` of any number of transactions, cut at `cv_.wait` into the
parts that run under the mutex. In every state between two such parts granted locks are compatible
and nobody waits, over however many others, for themselves; a call ends with a deadlock only when
it would close a cycle.
-/

namespace NobugDb

open Misc (AssocMap Acyclic Clean Edge)
open Relation (TransGen)
open Function (update_of_ne update_self update)
open List (mem_cons mem_cons_of_mem pairwise_cons)

variable {a b : Nat}

namespace LockManager

variable {lm : LockManager} {txnId : Nat} {key : String} {mode : LockMode}

/-! ## The wait-for relation -/

/-- `wait_for_`: one transaction waits for another. -/
def WaitsFor (lm : LockManager) (a b : Nat) : Prop := Edge lm.waitEdges a b

variable {edges : List (Nat × Nat)}

theorem hasCycleFrom_sound {depth : Nat} {visiting : List Nat} {node : Nat}
    (path : ∀ v ∈ visiting, TransGen (Edge edges) v node)
    (hit : hasCycleFrom edges depth visiting node = true) : ¬ Clean (Edge edges) node := by
  induction depth generalizing visiting node with
  | zero => cases hit
  | succ depth ih =>
    rw [hasCycleFrom] at hit
    split at hit
    · next again => exact fun clean => clean node .refl (path node (by simpa using again))
    · obtain ⟨next, mem, later⟩ := List.any_eq_true.1 hit
      have edge : Edge edges node next := Misc.mem_successors.1 mem
      refine fun clean => ih ?_ later (clean.successor edge)
      intro v inside
      obtain rfl | inside := mem_cons.1 inside
      · exact .single edge
      · exact (path v inside).tail edge

theorem hasCycleFrom_complete {depth : Nat} {visiting : List Nat}
    {node : Nat} (nodup : visiting.Nodup) (sources : visiting ⊆ edges.map Prod.fst)
    (enough : edges.length < depth + visiting.length)
    (none : hasCycleFrom edges depth visiting node = false) : Clean (Edge edges) node := by
  induction depth generalizing visiting node with
  | zero =>
    have short := (nodup.subperm sources).length_le
    rw [List.length_map] at short
    omega
  | succ depth ih =>
    rw [hasCycleFrom] at none
    split at none
    · cases none
    · next fresh =>
      apply Misc.clean_of_successors
      intro next edge
      have source : node ∈ edges.map Prod.fst := List.mem_map.2 ⟨(node, next), edge, rfl⟩
      refine ih (List.nodup_cons.2 ⟨by simpa using fresh, nodup⟩)
        (List.cons_subset.2 ⟨source, sources⟩) ?_ ?_
      · rw [List.length_cons]
        omega
      · have nothing := List.any_eq_false.1 none next (Misc.mem_successors.2 edge)
        simpa using nothing

/-- `has_cycle` finds a cycle exactly when one can be reached. -/
theorem hasCycle_iff : lm.hasCycle txnId = true ↔ ¬ Clean lm.WaitsFor txnId := by
  constructor
  · exact hasCycleFrom_sound (by simp)
  · intro cycle
    by_contra none
    have nothing : lm.hasCycle txnId = false := by simpa using none
    exact cycle (hasCycleFrom_complete (by simp) (by simp) (by simp) nothing)

/-- The search that skips the nodes it is done with, as the source has it, gives the same. -/
theorem hasCycle_eq_dfs :
    lm.hasCycle txnId = (Misc.dfs lm.waitEdges (lm.waitEdges.length + 2) [] [] txnId).1 := by
  rw [Bool.eq_iff_iff, hasCycle_iff, Misc.dfs_iff (by omega)]
  rfl

/-! ## Queues -/

@[simp] theorem tables_noteHeld : (lm.noteHeld txnId key).tables = lm.tables := by
  unfold noteHeld
  dsimp only
  split <;> rfl

theorem queue_congr {lm' : LockManager} (eq : lm.tables = lm'.tables) : lm.queue = lm'.queue := by
  unfold queue
  rw [eq]

variable {q : List LockRequest} {req : LockRequest} (other : String)

theorem queue_assign (q : List LockRequest) (other : String) :
    ({ lm with tables := AssocMap.assign key q lm.tables } : LockManager).queue other =
      if other = key then q else lm.queue other := by
  rw [queue, Misc.lookup_assign]
  split <;> rfl

/-- The keys `release_all` looks at. -/
def held (lm : LockManager) (txnId : Nat) : List String := (lm.txnTables.lookup txnId).getD []

theorem queue_releaseAll (nodup : (lm.tables.map Prod.fst).Nodup) (other : String) :
    (lm.releaseAll txnId).queue other =
      if other ∈ lm.held txnId then (lm.queue other).filter (fun req => req.txnId ≠ txnId)
      else lm.queue other := by
  -- The released queues, before the empty ones are erased.
  let release (key : String) (q : List LockRequest) : List LockRequest :=
    if (lm.held txnId).contains key then q.filter (fun req => req.txnId ≠ txnId) else q
  have es : lm.tables.map (fun e => if (lm.held txnId).contains e.1 then
      (e.1, e.2.filter (fun req => req.txnId ≠ txnId)) else e) =
      lm.tables.map (fun e => (e.1, release e.1 e.2)) := by
    refine List.map_congr_left fun e _ => ?_
    simp only [release]
    split <;> rfl
  have keys : ((lm.tables.map (fun e => (e.1, release e.1 e.2))).map Prod.fst).Nodup := by
    rwa [List.map_map]
  have hit := Misc.lookup_filter keys
    (fun e => !((lm.held txnId).contains e.1 && e.2.isEmpty)) other
  rw [Misc.lookup_mapEntries, ← es] at hit
  have left : (lm.releaseAll txnId).queue other =
      (((lm.tables.lookup other).map (release other)).filter
        (fun q => !((lm.held txnId).contains other && q.isEmpty))).getD [] := by
    rw [← hit]
    rfl
  rw [left, queue]
  cases lm.tables.lookup other with
  | none => simp
  | some q =>
    simp only [release, List.contains_iff_mem, Option.map_some, Option.getD_some]
    by_cases mine : other ∈ lm.held txnId
    · rw [if_pos mine]
      cases q.filter (fun req => req.txnId ≠ txnId) with
      | nil => simp [mine, Option.filter]
      | cons req q => simp [Option.filter]
    · simp [mine, Option.filter]

theorem waitsFor_iff (nodup : (lm.tables.map Prod.fst).Nodup) :
    lm.WaitsFor a b ↔ ∃ key, (∃ req ∈ lm.queue key, req.granted = false ∧ req.txnId = a) ∧
      (∃ req ∈ lm.queue key, req.granted = true ∧ req.txnId = b) ∧ a ≠ b := by
  have stored {key : String} {q : List LockRequest} (entry : (key, q) ∈ lm.tables) :
      lm.queue key = q := by
    rw [queue, (Misc.lookup_eq_some_iff_mem nodup).2 entry]
    rfl
  simp only [WaitsFor, Edge, waitEdges, List.mem_flatMap, List.mem_filter, List.mem_map,
    Prod.mk.injEq, Bool.not_eq_true', Bool.and_eq_true, decide_eq_true_eq]
  constructor
  · rintro ⟨⟨key, q⟩, entry, waiting, ⟨inQueue, waits⟩, holder, ⟨among, got, other⟩, rfl, rfl⟩
    rw [← stored entry] at inQueue among
    exact ⟨key, ⟨waiting, inQueue, waits, rfl⟩, ⟨holder, among, got, rfl⟩, Ne.symm other⟩
  · rintro ⟨key, ⟨waiting, inQueue, waits, rfl⟩, ⟨holder, among, got, rfl⟩, other⟩
    have entry : (key, lm.queue key) ∈ lm.tables := by
      rw [← Misc.lookup_eq_some_iff_mem nodup]
      rw [queue] at inQueue ⊢
      cases hit : lm.tables.lookup key with
      | none => rw [hit] at inQueue; cases inQueue
      | some q => rfl
    exact ⟨(key, lm.queue key), entry, waiting, ⟨inQueue, waits⟩, holder,
      ⟨among, got, Ne.symm other⟩, rfl, rfl⟩

/-! ## Grants -/

def Compatible (q : List LockRequest) : Prop :=
  ∀ a ∈ q, ∀ b ∈ q, a.granted = true → b.granted = true → a.txnId ≠ b.txnId →
    a.mode = .shared ∧ b.mode = .shared

/-- No transaction waits twice. -/
def WaitOnce (q : List LockRequest) : Prop :=
  q.Pairwise (fun a b => a.granted = false → b.granted = false → a.txnId ≠ b.txnId)

/-- `can_grant` lets a request join what other transactions hold. It stops at a lock of its own
    transaction, whose being granted vouches for the requests that were not looked at. -/
theorem canGrant_spec (compatible : Compatible q) (can : canGrant txnId mode q = true) :
    ∀ req ∈ q, req.granted = true → req.txnId ≠ txnId → req.mode = .shared ∧ mode = .shared := by
  induction q with
  | nil => simp
  | cons fst q ih =>
    have rest : Compatible q := fun a inA b inB =>
      compatible a (mem_cons_of_mem _ inA) b (mem_cons_of_mem _ inB)
    intro req mem got other
    rw [canGrant] at can
    split at can
    · next waiting =>
      obtain rfl | mem := mem_cons.1 mem
      · simp [got] at waiting
      · exact ih rest can req mem got other
    · next held =>
      have held : fst.granted = true := by simpa using held
      split at can
      · next own =>
        obtain rfl | mem := mem_cons.1 mem
        · exact absurd own other
        · split at can
          · next stop =>
            -- What `first` and `req` hold together is shared, so `first` is not exclusive.
            have both := compatible fst (by simp) req (mem_cons_of_mem _ mem) held got
              (by rw [own]; exact Ne.symm other)
            refine ⟨both.2, stop.resolve_right ?_⟩
            rw [both.1]
            decide
          · exact ih rest can req mem got other
      · split at can
        · cases can
        · next shared =>
          obtain rfl | mem := mem_cons.1 mem
          · cases mode <;> cases req with | mk _ m _ => cases m <;> simp_all
          · exact ih rest can req mem got other

theorem mem_grantFirst (once : WaitOnce q)
    (modes : ∀ req ∈ q, req.txnId = txnId → req.granted = false → req.mode = mode)
    (mem : req ∈ grantFirst txnId mode q) :
    req = ⟨txnId, mode, true⟩ ∨ (req ∈ q ∧ (req.txnId = txnId → req.granted = true)) := by
  induction q with
  | nil => cases mem
  | cons fst q ih =>
    obtain ⟨apart, rest⟩ := pairwise_cons.1 once
    rw [grantFirst] at mem
    split at mem
    · next waits =>
      obtain rfl | mem := mem_cons.1 mem
      · left
        rw [modes fst (by simp) waits.1 waits.2]
        cases mode <;> simp [waits.1]
      · refine .inr ⟨mem_cons_of_mem _ mem, fun own => ?_⟩
        by_contra waiting
        exact apart req mem waits.2 (by simpa using waiting) (waits.1.trans own.symm)
    · next other =>
      obtain rfl | mem := mem_cons.1 mem
      · refine .inr ⟨by simp, fun own => ?_⟩
        by_contra waiting
        exact other ⟨own, by simpa using waiting⟩
      · obtain new | ⟨old, got⟩ := ih rest
          (fun req isIn => modes req (mem_cons_of_mem _ isIn)) mem
        · exact .inl new
        · exact .inr ⟨mem_cons_of_mem _ old, got⟩

theorem of_mem_grantFirst (mem : req ∈ grantFirst txnId mode q) :
    req ∈ q ∨ ∃ old ∈ q, old.txnId = txnId ∧ req = { old with
      granted := true, mode := if mode = .exclusive then .exclusive else old.mode } := by
  induction q with
  | nil => cases mem
  | cons fst q ih =>
    rw [grantFirst] at mem
    split at mem
    · next waits =>
      obtain rfl | mem := mem_cons.1 mem
      · exact .inr ⟨fst, List.mem_cons_self, waits.1, rfl⟩
      · exact .inl (mem_cons_of_mem _ mem)
    · obtain rfl | mem := mem_cons.1 mem
      · exact .inl List.mem_cons_self
      · obtain old | ⟨old, isIn, isNew⟩ := ih mem
        · exact .inl (mem_cons_of_mem _ old)
        · exact .inr ⟨old, mem_cons_of_mem _ isIn, isNew⟩

theorem mem_of_waiting_grantFirst (mem : req ∈ grantFirst txnId mode q) (waits : req.granted = false) :
    req ∈ q := by
  obtain old | ⟨old, -, -, rfl⟩ := of_mem_grantFirst mem
  · exact old
  · cases waits

theorem waitOnce_grantFirst (once : WaitOnce q) : WaitOnce (grantFirst txnId mode q) := by
  induction q with
  | nil => exact List.Pairwise.nil
  | cons fst q ih =>
    obtain ⟨apart, rest⟩ := pairwise_cons.1 once
    rw [grantFirst]
    split
    · exact pairwise_cons.2 ⟨fun _ _ got => absurd got (by simp), rest⟩
    · refine pairwise_cons.2 ⟨fun req mem waits later => ?_, ih rest⟩
      exact apart req (mem_of_waiting_grantFirst mem later) waits later

/-! ## Turns -/

def enqueue (lm : LockManager) (txnId : Nat) (key : String) (mode : LockMode) : LockManager :=
  { lm with tables := AssocMap.assign key (lm.queue key ++ [⟨txnId, mode, false⟩]) lm.tables }

theorem queue_enqueue : (lm.enqueue txnId key mode).queue other =
    if other = key then lm.queue key ++ [⟨txnId, mode, false⟩] else lm.queue other :=
  queue_assign _ _

theorem mem_queue_enqueue {other : String} (mem : req ∈ (lm.enqueue txnId key mode).queue other) :
    req ∈ lm.queue other ∨ (other = key ∧ req = ⟨txnId, mode, false⟩) := by
  rw [queue_enqueue] at mem
  split at mem
  · next here =>
    obtain old | new := List.mem_append.1 mem
    · exact .inl (here ▸ old)
    · exact .inr ⟨here, List.mem_singleton.1 new⟩
  · exact .inl mem

/-- `acquire` before its loop: the lock is held, or the request goes to the end of the queue. -/
theorem request_eq_ok {lm' : LockManager} {held : Bool}
    (res : lm.request txnId key mode = (lm', held)) :
    lm' = if held then lm.noteHeld txnId key else lm.enqueue txnId key mode := by
  rw [request] at res
  split at res
  · cases res
    rfl
  · cases res
    rfl

theorem sorted_releaseAll (sorted : AssocMap.Increasing lm.tables) :
    AssocMap.Increasing (lm.releaseAll txnId).tables := by
  refine AssocMap.Increasing.filter ?_ _
  have keys : (lm.tables.map (fun e => if (lm.held txnId).contains e.1 then
      (e.1, e.2.filter (fun req => req.txnId ≠ txnId)) else e)).map Prod.fst =
      lm.tables.map Prod.fst := by
    rw [List.map_map]
    refine List.map_congr_left fun e _ => ?_
    simp only [Function.comp]
    split <;> rfl
  exact (congrArg (List.Pairwise (· < ·)) keys).mpr sorted

def grant (lm : LockManager) (txnId : Nat) (key : String) (mode : LockMode) : LockManager :=
  { lm with tables := AssocMap.assign key (grantFirst txnId mode (lm.queue key)) lm.tables }.noteHeld
    txnId key

def refuse (lm : LockManager) (txnId : Nat) (key : String) : LockManager :=
  { lm with
    tables := AssocMap.assign key
      ((lm.queue key).filter (fun req => !(req.txnId = txnId && !req.granted))) lm.tables }

theorem attempt_eq : lm.attempt txnId key mode =
    if canGrant txnId mode (lm.queue key) then (lm.grant txnId key mode, .granted)
    else if lm.hasCycle txnId then (lm.refuse txnId key, .deadlock)
    else (lm, .waits) := rfl

theorem queue_grant : (lm.grant txnId key mode).queue other =
    if other = key then grantFirst txnId mode (lm.queue key) else lm.queue other := by
  rw [grant, queue_congr tables_noteHeld, queue_assign]

theorem queue_refuse : (lm.refuse txnId key).queue other =
    if other = key then (lm.queue key).filter (fun req => !(req.txnId = txnId && !req.granted))
    else lm.queue other :=
  queue_assign _ _

theorem refuse_sublist : ((lm.refuse txnId key).queue other).Sublist (lm.queue other) := by
  rw [queue_refuse]
  split
  · next here => rw [here]; exact List.filter_sublist
  · exact List.Sublist.refl _

theorem releaseAll_sublist (nodup : (lm.tables.map Prod.fst).Nodup) :
    ((lm.releaseAll txnId).queue other).Sublist (lm.queue other) := by
  rw [queue_releaseAll nodup]
  split
  · exact List.filter_sublist
  · exact List.Sublist.refl _

end LockManager

/-! ## Interleavings -/

/-- The lock manager with the calls of `acquire` that sleep in `cv_.wait`. -/
structure Locking where
  lm : LockManager := {}
  pending : Nat → Option (String × LockMode) := fun _ => none

namespace Locking

open LockManager

def turn (s : Locking) (txnId : Nat) (key : String) (mode : LockMode) : Locking :=
  match s.lm.attempt txnId key mode with
  | (lm, .waits) => { s with lm := lm }
  | (lm, _) => ⟨lm, Function.update s.pending txnId none⟩

def enter (s : Locking) (lm : LockManager) (txnId : Nat) (key : String) (mode : LockMode) : Locking :=
  ⟨lm, Function.update s.pending txnId (some (key, mode))⟩

/-- What runs under the mutex without a break. A transaction id is used by one thread, so nothing
    but its waking up happens to a transaction whose `acquire` sleeps. -/
inductive Step : Locking → Locking → Prop
  /-- `acquire` of a lock that is held already. -/
  | again {s : Locking} {lm : LockManager} {txnId : Nat} {key : String} {mode : LockMode} :
      s.pending txnId = none → s.lm.request txnId key mode = (lm, true) → Step s { s with lm := lm }
  /-- `acquire` up to its end or its first wait. -/
  | acquire {s : Locking} {lm : LockManager} {txnId : Nat} {key : String} {mode : LockMode} :
      s.pending txnId = none → s.lm.request txnId key mode = (lm, false) →
      Step s ((s.enter lm txnId key mode).turn txnId key mode)
  /-- A call that wakes up, whether it was notified or not. -/
  | wake {s : Locking} {txnId : Nat} {key : String} {mode : LockMode} :
      s.pending txnId = some (key, mode) → Step s (s.turn txnId key mode)
  /-- `release_all`. -/
  | release {s : Locking} {txnId : Nat} :
      s.pending txnId = none → Step s { s with lm := s.lm.releaseAll txnId }

/-- The states between two such parts. -/
def Reachable (s : Locking) : Prop := Relation.ReflTransGen Step {} s

structure Queues (s : Locking) : Prop where
  sorted : AssocMap.Increasing s.lm.tables
  compatible : ∀ key, Compatible (s.lm.queue key)
  once : ∀ key, WaitOnce (s.lm.queue key)
  waiting : ∀ key, ∀ req ∈ s.lm.queue key, req.granted = false →
    s.pending req.txnId = some (key, req.mode)

variable {s : Locking} {lm : LockManager} {txnId : Nat} {key : String} {mode : LockMode}

variable {s' : Locking} (other : String)

theorem Queues.distinct (queues : s.Queues) : (s.lm.tables.map Prod.fst).Nodup :=
  queues.sorted.nodup

/-- Waiting requests of a transaction whose call is in its loop are those of the call. -/
theorem Queues.mine (queues : s.Queues) (asleep : s.pending txnId = some (key, mode))
    {other : String} {req : LockRequest} (mem : req ∈ s.lm.queue other) (own : req.txnId = txnId)
    (waits : req.granted = false) : other = key ∧ req.mode = mode := by
  have call := queues.waiting other req mem waits
  rw [own, asleep, Option.some.injEq, Prod.mk.injEq] at call
  exact ⟨call.1.symm, call.2.symm⟩

theorem Queues.of_sublist (queues : s.Queues) (sorted : AssocMap.Increasing s'.lm.tables)
    (sub : ∀ key, (s'.lm.queue key).Sublist (s.lm.queue key))
    (asleep : ∀ key, ∀ req ∈ s'.lm.queue key, req.granted = false →
      s'.pending req.txnId = s.pending req.txnId) : s'.Queues where
  sorted := sorted
  compatible := fun key a inA b inB =>
    queues.compatible key a ((sub key).subset inA) b ((sub key).subset inB)
  once := fun key => (queues.once key).sublist (sub key)
  waiting := fun key req mem waits => by
    rw [asleep key req mem waits]
    exact queues.waiting key req ((sub key).subset mem) waits

theorem turn_cases (s : Locking) (txnId : Nat) (key : String) (mode : LockMode) :
    (canGrant txnId mode (s.lm.queue key) = true ∧
      s.turn txnId key mode = ⟨s.lm.grant txnId key mode, update s.pending txnId none⟩) ∨
    (s.lm.hasCycle txnId = true ∧
      s.turn txnId key mode = ⟨s.lm.refuse txnId key, update s.pending txnId none⟩) ∨
    (s.lm.hasCycle txnId = false ∧ s.turn txnId key mode = s) := by
  rw [turn, attempt_eq]
  split_ifs with can cycle
  · exact .inl ⟨can, rfl⟩
  · exact .inr (.inl ⟨cycle, rfl⟩)
  · exact .inr (.inr ⟨by simpa using cycle, rfl⟩)

section

variable (queues : s.Queues)
include queues

section

variable (asleep : s.pending txnId = some (key, mode))
include asleep

theorem Queues.granted (can : canGrant txnId mode (s.lm.queue key) = true) :
    Queues ⟨s.lm.grant txnId key mode, update s.pending txnId none⟩ := by
  have members {req : LockRequest} (mem : req ∈ grantFirst txnId mode (s.lm.queue key)) :=
    mem_grantFirst (queues.once key)
      (fun req isIn own waits => (queues.mine asleep isIn own waits).2) mem
  have others := canGrant_spec (queues.compatible key) can
  refine ⟨?_, ?_, ?_, ?_⟩
  · show AssocMap.Increasing (s.lm.grant txnId key mode).tables
    rw [grant, tables_noteHeld]
    exact queues.sorted.assign _ _
  · intro other
    rw [queue_grant]
    split
    · intro a inA b inB grantedA grantedB apart
      obtain rfl | ⟨oldA, -⟩ := members inA
      · obtain rfl | ⟨oldB, -⟩ := members inB
        · exact absurd rfl apart
        · exact (others b oldB grantedB (Ne.symm apart)).symm
      · obtain rfl | ⟨oldB, -⟩ := members inB
        · exact others a oldA grantedA apart
        · exact queues.compatible key a oldA b oldB grantedA grantedB apart
    · exact queues.compatible other
  · intro other
    rw [queue_grant]
    split
    · exact waitOnce_grantFirst (queues.once key)
    · exact queues.once other
  · intro other req mem waits
    have old : req ∈ s.lm.queue other ∧ req.txnId ≠ txnId := by
      rw [queue_grant] at mem
      split at mem
      · next here =>
        obtain rfl | ⟨old, own⟩ := members mem
        · cases waits
        · exact ⟨here ▸ old, fun eq => by simp [own eq] at waits⟩
      · next elsewhere =>
        exact ⟨mem, fun own => elsewhere (queues.mine asleep mem own waits).1⟩
    have kept : update s.pending txnId none req.txnId = s.pending req.txnId :=
      update_of_ne old.2 _ _
    exact kept.trans (queues.waiting other req old.1 waits)

theorem Queues.refused : Queues ⟨s.lm.refuse txnId key, update s.pending txnId none⟩ := by
  refine queues.of_sublist (queues.sorted.assign _ _) refuse_sublist (fun other req mem waits => ?_)
  have other : req.txnId ≠ txnId := by
    intro own
    rw [queue_refuse] at mem
    split at mem
    · simp [own, waits] at mem
    · next elsewhere => exact elsewhere (queues.mine asleep mem own waits).1
  exact update_of_ne other _ _

theorem Queues.turn : (s.turn txnId key mode).Queues := by
  obtain ⟨can, eq⟩ | ⟨-, eq⟩ | ⟨-, eq⟩ := turn_cases s txnId key mode
  · rw [eq]
    exact queues.granted asleep can
  · rw [eq]
    exact queues.refused asleep
  · rw [eq]
    exact queues

end

theorem Queues.entered (idle : s.pending txnId = none) :
    (s.enter (s.lm.enqueue txnId key mode) txnId key mode).Queues := by
  have others {other : String} {req : LockRequest} (mem : req ∈ s.lm.queue other)
      (waits : req.granted = false) : req.txnId ≠ txnId := by
    intro own
    have call := queues.waiting other req mem waits
    rw [own, idle] at call
    cases call
  refine ⟨queues.sorted.assign _ _, ?_, ?_, ?_⟩
  · intro other a inA b inB grantedA grantedB
    have old {req : LockRequest} (mem : req ∈ (s.lm.enqueue txnId key mode).queue other)
        (got : req.granted = true) : req ∈ s.lm.queue other := by
      obtain old | ⟨-, rfl⟩ := mem_queue_enqueue mem
      · exact old
      · cases got
    exact queues.compatible other a (old inA grantedA) b (old inB grantedB) grantedA grantedB
  · intro other
    show WaitOnce ((s.lm.enqueue txnId key mode).queue other)
    rw [queue_enqueue]
    split
    · refine List.pairwise_append.2 ⟨queues.once key, List.pairwise_singleton _ _, ?_⟩
      intro a inA b inB waits _
      rw [List.mem_singleton.1 inB]
      exact others inA waits
    · exact queues.once other
  · intro other req mem waits
    obtain old | ⟨rfl, rfl⟩ := mem_queue_enqueue mem
    · have kept : update s.pending txnId (some (key, mode)) req.txnId = s.pending req.txnId :=
        update_of_ne (others old waits) _ _
      exact kept.trans (queues.waiting other req old waits)
    · exact update_self _ _ _

theorem Queues.released (txnId : Nat) : Queues { s with lm := s.lm.releaseAll txnId } :=
  queues.of_sublist (sorted_releaseAll queues.sorted)
    (fun other => releaseAll_sublist other queues.distinct) (fun _ _ _ _ => rfl)

theorem Queues.noted (txnId : Nat) (key : String) :
    Queues { s with lm := s.lm.noteHeld txnId key } :=
  queues.of_sublist (by rw [tables_noteHeld]; exact queues.sorted)
    (fun other => by rw [queue_congr tables_noteHeld])
    (fun _ _ _ _ => rfl)

/-! ## Cycles -/

theorem waitsFor_of_subset (queues' : s'.Queues)
    (sub : ∀ key, s'.lm.queue key ⊆ s.lm.queue key) (edge : s'.lm.WaitsFor a b) :
    s.lm.WaitsFor a b := by
  obtain ⟨key, ⟨waiting, inQueue, waits⟩, ⟨holder, among, holds⟩, apart⟩ :=
    (waitsFor_iff queues'.distinct).1 edge
  exact (waitsFor_iff queues.distinct).2
    ⟨key, ⟨waiting, sub key inQueue, waits⟩, ⟨holder, sub key among, holds⟩, apart⟩

theorem Queues.not_waitsFor (idle : s.pending a = none) : ¬ s.lm.WaitsFor a b := by
  intro edge
  obtain ⟨other, ⟨waiting, inQueue, waits, rfl⟩, -⟩ := (waitsFor_iff queues.distinct).1 edge
  have call := queues.waiting other waiting inQueue waits
  rw [idle] at call
  cases call

theorem waitsFor_entered (idle : s.pending txnId = none)
    (edge : (s.lm.enqueue txnId key mode).WaitsFor a b) : s.lm.WaitsFor a b ∨ a = txnId := by
  obtain ⟨other, ⟨waiting, inQueue, waits, rfl⟩, ⟨holder, among, holds, rfl⟩, apart⟩ :=
    (waitsFor_iff (queues.entered idle).distinct).1 edge
  obtain old | ⟨-, rfl⟩ := mem_queue_enqueue inQueue
  · obtain held | ⟨-, rfl⟩ := mem_queue_enqueue among
    · exact .inl ((waitsFor_iff queues.distinct).2
        ⟨other, ⟨waiting, old, waits, rfl⟩, ⟨holder, held, holds, rfl⟩, apart⟩)
    · cases holds
  · exact .inr rfl

theorem waitsFor_granted (asleep : s.pending txnId = some (key, mode))
    (can : canGrant txnId mode (s.lm.queue key) = true) (elsewhere : a ≠ txnId)
    (edge : (s.lm.grant txnId key mode).WaitsFor a b) : s.lm.WaitsFor a b ∨ b = txnId := by
  have after := queues.granted asleep can
  obtain ⟨other, ⟨waiting, inQueue, waits, rfl⟩, ⟨holder, among, holds, rfl⟩, apart⟩ :=
    (waitsFor_iff after.distinct).1 edge
  by_cases mine : holder.txnId = txnId
  · exact .inr mine
  · have old {req : LockRequest} (mem : req ∈ (s.lm.grant txnId key mode).queue other)
        (apart : req.txnId ≠ txnId) : req ∈ s.lm.queue other := by
      rw [queue_grant] at mem
      split at mem
      · next here =>
        obtain rfl | ⟨old, -⟩ := mem_grantFirst (queues.once key)
          (fun req isIn own waits => (queues.mine asleep isIn own waits).2) mem
        · exact absurd rfl apart
        · exact here ▸ old
      · exact mem
    exact .inl ((waitsFor_iff queues.distinct).2
      ⟨other, ⟨waiting, old inQueue elsewhere, waits, rfl⟩, ⟨holder, old among mine, holds, rfl⟩,
        apart⟩)

/-- A turn closes no cycle: `r` is the relation before the call's own edges came in. -/
theorem acyclic_turn (asleep : s.pending txnId = some (key, mode))
    {r : Nat → Nat → Prop} (before : Acyclic r)
    (edges : ∀ a b, s.lm.WaitsFor a b → r a b ∨ a = txnId) :
    Acyclic (s.turn txnId key mode).lm.WaitsFor := by
  obtain ⟨can, eq⟩ | ⟨-, eq⟩ | ⟨clear, eq⟩ := turn_cases s txnId key mode
  · rw [eq]
    have sink (b : Nat) : ¬ (s.lm.grant txnId key mode).WaitsFor txnId b :=
      (queues.granted asleep can).not_waitsFor (update_self _ _ _)
    refine before.of_sink (fun a b edge => ?_) sink
    have elsewhere : a ≠ txnId := fun own => sink b (own ▸ edge)
    obtain old | new := waitsFor_granted queues asleep can elsewhere edge
    · exact .inl ((edges a b old).resolve_right elsewhere)
    · exact .inr new
  · rw [eq]
    refine before.mono (fun a b edge => ?_)
    have elsewhere : a ≠ txnId := fun own =>
      (queues.refused asleep).not_waitsFor (own ▸ update_self _ _ _) edge
    have old := waitsFor_of_subset queues (queues.refused asleep)
      (fun other => (refuse_sublist other).subset) edge
    exact (edges a b old).resolve_right elsewhere
  · rw [eq]
    refine before.of_source edges (fun cycle => ?_)
    have reached : s.lm.hasCycle txnId = true := hasCycle_iff.2 fun clean => clean txnId .refl cycle
    rw [clear] at reached
    cases reached

end

structure Ok (s : Locking) : Prop extends s.Queues where
  acyclic : Acyclic s.lm.WaitsFor

theorem Ok.step (ok : s.Ok) (step : Step s s') : s'.Ok := by
  cases step with
  | again idle res =>
    rw [request_eq_ok res, if_pos rfl]
    have queues := ok.toQueues.noted
    refine ⟨queues _ _, ok.acyclic.mono fun a b edge => ?_⟩
    refine waitsFor_of_subset ok.toQueues (queues _ _) (fun other => ?_) edge
    rw [queue_congr tables_noteHeld]
    exact List.Subset.refl _
  | @acquire _ txnId key mode idle res =>
    rw [request_eq_ok res, if_neg (by simp)]
    have queues := @Queues.entered s txnId key mode ok.toQueues idle
    exact ⟨queues.turn (update_self _ _ _), acyclic_turn queues (update_self _ _ _) ok.acyclic
        fun a b edge => waitsFor_entered ok.toQueues idle edge⟩
  | wake asleep =>
    exact ⟨ok.toQueues.turn asleep, acyclic_turn ok.toQueues asleep ok.acyclic
      fun a b edge => .inl edge⟩
  | release idle =>
    have queues := ok.toQueues.released
    refine ⟨queues _, ok.acyclic.mono fun a b edge => ?_⟩
    exact waitsFor_of_subset ok.toQueues (queues _)
      (fun other => (releaseAll_sublist other ok.distinct).subset) edge

theorem Reachable.ok (reachable : s.Reachable) : s.Ok := by
  induction reachable with
  | refl =>
    refine ⟨⟨List.Pairwise.nil, ?_, ?_, ?_⟩, ?_⟩
    · intro key a mem
      cases mem
    · exact fun _ => List.Pairwise.nil
    · intro key req mem
      cases mem
    · intro a cycle
      obtain ⟨b, edge, -⟩ := TransGen.head'_iff.1 cycle
      cases edge
  | tail _ step ih => exact ih.step step

/-- **Mutual exclusion**: granted requests for one key by different transactions are shared. -/
theorem granted_shared (reachable : s.Reachable) {key : String} {a b : LockRequest}
    (inA : a ∈ s.lm.queue key) (inB : b ∈ s.lm.queue key) (grantedA : a.granted = true)
    (grantedB : b.granted = true) (apart : a.txnId ≠ b.txnId) :
    a.mode = .shared ∧ b.mode = .shared :=
  reachable.ok.compatible key a inA b inB grantedA grantedB apart

/-- A call of `acquire` from its beginning. -/
def call (s : Locking) (txnId : Nat) (key : String) (mode : LockMode) : Locking :=
  (s.enter (s.lm.request txnId key mode).1 txnId key mode).turn txnId key mode

theorem Reachable.call (reachable : s.Reachable) (txnId : Nat) (key : String) (mode : LockMode)
    (idle : s.pending txnId = none) (new : (s.lm.request txnId key mode).2 = false) :
    (s.call txnId key mode).Reachable :=
  Relation.ReflTransGen.tail reachable (Step.acquire idle (Prod.ext rfl new))

/-- Two readers of one key. -/
theorem readers_granted :
    ∃ s : Locking, s.Reachable ∧
      s.lm.queue "t" = [⟨1, .shared, true⟩, ⟨2, .shared, true⟩] ∧
      (⟨1, .shared, true⟩ : LockRequest).mode = .shared ∧
      (⟨2, .shared, true⟩ : LockRequest).mode = .shared := by
  have first : (Locking.call {} 1 "t" .shared).Reachable := Reachable.call .refl 1 "t" .shared rfl rfl
  have second := first.call 2 "t" .shared rfl rfl
  have queue : ((Locking.call {} 1 "t" .shared).call 2 "t" .shared).lm.queue "t" =
      [⟨1, .shared, true⟩, ⟨2, .shared, true⟩] := by decide
  exact ⟨_, second, queue, granted_shared second (by rw [queue]; simp) (by rw [queue]; simp) rfl rfl
    (by decide)⟩

/-- `acquire` throws: the lock manager at that moment, and the one it leaves. -/
inductive Raises (s : Locking) (txnId : Nat) : LockManager → LockManager → Prop
  | acquire {key : String} {mode : LockMode} {moment after : LockManager} :
      s.pending txnId = none → s.lm.request txnId key mode = (moment, false) →
      moment.attempt txnId key mode = (after, .deadlock) → Raises s txnId moment after
  | wake {key : String} {mode : LockMode} {after : LockManager} :
      s.pending txnId = some (key, mode) → s.lm.attempt txnId key mode = (after, .deadlock) →
      Raises s txnId s.lm after

/-- The granted requests for a key, and those of other transactions. -/
def kept (lm : LockManager) (txnId : Nat) (key : String) : List LockRequest :=
  (lm.queue key).filter (fun req => req.granted || req.txnId ≠ txnId)

theorem attempt_deadlock {after : LockManager}
    (raised : lm.attempt txnId key mode = (after, .deadlock)) :
    lm.hasCycle txnId = true ∧ after = lm.refuse txnId key := by
  rw [attempt_eq] at raised
  split_ifs at raised with can cycle
  · cases raised
  · cases raised
    exact ⟨cycle, rfl⟩
  · cases raised

theorem kept_refuse : kept (lm.refuse txnId key) txnId other = kept lm txnId other := by
  rw [kept, queue_refuse]
  split
  · next here =>
    rw [here, List.filter_filter, kept]
    refine List.filter_congr fun req _ => ?_
    cases req.granted <;> simp
  · rfl

theorem kept_enqueue : kept (lm.enqueue txnId key mode) txnId other = kept lm txnId other := by
  rw [kept, queue_enqueue]
  split
  · next here => simp [kept, here]
  · rfl

/-- **Deadlocks**: between two parts under the mutex nobody waits, over however many others, for
    themselves. `acquire` throws only for a transaction that does at that moment, and it leaves all
    granted requests and those of other transactions as they were. -/
theorem deadlock_only_on_cycle (reachable : s.Reachable) :
    Acyclic s.lm.WaitsFor ∧
      ∀ txnId moment after, s.Raises txnId moment after →
        TransGen moment.WaitsFor txnId txnId ∧ after.txnTables = s.lm.txnTables ∧
          ∀ key, kept after txnId key = kept s.lm txnId key := by
  have ok := reachable.ok
  refine ⟨ok.acyclic, fun txnId moment after raises => ?_⟩
  cases raises with
  | @acquire key mode _ _ idle result raised =>
    obtain ⟨cycle, rfl⟩ := attempt_deadlock raised
    have entered := request_eq_ok result
    rw [if_neg (by simp)] at entered
    subst entered
    refine ⟨?_, rfl, fun other => ?_⟩
    · -- What was acyclic before has no cycle but through the new request.
      by_contra clear
      have acyclic := ok.acyclic.of_source
        (fun a b edge => waitsFor_entered ok.toQueues idle edge) clear
      exact hasCycle_iff.1 cycle (acyclic.clean txnId)
    · rw [kept_refuse, kept_enqueue]
  | @wake key mode _ asleep raised =>
    obtain ⟨cycle, rfl⟩ := attempt_deadlock raised
    exact absurd (ok.acyclic.clean txnId) (hasCycle_iff.1 cycle)

/-- Two transactions that hold a key each and ask for the other's. -/
theorem second_request_deadlocks :
    ∃ (s : Locking) (moment after : LockManager),
      s.Reachable ∧ s.Raises 2 moment after ∧ TransGen moment.WaitsFor 2 2 := by
  have first : (Locking.call {} 1 "a" .exclusive).Reachable :=
    Reachable.call .refl 1 "a" .exclusive rfl rfl
  have second := first.call 2 "b" .exclusive rfl rfl
  have third := second.call 1 "b" .exclusive rfl rfl
  generalize state : ((Locking.call {} 1 "a" .exclusive).call 2 "b" .exclusive).call 1 "b" .exclusive =
    s at third
  have moment : s.lm.request 2 "a" .exclusive = (s.lm.enqueue 2 "a" .exclusive, false) := by
    rw [← state]
    decide
  have raised : (s.lm.enqueue 2 "a" .exclusive).attempt 2 "a" .exclusive =
      ((s.lm.enqueue 2 "a" .exclusive).refuse 2 "a", .deadlock) := by
    rw [← state]
    decide
  have raises := Raises.acquire (by rw [← state]; decide) moment raised
  exact ⟨s, _, _, third, raises, ((deadlock_only_on_cycle third).2 _ _ _ raises).1⟩

end Locking

end NobugDb
