import NobugDb.Misc.AssocMap

/-!
# The lock manager

`LockManager` (`include/core/lock_manager.h`, `src/core/lock_manager.cc`): queues of requests
per lock key, with deadlock detection in the wait-for graph. A call of `acquire` that has to
wait is split at `cv_.wait`: `request` is what comes before the loop and `attempt` is one turn
of it.
-/

namespace NobugDb

open Misc (AssocMap)

inductive LockMode where
  | shared
  | exclusive
  deriving DecidableEq, Repr

structure LockRequest where
  txnId : Nat
  mode : LockMode
  granted : Bool := false
  deriving DecidableEq

/-- `LockManager`: its queues and `txn_tables_`. `wait_for_` is computed from the queues
    wherever it is read. -/
structure LockManager where
  tables : AssocMap String (List LockRequest) := []
  txnTables : AssocMap Nat (List String) := []
  deriving DecidableEq

namespace LockManager

/-- `LockManager::make_row_lock_key` (`lock_manager.cc:10-13`). -/
def makeRowLockKey (tableName : String) (rowIndex : Nat) : String :=
  tableName ++ ":#" ++ s!"{rowIndex}"

variable (lm : LockManager)

/-- The requests of a key. -/
def queue (key : String) : List LockRequest := (lm.tables.lookup key).getD []

/-- `LockManager::can_grant` (`lock_manager.cc:15-32`). -/
def canGrant (txnId : Nat) (mode : LockMode) : List LockRequest → Bool
  | [] => true
  | req :: rest =>
    if !req.granted then canGrant txnId mode rest
    else if req.txnId = txnId then
      if mode = .shared ∨ req.mode = .exclusive then true else canGrant txnId mode rest
    else if mode = .exclusive ∨ req.mode = .exclusive then false
    else canGrant txnId mode rest

/-- `LockManager::rebuild_wait_edges_locked` (`lock_manager.cc:60-81`): who waits for whom. -/
def waitEdges : List (Nat × Nat) :=
  lm.tables.flatMap (fun e =>
    (e.2.filter (fun req => !req.granted)).flatMap (fun waiting =>
      ((e.2.filter (fun req => req.granted && req.txnId ≠ waiting.txnId)).map
        (fun holder => (waiting.txnId, holder.txnId)))))

/-- The depth-first search of `LockManager::has_cycle` (`lock_manager.cc:34-58`). A path
    without a repeated node is no longer than the edges, which bounds the depth. -/
def hasCycleFrom (edges : List (Nat × Nat)) : (depth : Nat) → (visiting : List Nat) → Nat → Bool
  | 0, _, _ => false
  | depth + 1, visiting, node =>
    if visiting.contains node then true
    else
      ((edges.filter (fun e => e.1 = node)).map Prod.snd).any
        (hasCycleFrom edges depth (node :: visiting))

def hasCycle (start : Nat) : Bool :=
  hasCycleFrom lm.waitEdges (lm.waitEdges.length + 2) [] start

/-- `txn_tables_[txn_id].insert(key)`. -/
def noteHeld (txnId : Nat) (key : String) : LockManager :=
  let held := (lm.txnTables.lookup txnId).getD []
  if held.contains key then lm
  else { lm with txnTables := AssocMap.assign txnId (key :: held) lm.txnTables }

/-- The part of `acquire` before its loop (`lock_manager.cc:86-95`): `true` when the lock is
    held already. -/
def request (txnId : Nat) (key : String) (mode : LockMode) : LockManager × Bool :=
  if (lm.queue key).any (fun req =>
      req.granted && req.txnId = txnId && (req.mode = .exclusive || mode = .shared)) then
    (lm.noteHeld txnId key, true)
  else
    ({ lm with tables := AssocMap.assign key (lm.queue key ++ [⟨txnId, mode, false⟩]) lm.tables },
     false)

/-- The first waiting request of the transaction is granted. -/
def grantFirst (txnId : Nat) (mode : LockMode) : List LockRequest → List LockRequest
  | [] => []
  | req :: rest =>
    if req.txnId = txnId ∧ req.granted = false then
      { req with granted := true, mode := if mode = .exclusive then .exclusive else req.mode } ::
        rest
    else req :: grantFirst txnId mode rest

/-- What one turn of the loop of `acquire` comes to. -/
inductive Turn where
  | granted
  | waits
  | deadlock
  deriving DecidableEq

/-- One turn of the loop of `acquire` (`lock_manager.cc:96-124`). -/
def attempt (txnId : Nat) (key : String) (mode : LockMode) : LockManager × Turn :=
  if canGrant txnId mode (lm.queue key) then
    ({ lm with
        tables := AssocMap.assign key (grantFirst txnId mode (lm.queue key)) lm.tables }.noteHeld
        txnId key,
     .granted)
  else if lm.hasCycle txnId then
    ({ lm with
        tables := AssocMap.assign key
          ((lm.queue key).filter (fun req => !(req.txnId = txnId && !req.granted))) lm.tables },
     .deadlock)
  else (lm, .waits)

/-- `LockManager::release_all` (`lock_manager.cc:127-150`). -/
def releaseAll (txnId : Nat) : LockManager :=
  let held := (lm.txnTables.lookup txnId).getD []
  { tables :=
      (lm.tables.map (fun e =>
        if held.contains e.1 then (e.1, e.2.filter (fun req => req.txnId ≠ txnId)) else e)).filter
        (fun e => !(held.contains e.1 && e.2.isEmpty))
    txnTables := AssocMap.erase txnId lm.txnTables }

end LockManager

end NobugDb
