import NobugDb.Core.Row

/-!
# The transaction manager

`TransactionManager` (`include/core/transaction_manager.h`,
`src/core/transaction_manager.cc`) hands out transaction ids, remembers in memory how each
transaction ended, and decides which row versions a reader sees. Its sets and maps are
unordered in the source; nothing below depends on an order.
-/

namespace NobugDb

inductive TransactionStatus where
  | inProgress
  | committed
  | aborted
  deriving DecidableEq, Repr

/-- `TransactionSnapshot`: the next id and the ids in progress at BEGIN. -/
structure TransactionSnapshot where
  xmax : Nat
  activeXids : Finset Nat
  deriving DecidableEq

/-- The test `xid >= snapshot.xmax || snapshot.active_xids.count(xid) > 0`: for this snapshot
    the transaction had not ended. -/
def TransactionSnapshot.unseen (snapshot : TransactionSnapshot) (xid : Nat) : Bool :=
  decide (snapshot.xmax ≤ xid) || decide (xid ∈ snapshot.activeXids)

structure TransactionManager where
  nextXid : Nat := 1
  statuses : Nat → Option TransactionStatus := fun _ => none
  activeXids : Finset Nat := ∅
  activeSnapshots : List (Nat × TransactionSnapshot) := []

namespace TransactionManager

variable (tm : TransactionManager)

/-- `statuses_[xid] = status`. -/
def setStatus (xid : Nat) (status : TransactionStatus) : TransactionManager :=
  { tm with statuses := Function.update tm.statuses xid (some status) }

/-- `TransactionManager::beginTransaction` (`transaction_manager.cc:7-13`), with the id. -/
def beginTransaction : TransactionManager × Nat :=
  ({ tm.setStatus tm.nextXid .inProgress with
      nextXid := tm.nextXid + 1
      activeXids := insert tm.nextXid tm.activeXids },
   tm.nextXid)

/-- `TransactionManager::captureSnapshot` (`transaction_manager.cc:15-21`). -/
def captureSnapshot : TransactionSnapshot :=
  ⟨tm.nextXid, tm.activeXids⟩

/-- `active_snapshots_.erase(xid)`. -/
def eraseSnapshot (xid : Nat) : List (Nat × TransactionSnapshot) :=
  tm.activeSnapshots.filter (fun p => p.1 ≠ xid)

/-- `TransactionManager::registerSnapshot` (`transaction_manager.cc:23-27`). -/
def registerSnapshot (xid : Nat) (snapshot : TransactionSnapshot) : TransactionManager :=
  { tm with activeSnapshots := (xid, snapshot) :: tm.eraseSnapshot xid }

/-- The body `commitTransaction` and `abortTransaction` share. -/
def endTransaction (xid : Nat) (status : TransactionStatus) : TransactionManager :=
  { tm.setStatus xid status with
      activeXids := tm.activeXids.erase xid
      activeSnapshots := tm.eraseSnapshot xid }

/-- `TransactionManager::commitTransaction` (`transaction_manager.cc:29-34`). -/
def commitTransaction (xid : Nat) : TransactionManager :=
  tm.endTransaction xid .committed

/-- `TransactionManager::abortTransaction` (`transaction_manager.cc:36-41`). -/
def abortTransaction (xid : Nat) : TransactionManager :=
  tm.endTransaction xid .aborted

/-- `TransactionManager::isCommitted` (`transaction_manager.cc:43-53`). -/
def isCommitted (xid : Nat) : Bool :=
  xid == 0 || tm.statuses xid == some .committed

/-- `TransactionManager::isAborted` (`transaction_manager.cc:55-65`). -/
def isAborted (xid : Nat) : Bool :=
  xid != 0 && tm.statuses xid == some .aborted

/-- `TransactionManager::getVacuumHorizon` (`transaction_manager.cc:67-80`). -/
def getVacuumHorizon : Nat :=
  if tm.activeSnapshots.isEmpty then tm.nextXid
  else
    tm.activeSnapshots.foldl
      (fun horizon p => if p.2.xmax < horizon then p.2.xmax else horizon) (2 ^ 64 - 1)

/-- `TransactionManager::canFreezeCommitted` (`transaction_manager.cc:82-95`). -/
def canFreezeCommitted (xid : Nat) : Bool :=
  xid != 0 && tm.activeSnapshots.all (fun p => !p.2.unseen xid)

/-- `TransactionManager::isVisible` (`transaction_manager.cc:97-146`). -/
def isVisible (xmin xmax reader : Nat) (snapshot : Option TransactionSnapshot) : Bool :=
  if xmin = 0 then
    if xmax = 0 then true
    else if xmax = reader then false
    else
      match snapshot with
      | none => !tm.isCommitted xmax
      | some snap => if snap.unseen xmax then true else !tm.isCommitted xmax
  else if xmin = reader then xmax != reader
  else
    match snapshot with
    | none =>
      if !tm.isCommitted xmin then false
      else if xmax = 0 then true
      else if xmax = reader then false
      else !tm.isCommitted xmax
    | some snap =>
      if snap.unseen xmin then false
      else if !tm.isCommitted xmin then false
      else if xmax = 0 then true
      else if xmax = reader then false
      else if snap.unseen xmax then true
      else !tm.isCommitted xmax

end TransactionManager

end NobugDb
