import NobugDb.Core.Proofs.SnapshotReads
import NobugDb.Network.Proofs.SentStatements
import NobugDb.Network.Worker

/-!
# Transactions of the coordinator

A coordinator transaction sends BEGIN, its statements and COMMIT or ROLLBACK to the pinned
worker, each over a connection of its own. So every statement runs in autocommit mode there,
and the last text meets a session without a transaction.
-/

namespace NobugDb

open Misc (run Meets)
open CoordinatorQueryRouter

/-! ## Workers of the shard map -/

variable {md : PartitionedTableMetadata}

namespace ShardMap

/-- The endpoint is the map's own for its shard id. -/
def Registered (map : ShardMap) (endpoint : ShardEndpoint) : Prop :=
  map.findEndpoint endpoint.shardId = some endpoint

variable {map : ShardMap} {endpoint other : ShardEndpoint}

theorem Registered.eq_of_shardId (fst : map.Registered endpoint) (snd : map.Registered other)
    (eq : endpoint.shardId = other.shardId) : endpoint = other := by
  unfold Registered at fst snd
  rw [eq, snd] at fst
  exact (Option.some.inj fst).symm

theorem reg_of_findEndpoint {shardId : Int} (hit : map.findEndpoint shardId = some endpoint) :
    map.Registered endpoint := by
  have inWorkers : (shardId, endpoint) ∈ map.workers :=
    (Misc.lookup_eq_some_iff_mem (map.increasing.imp ne_of_lt)).mp hit
  have label : endpoint.shardId = shardId := map.labelled _ inWorkers
  unfold Registered
  rw [label]
  exact hit

theorem reg_of_resolveChildName {child : String}
    (res : map.resolveChildName child = .ok endpoint) : map.Registered endpoint := by
  unfold resolveChildName at res
  split at res
  · cases res
  · split at res
    · cases res
    · rename_i hit
      cases res
      exact reg_of_findEndpoint hit

theorem reg_of_resolveKey {key : Value}
    (res : map.resolveKey md key = .ok endpoint) : map.Registered endpoint := by
  unfold resolveKey at res
  split at res
  · cases res
  · exact reg_of_resolveChildName res

theorem reg_of_mem_listWorkers (listed : endpoint ∈ map.listWorkers) : map.Registered endpoint := by
  obtain ⟨⟨shardId, _⟩, inWorkers, rfl⟩ := List.mem_map.mp listed
  exact reg_of_findEndpoint
    ((Misc.lookup_eq_some_iff_mem (map.increasing.imp ne_of_lt)).mpr inWorkers)

theorem reg_of_firstWorker (fst : map.firstWorker = some endpoint) : map.Registered endpoint :=
  reg_of_mem_listWorkers (List.mem_of_head? fst)

theorem reg_of_uniqueEndpoints {kids : List String}
    {unique result : Misc.AssocMap Int ShardEndpoint} (start : ∀ e ∈ unique, map.Registered e.2)
    (res : map.uniqueEndpoints kids unique = .ok result) : ∀ e ∈ result, map.Registered e.2 := by
  induction kids generalizing unique with
  | nil =>
    cases res
    exact start
  | cons child kids ih =>
    rw [uniqueEndpoints] at res
    obtain ⟨endpoint, isEndpoint, res⟩ := Exn.bind_eq_ok res
    refine ih (fun e mem => ?_) res
    rcases Misc.AssocMap.mem_assign mem with rfl | mem
    · exact reg_of_resolveChildName isEndpoint
    · exact start e mem

theorem reg_of_resolvePrune {constraints : List PartitionPruneConstraint} {eps : List ShardEndpoint}
    (res : map.resolvePrune md constraints = .ok eps) :
    ∀ endpoint ∈ eps, map.Registered endpoint := by
  unfold resolvePrune resolveChildren at res
  split at res
  · cases res
  · obtain ⟨unique, isUnique, res⟩ := Exn.bind_eq_ok res
    cases res
    intro endpoint mem
    obtain ⟨e, inUnique, rfl⟩ := List.mem_map.mp mem
    exact reg_of_uniqueEndpoints (by simp) isUnique e inUnique

end ShardMap

/-! ## The worker of a statement -/

namespace CoordinatorQueryRouter

variable {W Q : Type} {c : CoordinatorQueryRouter W Q} {s : RouterState W Q}

variable {eps : List ShardEndpoint}

theorem reg_of_tableShards {name : String} {R : Type} {cond : Option (Expr R)}
    (res : c.resolveTableShards s name cond = .ok eps) :
    ∀ endpoint ∈ eps, c.shardMap.Registered endpoint := by
  unfold resolveTableShards at res
  split at res
  · unfold plainTableShard at res
    split at res
    · obtain ⟨endpoint, hit, res⟩ := Exn.bind_eq_ok res
      cases res
      simpa using ShardMap.reg_of_resolveChildName hit
    · split at res
      · cases res
      · rename_i fst
        cases res
        simpa using ShardMap.reg_of_firstWorker fst
  · exact ShardMap.reg_of_resolvePrune res

theorem reg_of_insertTargets {tab : CatalogTable}
    {stmt : InsertStatement} {rows : List (List (Expr Empty))} {tgt res : Option ShardEndpoint}
    (start : ∀ endpoint ∈ tgt, c.shardMap.Registered endpoint)
    (resolved : c.insertTargets tab md stmt rows tgt = .ok res) :
    ∀ endpoint ∈ res, c.shardMap.Registered endpoint := by
  induction rows generalizing tgt with
  | nil =>
    cases resolved
    exact start
  | cons row rows ih =>
    rw [insertTargets] at resolved
    obtain ⟨key, -, resolved⟩ := Exn.bind_eq_ok resolved
    obtain ⟨endpoint, isEndpoint, resolved⟩ := Exn.bind_eq_ok resolved
    split at resolved
    · exact ih (by simpa using ShardMap.reg_of_resolveKey isEndpoint) resolved
    · split at resolved
      · cases resolved
      · exact ih start resolved

theorem reg_of_insertTarget {stmt : InsertStatement} (res : c.insertTarget s stmt = .ok eps) :
    ∀ endpoint ∈ eps, c.shardMap.Registered endpoint := by
  unfold insertTarget at res
  split at res
  · cases res
  · split at res
    · split at res
      · cases res
      · rename_i fst
        cases res
        simpa using ShardMap.reg_of_firstWorker fst
    · obtain ⟨tgt, targets, res⟩ := Exn.bind_eq_ok res
      split at res
      · cases res
      · cases res
        simpa using reg_of_insertTargets (by simp) targets

/-! ## Statements within a transaction -/

/-- The statement was refused, or it had one target, that of the transaction so far, and was
    forwarded there. -/
def Forwarded (c : CoordinatorQueryRouter W Q) (s : RouterState W Q) (sql : String)
    (target : Except String (List ShardEndpoint)) (outcome : RouterState W Q × QueryResult) : Prop :=
  (∃ e, outcome = (s, .errorResult e)) ∨
    ∃ front, target = .ok [front] ∧
      (∀ pinned, s.session.pinnedShardId = some pinned → pinned = front.shardId) ∧
      outcome = c.forwardWithTransaction front sql
        { s with session := { s.session with pinnedShardId := some front.shardId } }

theorem proxyToAll_inTx (c : CoordinatorQueryRouter W Q) (eps : List ShardEndpoint)
    (sql : String) (allowScatter : Bool) (inTxn : s.session.inTransaction = true) :
    c.Forwarded s sql (.ok eps) (c.proxyToEndpoints eps sql allowScatter s) := by
  obtain ⟨world, ⟨prepared, inTx, pin, started⟩, log⟩ := s
  obtain rfl : inTx = true := inTxn
  rcases eps with _ | ⟨front, _ | ⟨_, _⟩⟩
  · exact .inl ⟨_, rfl⟩
  · simp only [proxyToEndpoints, List.isEmpty_nil, Bool.not_true, Bool.and_false,
      Bool.false_eq_true, if_false, if_true]
    split
    · exact .inl ⟨_, rfl⟩
    · cases pin with
      | none => exact .inr ⟨front, rfl, by simp, rfl⟩
      | some pinned =>
        by_cases eq : pinned = front.shardId
        · subst eq
          exact .inr ⟨front, rfl, by simp, by simp [ensurePinned, QueryResult.successResult]⟩
        · exact .inl ⟨"multi-shard transaction is not supported in v1",
            by simp [ensurePinned, eq, QueryResult.errorResult]⟩
  · cases allowScatter <;> exact .inl ⟨_, rfl⟩

theorem proxyTo_inTx (c : CoordinatorQueryRouter W Q) (tgt : Except String (List ShardEndpoint))
    (sql : String) (allowScatter : Bool) (inTxn : s.session.inTransaction = true) :
    c.Forwarded s sql tgt (c.proxyTo tgt sql allowScatter s) := by
  cases tgt with
  | error e => exact .inl ⟨e, rfl⟩
  | ok eps => exact c.proxyToAll_inTx eps sql allowScatter inTxn

theorem singleShard_eq_ok {kind : String} {tgt : Except String (List ShardEndpoint)}
    (isSingle : singleShard kind tgt = .ok eps) : tgt = .ok eps ∧ eps.length = 1 := by
  cases tgt with
  | error e => cases isSingle
  | ok hit =>
    simp only [singleShard, bind, Except.bind] at isSingle
    split at isSingle
    · cases isSingle
    · rename_i single
      cases isSingle
      exact ⟨rfl, not_not.mp single⟩

end CoordinatorQueryRouter

/-! ## What the pinned worker executes -/

namespace Cluster

variable {Q : Type} (cl : Cluster Q)

/-- Statements on a worker, each over a connection of its own. -/
def autocommit (db : Database) (statements : List String) : Database :=
  run (fun db sql => (cl.call db sql).1) db statements

/-- The text of an INSERT, UPDATE or DELETE. -/
def IsDml (sql : String) : Prop :=
  (∃ stmt, cl.grammar.parse sql = .ok (.insert stmt)) ∨
    (∃ stmt, cl.grammar.parse sql = .ok (.update stmt)) ∨
    ∃ stmt, cl.grammar.parse sql = .ok (.delete stmt)

/-- The state of a transaction that has executed some statements: nothing has been sent, or the
    pinned worker has executed BEGIN and the statements, each by itself. -/
def Within (start : Workers) (executed : List String) (s : RouterState Workers Q) : Prop :=
  s.session.inTransaction = true ∧
    ((s.session.pinnedShardId = none ∧ s.session.remoteTransactionStarted = false ∧
        s.world = start ∧ executed = []) ∨
      ∃ endpoint, cl.shardMap.Registered endpoint ∧
        s.session.pinnedShardId = some endpoint.shardId ∧
        s.session.remoteTransactionStarted = true ∧
        s.world = Function.update start endpoint.address
          (cl.autocommit (cl.call (start endpoint.address) "BEGIN").1 executed))

variable {cl}

variable {s : RouterState Workers Q} {start : Workers} {executed : List String} {sql : String}

theorem rpc_of_success {endpoint : ShardEndpoint}
    (success : (cl.coordinator.rpc endpoint sql s).2.success = true) :
    (cl.coordinator.rpc endpoint sql s).1.world =
      Function.update s.world endpoint.address (cl.call (s.world endpoint.address) sql).1 := by
  by_cases answers : cl.answers endpoint = true
  · simp [rpc, coordinator, executeRpc, answers]
  · simp [rpc, coordinator, executeRpc, answers,
      QueryResult.errorResult] at success

section

variable (within : cl.Within start executed s)
include within

theorem within_forward {endpoint : ShardEndpoint} (reg : cl.shardMap.Registered endpoint)
    (pins : ∀ pinned, s.session.pinnedShardId = some pinned → pinned = endpoint.shardId) :
    let s' : RouterState Workers Q :=
      { s with session := { s.session with pinnedShardId := some endpoint.shardId } }
    (cl.coordinator.forwardWithTransaction endpoint sql s').2.success = true →
      cl.Within start (executed ++ [sql])
        (cl.coordinator.forwardWithTransaction endpoint sql s').1 := by
  intro s' success
  obtain ⟨inTxn, ⟨-, notStarted, unchanged, rfl⟩ | ⟨pinned, known, isPinned, started,
    isWorld⟩⟩ := within
  · have fresh : s'.session.remoteTransactionStarted = false := notStarted
    unfold forwardWithTransaction at success ⊢
    by_cases begun : (cl.coordinator.rpc endpoint "BEGIN" s').2.success = true
    · simp only [fresh, begun, Bool.not_true, Bool.false_eq_true, if_false] at success ⊢
      have fst := rpc_of_success begun
      refine ⟨inTxn, .inr ⟨endpoint, reg, rfl, rfl, ?_⟩⟩
      have eq : s'.world = start := unchanged
      rw [rpc_of_success success]
      simp [fst, eq, autocommit]
    · simp [fresh, begun] at success
  · obtain rfl : pinned = endpoint := known.eq_of_shardId reg (pins _ isPinned)
    have running : s'.session.remoteTransactionStarted = true := started
    unfold forwardWithTransaction at success ⊢
    simp only [running, if_true] at success ⊢
    refine ⟨inTxn, .inr ⟨pinned, reg, rfl, running, ?_⟩⟩
    have eq : s'.world = s.world := rfl
    rw [rpc_of_success success, eq, isWorld]
    simp [autocommit, run]

theorem within_serve {identity : Identity}
    (dml : cl.IsDml sql) (success : (cl.coordinator.executeQuery identity s sql).2.success = true) :
    cl.Within start (executed ++ [sql]) (cl.coordinator.serve identity s sql) := by
  have sent {target : Except String (List ShardEndpoint)}
      (reg : ∀ endpoints, target = .ok endpoints →
        ∀ endpoint ∈ endpoints, cl.shardMap.Registered endpoint)
      (eq : cl.coordinator.executeQuery identity s sql =
        cl.coordinator.proxyTo target sql false s) :
      cl.Within start (executed ++ [sql]) (cl.coordinator.serve identity s sql) := by
    rw [eq] at success
    rcases cl.coordinator.proxyTo_inTx target sql false within.1 with
      ⟨e, refused⟩ | ⟨endpoint, rfl, pins, forwarded⟩
    · rw [refused] at success
      cases success
    · rw [forwarded] at success
      unfold serve
      rw [eq, forwarded]
      exact within_forward within (reg _ rfl endpoint (by simp)) pins success
  have parses : cl.coordinator.grammar = cl.grammar := rfl
  have routed (stmt : ParsedStatement Q) (parsed : cl.grammar.parse sql = .ok stmt) :
      cl.coordinator.executeQuery identity s sql = cl.coordinator.route identity stmt sql s := by
    simp only [executeQuery, parses, parsed]
  rcases dml with ⟨stmt, parsed⟩ | ⟨stmt, parsed⟩ | ⟨stmt, parsed⟩
  · exact sent (fun _ hit => reg_of_insertTarget hit)
      (routed _ parsed)
  all_goals
    refine sent (fun _ hit => ?_) (routed _ parsed)
    exact reg_of_tableShards
      (singleShard_eq_ok hit).1

theorem within_run {identity : Identity} {stmts : List String}
    (succeed : Meets (cl.coordinator.serve identity) (fun s sql => cl.IsDml sql ∧
      (cl.coordinator.executeQuery identity s sql).2.success = true) s stmts) :
    cl.Within start (executed ++ stmts) (run (cl.coordinator.serve identity) s stmts) := by
  induction stmts generalizing s executed with
  | nil => simpa using within
  | cons sql stmts ih =>
    obtain ⟨⟨dml, success⟩, rest⟩ := succeed
    simpa using ih (within_serve within dml success) rest

end

/-! ## The end of the transaction -/

theorem committedRows_call_end (db : Database) {text : String}
    (isEnd : text = "COMMIT" ∨ text = "ROLLBACK") :
    (cl.call db text).1.committedRows = db.committedRows := by
  rcases isEnd with rfl | rfl
  · simp only [call, cl.grammar.parse_commit]
    rfl
  · simp only [call, cl.grammar.parse_rollback]
    rfl

theorem committedRows_endTxn {text : String} (isEnd : text = "COMMIT" ∨ text = "ROLLBACK")
    (address : String × UInt16) :
    ((cl.coordinator.endTransaction text s).1.world address).committedRows =
      (s.world address).committedRows := by
  unfold endTransaction
  split
  · rfl
  · split
    · rfl
    · split
      · rfl
      · rename_i endpoint _
        show (((cl.executeRpc s.world endpoint text).1) address).committedRows = _
        unfold executeRpc
        split
        · by_cases here : address = endpoint.address
          · subst here
            simpa using committedRows_call_end _ isEnd
          · simp [here]
        · rfl

/-- A transaction of statements that all succeed, ended by ROLLBACK or by COMMIT. The pinned worker
    has then the rows that BEGIN and the statements, each executed by itself, leave there: after
    ROLLBACK the rows are the same as before BEGIN just when those statements change none of
    them, and after COMMIT, whatever it answers, nothing of them is missing. -/
theorem remote_transaction_rows {identity : Identity} {start : RouterState Workers Q}
    {statements : List String} {endpoint : ShardEndpoint}
    (outside : start.session.inTransaction = false)
    (succeed : Meets (cl.coordinator.serve identity) (fun s sql => cl.IsDml sql ∧
      (cl.coordinator.executeQuery identity s sql).2.success = true)
      (cl.coordinator.serve identity start "BEGIN") statements)
    (registered : cl.shardMap.Registered endpoint)
    (pinned : (run (cl.coordinator.serve identity) (cl.coordinator.serve identity start "BEGIN")
      statements).session.pinnedShardId = some endpoint.shardId) :
    let final (text : String) : Database :=
      (run (cl.coordinator.serve identity) start ("BEGIN" :: statements ++ [text])).world
        endpoint.address
    let before := start.world endpoint.address
    let executed := cl.autocommit (cl.call before "BEGIN").1 statements
    ∀ name, ((final "ROLLBACK").committedRows name = before.committedRows name ↔
        executed.committedRows name = before.committedRows name) ∧
      (final "COMMIT").committedRows name = executed.committedRows name := by
  intro final before executed name
  have begun : cl.Within start.world [] (cl.coordinator.serve identity start "BEGIN") := by
    have : cl.coordinator.serve identity start "BEGIN" =
        { start with session := start.session.setInTransaction true } := by
      simp only [serve, executeQuery]
      rw [show cl.coordinator.grammar = cl.grammar from rfl, cl.grammar.parse_begin]
      simp [route, handleBegin, outside]
    rw [this]
    exact ⟨rfl, .inl ⟨rfl, rfl, rfl, rfl⟩⟩
  obtain ⟨-, ⟨none, -⟩ | ⟨other, known, isPinned, -, isWorld⟩⟩ := within_run begun succeed
  · rw [none] at pinned
    cases pinned
  · obtain rfl : other = endpoint :=
      known.eq_of_shardId registered (Option.some.inj (isPinned.symm.trans pinned))
    have ended {text : String} (isEnd : text = "COMMIT" ∨ text = "ROLLBACK") :
        (final text).committedRows = executed.committedRows := by
      have split : run (cl.coordinator.serve identity) start ("BEGIN" :: statements ++ [text]) =
          cl.coordinator.serve identity (run (cl.coordinator.serve identity)
            (cl.coordinator.serve identity start "BEGIN") statements) text := by
        simp [run]
      have isText : ∀ s : RouterState Workers Q, cl.coordinator.serve identity s text =
          (cl.coordinator.endTransaction text s).1 := by
        intro s
        simp only [serve, executeQuery]
        rw [show cl.coordinator.grammar = cl.grammar from rfl]
        rcases isEnd with rfl | rfl
        · rw [cl.grammar.parse_commit]
          rfl
        · rw [cl.grammar.parse_rollback]
          rfl
      simp only [final]
      rw [split, isText, committedRows_endTxn isEnd, isWorld]
      simp [executed, before]
    exact ⟨by rw [ended (.inr rfl)], congrFun (ended (.inl rfl)) name⟩

/-! ## One worker -/

/-- A cluster of one worker with a table `t`, and a grammar of two statements. -/
def oneWorker : Cluster Empty where
  grammar :=
    { parse := fun sql =>
        if sql = "BEGIN" then .ok .begin
        else if sql = "COMMIT" then .ok .commit
        else if sql = "ROLLBACK" then .ok .rollback
        else if sql = "INSERT INTO t VALUES (1)" then .ok (.insert ⟨"t", [], [[.literal (.int 1)]]⟩)
        else if sql = "DELETE FROM t" then .ok (.delete ⟨"t", none⟩)
        else .error "Unknown statement"
      parse_begin := rfl
      parse_commit := rfl
      parse_rollback := rfl }
  shardMap := CoordinatorQueryRouter.singleWorker.shardMap
  env :=
    { functions := ⟨fun _ _ err => .ok (.null, err), fun text _ => .ok (.string text)⟩ }
  catalog := []
  other := fun _ db => (db, .errorResult "")
  alive := fun _ => true
  answers := fun _ => true
  receive := fun _ result => result
  tables := fun name => if name = "t" then some { columns := ["id"] } else none
  metadata := fun session _ => (session, .errorResult "")

def emptyTable : RouterState Workers Empty where
  world := fun _ =>
    { tables := [("t", { name := "t", columns := [⟨"id", .int, true, false, false, none⟩] })] }

/-- DELETE changes nothing in an empty table, and then ROLLBACK leaves the rows as they were. -/
theorem remote_transaction_deletes_nothing :
    let final := run (oneWorker.coordinator.serve {}) emptyTable ["BEGIN", "DELETE FROM t", "ROLLBACK"]
    (final.world ("127.0.0.1", 9001)).committedRows "t" =
      (emptyTable.world ("127.0.0.1", 9001)).committedRows "t" := by
  intro final
  have succeed : Meets (oneWorker.coordinator.serve {}) (fun s sql => oneWorker.IsDml sql ∧
      (oneWorker.coordinator.executeQuery {} s sql).2.success = true)
      (oneWorker.coordinator.serve {} emptyTable "BEGIN") ["DELETE FROM t"] :=
    ⟨⟨.inr (.inr ⟨⟨"t", none⟩, rfl⟩), by decide +kernel⟩, trivial⟩
  have registered : oneWorker.shardMap.Registered ⟨0, "127.0.0.1", 9001⟩ := rfl
  have rows := remote_transaction_rows rfl succeed registered (by decide +kernel) "t"
  exact rows.1.mpr (by decide +kernel)

/-- The row of INSERT stays after ROLLBACK. -/
theorem remote_rollback_keeps_insert :
    let start := oneWorker.coordinator.serve {} emptyTable "BEGIN"
    let final := run (oneWorker.coordinator.serve {}) emptyTable
      ["BEGIN", "INSERT INTO t VALUES (1)", "ROLLBACK"]
    (oneWorker.coordinator.executeQuery {} start "INSERT INTO t VALUES (1)").2.success = true ∧
      (emptyTable.world ("127.0.0.1", 9001)).committedRows "t" = 0 ∧
      (final.world ("127.0.0.1", 9001)).committedRows "t" = {[.int 1]} := by
  intro start final
  exact ⟨by decide +kernel, by decide +kernel, by decide +kernel⟩

end Cluster

end NobugDb
