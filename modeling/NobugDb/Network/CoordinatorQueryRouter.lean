import NobugDb.Core.Authorization
import NobugDb.Core.ShardMap
import NobugDb.Executor.PartitionPrune

/-!
# The coordinator

`CoordinatorQueryRouter` (`src/network/coordinator_query_router.cc`): statements are routed to
workers by the partition metadata of the coordinator's own database and the shard map. The
workers and the metadata database are whatever answers: `W` is the state they share.
-/

namespace NobugDb

open Misc (AssocMap)

/-- What the coordinator looks at in a table of the metadata database. -/
structure CatalogTable where
  columns : List String
  partition : Option PartitionedTableMetadata := none

/-- What leaves the coordinator for a statement. -/
inductive Event where
  /-- A text is sent to a worker. -/
  | sent (endpoint : ShardEndpoint) (sql : String)
  /-- `dispatch_statement` of the metadata database is called. -/
  | applied (sql : String)

/-- The text of an event. -/
def Event.sql : Event → String
  | .sent _ sql => sql
  | .applied sql => sql

/-- The state of the coordinator for one session; `log` is what has left it. -/
structure RouterState (W Q : Type) where
  world : W
  session : SessionContext Q := {}
  log : List Event := []

/-- `CoordinatorQueryRouter` with its surroundings: `IRpcClient`, and `meta_database_`. -/
structure CoordinatorQueryRouter (W Q : Type) where
  grammar : Grammar Q
  shardMap : ShardMap
  getTable : W → String → Option CatalogTable
  ping : W → ShardEndpoint → Bool
  executeRpc : W → ShardEndpoint → String → W × QueryResult
  /-- `dispatch_statement` of the metadata database. -/
  dispatch : W → SessionContext Q → String → W × SessionContext Q × QueryResult

namespace CoordinatorQueryRouter

variable {W Q : Type} (c : CoordinatorQueryRouter W Q)

/-! ## Workers and the metadata database -/

/-- `rpc_client_->executeQuery`. -/
def rpc (endpoint : ShardEndpoint) (sql : String) (s : RouterState W Q) :
    RouterState W Q × QueryResult :=
  let (world, result) := c.executeRpc s.world endpoint sql
  ({ s with world, log := s.log ++ [.sent endpoint sql] }, result)

/-- `ensureWorkersHealthy` (`coordinator_query_router.cc:399-411`): the error for the first worker
    that does not answer. -/
def healthError (s : RouterState W Q) (endpoints : List ShardEndpoint) : Option String :=
  (endpoints.find? (fun endpoint => !c.ping s.world endpoint)).map (fun endpoint =>
    "required worker shard " ++ toString endpoint.shardId ++ " is down")

/-- `Database::execute_query` (`database.cc:326-359`) of the metadata database. -/
def queryMetadata (identity : Identity) (sql : String) (s : RouterState W Q) :
    RouterState W Q × QueryResult :=
  match c.grammar.parse sql with
  | .error e => (s, .errorResult e)
  | .ok stmt =>
    if identity.authenticated &&
        identity.role.any (fun role => !isStatementAuthorized role stmt s.session) then
      (s, .errorResult "permission denied")
    else
      let (world, session, result) := c.dispatch s.world s.session sql
      ({ world, session, log := s.log ++ [.applied sql] }, result)

/-! ## Where a statement goes -/

/-- The worker of a table that is not partitioned (`coordinator_query_router.cc:418-433`,
    `435-450`). -/
def plainTableShard (name : String) : Except String (List ShardEndpoint) :=
  if c.shardMap.hasPlacement name then do return [← c.shardMap.resolveChildName name]
  else
    match c.shardMap.firstWorker with
    | none => .error "no workers configured"
    | some first => .ok [first]

/-- `resolveTableShards` (`coordinator_query_router.cc:413-457`). -/
def resolveTableShards (s : RouterState W Q) (name : String) {R : Type} (cond : Option (Expr R)) :
    Except String (List ShardEndpoint) :=
  match (c.getTable s.world name).bind (·.partition) with
  | none => c.plainTableShard name
  | some metadata =>
    c.shardMap.resolvePrune metadata (buildPartitionPruneRequest metadata.keyColumn cond)

/-- The position of the partition key in a row of VALUES
    (`coordinator_query_router.cc:470-480`). -/
def insertKeyIndex (table : CatalogTable) (stmt : InsertStatement) (keyColumn : String) : Option Nat :=
  if stmt.columns.isEmpty then table.columns.findIdx? (· = keyColumn)
  else stmt.columns.findIdx? (· = keyColumn)

/-- `extractInsertPartitionKey` (`coordinator_query_router.cc:459-493`). -/
def extractInsertPartitionKey (table : CatalogTable) (stmt : InsertStatement) (keyColumn : String)
    (row : List (Expr Empty)) : Except String Value :=
  match (insertKeyIndex table stmt keyColumn).bind (row[·]?) with
  | none => .error ("INSERT is missing partition key column " ++ keyColumn)
  | some (.literal key) => .ok key
  | some _ => .error "partition key must be a literal for coordinator routing"

/-- The loop over the rows of VALUES (`coordinator_query_router.cc:270-291`). -/
def insertTargets (c : CoordinatorQueryRouter W Q) (table : CatalogTable)
    (metadata : PartitionedTableMetadata) (stmt : InsertStatement) :
    List (List (Expr Empty)) → Option ShardEndpoint → Except String (Option ShardEndpoint)
  | [], target => .ok target
  | row :: rows, target => do
    let key ← extractInsertPartitionKey table stmt metadata.keyColumn row
    let endpoint ← c.shardMap.resolveKey metadata key
    match target with
    | none => c.insertTargets table metadata stmt rows (some endpoint)
    | some target =>
      if target.shardId ≠ endpoint.shardId then
        .error "multi-shard INSERT is not supported in v1"
      else c.insertTargets table metadata stmt rows (some target)

/-- The worker of an INSERT (`coordinator_query_router.cc:257-294`). -/
def insertTarget (s : RouterState W Q) (stmt : InsertStatement) :
    Except String (List ShardEndpoint) :=
  match c.getTable s.world stmt.table with
  | none => .error ("Table not found: " ++ stmt.table)
  | some table =>
    match table.partition with
    | none =>
      match c.shardMap.firstWorker with
      | none => .error "no workers configured"
      | some first => .ok [first]
    | some metadata => do
      match ← c.insertTargets table metadata stmt stmt.values none with
      | none => .error "INSERT has no values"
      | some target => return [target]

/-- The workers of the tables of a join (`coordinator_query_router.cc:209-224`). -/
def joinShards (c : CoordinatorQueryRouter W Q) (s : RouterState W Q) :
    List String → AssocMap Int ShardEndpoint → Except String (AssocMap Int ShardEndpoint)
  | [], shardSet => .ok shardSet
  | name :: names, shardSet => do
    let endpoints ← c.resolveTableShards s name (none : Option (Expr Q))
    c.joinShards s names
      (endpoints.foldl (fun set endpoint => AssocMap.assign endpoint.shardId endpoint set) shardSet)

/-- The worker of a join (`coordinator_query_router.cc:208-239`). -/
def joinTarget (s : RouterState W Q) (stmt : SelectStatement Q) :
    Except String (List ShardEndpoint) := do
  match ← c.joinShards s (stmt.fromTable :: stmt.joins.map (·.table)) [] with
  | [] =>
    match c.shardMap.firstWorker with
    | none => .error "no workers configured"
    | some first => return [first]
  | [single] => return [single.2]
  | _ => .error "cross-shard JOIN not supported in v1"

/-! ## Sending it -/

/-- `ensurePinned` (`coordinator_query_router.cc:372-383`). -/
def ensurePinned (shardId : Int) (s : RouterState W Q) : RouterState W Q × QueryResult :=
  match s.session.pinnedShardId with
  | none =>
    ({ s with session := { s.session with pinnedShardId := some shardId } }, .successResult "OK")
  | some pinned =>
    if pinned ≠ shardId then
      (s, .errorResult "multi-shard transaction is not supported in v1")
    else (s, .successResult "OK")

/-- `forwardWithTransaction` (`coordinator_query_router.cc:385-397`). -/
def forwardWithTransaction (endpoint : ShardEndpoint) (sql : String) (s : RouterState W Q) :
    RouterState W Q × QueryResult :=
  if s.session.remoteTransactionStarted then c.rpc endpoint sql s
  else
    let (s, begun) := c.rpc endpoint "BEGIN" s
    if !begun.success then (s, begun)
    else
      c.rpc endpoint sql { s with session := { s.session with remoteTransactionStarted := true } }

/-- The queries of a scatter, one after another. -/
def rpcEach (c : CoordinatorQueryRouter W Q) (sql : String) :
    List ShardEndpoint → RouterState W Q → RouterState W Q × List QueryResult
  | [], s => (s, [])
  | endpoint :: endpoints, s =>
    let (s, part) := c.rpc endpoint sql s
    let (s, parts) := c.rpcEach sql endpoints s
    (s, part :: parts)

/-- `ResultMerger::merge` (`result_merger.cc:5-30`). -/
def merge (results : List QueryResult) : QueryResult :=
  match results with
  | [] => .errorResult "scatter-gather produced no results"
  | first :: _ =>
    match results.find? (fun result => !result.success) with
    | some failed =>
      .errorResult (if failed.message.isEmpty then "worker query failed" else failed.message)
    | none =>
      if results.any (fun part => part.columnNames ≠ first.columnNames) then
        .errorResult "scatter-gather column mismatch across shards"
      else
        { QueryResult.successResult "OK" with
          columnNames := first.columnNames
          rows := results.flatMap (·.rows)
          affectedRows := (results.map (·.affectedRows)).sum }

/-- `proxyToEndpoints` (`coordinator_query_router.cc:336-370`). -/
def proxyToEndpoints (endpoints : List ShardEndpoint) (sql : String) (allowScatter : Bool)
    (s : RouterState W Q) : RouterState W Q × QueryResult :=
  match endpoints with
  | [] => (s, .errorResult "no target shards for query")
  | front :: others =>
    if !allowScatter && !others.isEmpty then
      (s, .errorResult "statement touches multiple shards which is not allowed")
    else if s.session.inTransaction && !others.isEmpty then
      (s, .errorResult "multi-shard transaction is not supported in v1")
    else
      match c.healthError s endpoints with
      | some error => (s, .errorResult error)
      | none =>
        if s.session.inTransaction then
          let (s, pin) := ensurePinned front.shardId s
          if !pin.success then (s, pin) else c.forwardWithTransaction front sql s
        else if others.isEmpty then c.rpc front sql s
        else
          let (s, parts) := c.rpcEach sql endpoints s
          (s, merge parts)

/-- A statement with the workers found for it. -/
def proxyTo (target : Except String (List ShardEndpoint)) (sql : String) (allowScatter : Bool)
    (s : RouterState W Q) : RouterState W Q × QueryResult :=
  match target with
  | .error e => (s, .errorResult e)
  | .ok endpoints => c.proxyToEndpoints endpoints sql allowScatter s

/-! ## Statements -/

/-- `handleBegin` (`coordinator_query_router.cc:120-130`). -/
def handleBegin (s : RouterState W Q) : RouterState W Q × QueryResult :=
  if s.session.inTransaction then (s, .errorResult "Transaction already active")
  else ({ s with session := s.session.setInTransaction true }, .successResult "BEGIN OK")

/-- The end of a coordinator transaction by a text for the pinned worker. -/
def endTransaction (text : String) (s : RouterState W Q) : RouterState W Q × QueryResult :=
  if !s.session.inTransaction then (s, .errorResult "No active transaction")
  else
    let ended (s : RouterState W Q) := { s with session := s.session.setInTransaction false }
    match s.session.pinnedShardId with
    | none => (ended s, .successResult (text ++ " OK"))
    | some shardId =>
      match c.shardMap.findEndpoint shardId with
      | none => (ended s, .errorResult "pinned shard is unavailable")
      | some endpoint =>
        let (s, remote) := c.rpc endpoint text s
        (ended s, remote)

/-- `handleCommit` (`coordinator_query_router.cc:132-153`). -/
def handleCommit (s : RouterState W Q) : RouterState W Q × QueryResult :=
  c.endTransaction "COMMIT" s

/-- `handleRollback` (`coordinator_query_router.cc:155-176`). -/
def handleRollback (s : RouterState W Q) : RouterState W Q × QueryResult :=
  c.endTransaction "ROLLBACK" s

/-- The loop of `handleBroadcast` (`coordinator_query_router.cc:190-198`), with the error it
    ends with. -/
def broadcast (c : CoordinatorQueryRouter W Q) (sql : String) :
    List ShardEndpoint → RouterState W Q → RouterState W Q × Option QueryResult
  | [], s => (s, none)
  | endpoint :: endpoints, s =>
    let (s, remote) := c.rpc endpoint sql s
    if !remote.success then
      (s, some (.errorResult ("broadcast failed on shard " ++ toString endpoint.shardId ++ ": " ++
        remote.message)))
    else c.broadcast sql endpoints s

/-- `handleBroadcast` (`coordinator_query_router.cc:178-200`). -/
def handleBroadcast (identity : Identity) (sql : String) (s : RouterState W Q) :
    RouterState W Q × QueryResult :=
  if s.session.inTransaction then
    (s, .errorResult "DDL is not allowed inside a coordinator transaction")
  else
    match c.healthError s c.shardMap.listWorkers with
    | some error => (s, .errorResult error)
    | none =>
      match c.broadcast sql c.shardMap.listWorkers s with
      | (s, some failed) => (s, failed)
      | (s, none) => c.queryMetadata identity sql s

/-- `handleSelect` (`coordinator_query_router.cc:202-249`). -/
def handleSelect (stmt : SelectStatement Q) (sql : String) (s : RouterState W Q) :
    RouterState W Q × QueryResult :=
  if stmt.joins.isEmpty then
    c.proxyTo (c.resolveTableShards s stmt.fromTable stmt.whereCondition) sql true s
  else c.proxyTo (c.joinTarget s stmt) sql false s

/-- `handleInsert` (`coordinator_query_router.cc:251-296`). -/
def handleInsert (stmt : InsertStatement) (sql : String) (s : RouterState W Q) :
    RouterState W Q × QueryResult :=
  c.proxyTo (c.insertTarget s stmt) sql false s

/-- The single worker of an UPDATE or DELETE. -/
def singleShard (kind : String) (target : Except String (List ShardEndpoint)) :
    Except String (List ShardEndpoint) := do
  let endpoints ← target
  if endpoints.length ≠ 1 then .error ("multi-shard " ++ kind ++ " is not supported in v1")
  else return endpoints

/-- `handleUpdate` (`coordinator_query_router.cc:298-315`). -/
def handleUpdate (stmt : UpdateStatement) (sql : String) (s : RouterState W Q) :
    RouterState W Q × QueryResult :=
  c.proxyTo (singleShard "UPDATE" (c.resolveTableShards s stmt.table stmt.whereCondition)) sql false s

/-- `handleDelete` (`coordinator_query_router.cc:317-334`). -/
def handleDelete (stmt : DeleteStatement) (sql : String) (s : RouterState W Q) :
    RouterState W Q × QueryResult :=
  c.proxyTo (singleShard "DELETE" (c.resolveTableShards s stmt.table stmt.whereCondition)) sql false s

/-- `executeQuery` (`coordinator_query_router.cc:56-118`) of a parsed statement. -/
def route (identity : Identity) (stmt : ParsedStatement Q) (sql : String) (s : RouterState W Q) :
    RouterState W Q × QueryResult :=
  match stmt with
  | .begin => handleBegin s
  | .commit => c.handleCommit s
  | .rollback => c.handleRollback s
  | .prepare _ _ | .execute _ | .deallocate _ =>
    (s, .errorResult "prepared statements are not supported on coordinator in v1")
  | .ddl _ => c.handleBroadcast identity sql s
  | .explain (.select inner) => c.handleSelect inner sql s
  | .explain _ => c.handleBroadcast identity sql s
  | .select stmt => c.handleSelect stmt sql s
  | .setOperation _ =>
    (s, .errorResult "set operations are not supported on coordinator in v1")
  | .insert stmt => c.handleInsert stmt sql s
  | .update stmt => c.handleUpdate stmt sql s
  | .delete stmt => c.handleDelete stmt sql s
  | .call _ _ => c.proxyToEndpoints c.shardMap.listWorkers sql false s
  | .setNew => (s, .errorResult "statement type is not supported on coordinator in v1")

/-- `executeQuery` (`coordinator_query_router.cc:56-118`). -/
def executeQuery (identity : Identity) (s : RouterState W Q) (sql : String) :
    RouterState W Q × QueryResult :=
  match c.grammar.parse sql with
  | .error e => (s, .errorResult e)
  | .ok stmt => c.route identity stmt sql s

/-- The state after a statement. -/
def serve (identity : Identity) (s : RouterState W Q) (sql : String) : RouterState W Q :=
  (c.executeQuery identity s sql).1

end CoordinatorQueryRouter

end NobugDb
