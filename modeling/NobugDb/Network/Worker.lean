import NobugDb.Executor.PartitionedDml
import NobugDb.Network.CoordinatorQueryRouter

/-!
# Workers

What a worker does for an RPC of the coordinator (`tcp_rpc_client.cc:8-20`, `tcp_client.cc:10-31`,
`server.cc:101-118`): every call opens a connection of its own, which has a new session, and
closes it after the answer. Nobody else is connected to a worker, so its locks are free.
-/

namespace NobugDb

open Misc (AssocMap Program)

/-- The address of a worker. -/
def ShardEndpoint.address (endpoint : ShardEndpoint) : String × UInt16 := (endpoint.host, endpoint.port)

/-- The databases of the workers, by address. -/
abbrev Workers := String × UInt16 → Database

namespace Worker

/-- The session of the connection a worker has open. -/
def session : Nat := 0

/-- A new `Connection`, and `active_session_ = session`. -/
def connect (db : Database) : Database :=
  { db.setSession session {} with activeSession := some session }

/-- `active_session_ = nullptr`, and the end of the connection. -/
def disconnect (db : Database) : Database := { db with activeSession := none }

/-- The results of the handlers of `execute_query` (`database.cc:361-391`). -/
def resultOf : Except Exn QueryResult → QueryResult
  | .ok result => result
  | .error exn =>
    match exn.kind with
    | .outOfRange | .filesystem | .undefined => .errorResult ("Unexpected error: " ++ exn.what)
    | _ => .errorResult exn.what

/-- INSERT, UPDATE or DELETE in autocommit mode (`database.cc:442-491`). A body that waits for a
    lock, as only a trigger's statement can, stays where it is. -/
def executeDml (env : Env) (catalog : AssocMap String PartitionedTableMetadata)
    (statement : Statement) (db : Database) : Database × QueryResult :=
  match Program.exec (Database.perform env.functions session) db
      (Executor.dmlBody env catalog statement) with
  | (db, .done (.ok result)) => (if result.success then db.flush else db, result)
  | (db, .done (.error exn)) => (db, resultOf (.error exn))
  | (db, .perform _ _) => (db, .errorResult "")

/-- The result of EXPLAIN, whose plan is not modelled, from that of the statement
    (`database.cc:2178-2198`). -/
def explained (result : QueryResult) : QueryResult :=
  if result.success then { QueryResult.successResult "EXPLAIN OK" with columnNames := ["QUERY PLAN"] }
  else result

end Worker

/-- A coordinator with its workers: what runs on a worker (`env`, `catalog`, and `other` for the
    statements that are not modelled), which workers are alive and share the secret, what arrives
    of a result, and the coordinator's own catalog and metadata database. -/
structure Cluster (Q : Type) where
  grammar : Grammar Q
  shardMap : ShardMap
  env : Env
  catalog : AssocMap String PartitionedTableMetadata
  other : ParsedStatement Q → Database → Database × QueryResult
  alive : ShardEndpoint → Bool
  answers : ShardEndpoint → Bool
  receive : ShardEndpoint → QueryResult → QueryResult
  tables : String → Option CatalogTable
  metadata : SessionContext Q → String → SessionContext Q × QueryResult

namespace Cluster

variable {Q : Type}

/-- `dispatch_statement` on a worker. -/
def dispatch (cl : Cluster Q) : ParsedStatement Q → Database → Database × QueryResult
  | .begin, db => db.executeBegin Worker.session
  | .commit, db => ((db.executeCommit Worker.session).1,
      Worker.resultOf (db.executeCommit Worker.session).2)
  | .rollback, db => ((db.executeRollback Worker.session).1,
      Worker.resultOf (db.executeRollback Worker.session).2)
  | .insert stmt, db => Worker.executeDml cl.env cl.catalog (.insert stmt) db
  | .update stmt, db => Worker.executeDml cl.env cl.catalog (.update stmt) db
  | .delete stmt, db => Worker.executeDml cl.env cl.catalog (.delete stmt) db
  | .explain inner, db => ((cl.dispatch inner db).1, Worker.explained (cl.dispatch inner db).2)
  | stmt, db => cl.other stmt db

/-- One connection to a worker: `handle_rpc_query_request`. -/
def call (cl : Cluster Q) (db : Database) (sql : String) : Database × QueryResult :=
  match cl.grammar.parse sql with
  | .error e => (db, .errorResult e)
  | .ok stmt =>
    let (db, result) := cl.dispatch stmt (Worker.connect db)
    (Worker.disconnect db, result)

/-- `TcpRpcClient::executeQuery` (`tcp_rpc_client.cc:8-20`). -/
def executeRpc (cl : Cluster Q) (w : Workers) (endpoint : ShardEndpoint) (sql : String) :
    Workers × QueryResult :=
  if cl.answers endpoint then
    (Function.update w endpoint.address (cl.call (w endpoint.address) sql).1,
     cl.receive endpoint (cl.call (w endpoint.address) sql).2)
  else (w, .errorResult ("RPC failed: no response from shard " ++ toString endpoint.shardId))

/-- The coordinator. -/
def coordinator (cl : Cluster Q) : CoordinatorQueryRouter Workers Q where
  grammar := cl.grammar
  shardMap := cl.shardMap
  getTable := fun _ => cl.tables
  ping := fun _ => cl.alive
  executeRpc := cl.executeRpc
  dispatch := fun w session sql => (w, cl.metadata session sql)

end Cluster

end NobugDb
