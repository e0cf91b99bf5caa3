import NobugDb.Parser.ParsedStatement

/-!
# Sessions and their permissions

What a connection's `SessionContext` holds for the statements it sends, and the check that
`execute_query` makes before it dispatches one.
-/

namespace NobugDb

open Misc (AssocMap)

/-- What `SessionContext` knows of who is connected. -/
structure Identity where
  authenticated : Bool := false
  role : Option Role := none
  deriving DecidableEq

/-- `SessionContext`'s part in the coordinator: prepared statements, with what their texts parse
    to, and the coordinator's transaction. -/
structure SessionContext (Q : Type) where
  prepared : AssocMap String (Option (ParsedStatement Q)) := []
  inTransaction : Bool := false
  pinnedShardId : Option Int := none
  remoteTransactionStarted : Bool := false

/-- `clear_pinned_shard_id` after `set_in_transaction(inTransaction)`. -/
def SessionContext.setInTransaction {Q : Type} (session : SessionContext Q) (inTransaction : Bool) :
    SessionContext Q :=
  { session with inTransaction, pinnedShardId := none, remoteTransactionStarted := false }

/-- `is_statement_authorized` (`database.cc:42-61`). -/
def isStatementAuthorized {Q : Type} (role : Role) (stmt : ParsedStatement Q)
    (session : SessionContext Q) : Bool :=
  match stmt with
  | .execute name =>
    match session.prepared.lookup name with
    | none => true
    | some none => false
    | some (some prepared) => prepared.canExecute role
  | stmt => stmt.canExecute role

end NobugDb
