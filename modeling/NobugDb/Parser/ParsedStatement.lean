import NobugDb.Executor.Dml

/-!
# Parsed statements

`ParsedStatement` (`include/parser/parser.h:18-37`), with the contents of the statements that are
routed by them. Of the statements that are only passed on as text the kind is kept.
-/

namespace NobugDb

/-- An entry of `SelectStatement::joins_`: type, table, alias and condition. -/
structure JoinClause (Q : Type) where
  type : String
  table : String
  aliasName : String
  condition : Option (Expr Q)

/-- `SelectStatement` (`ast.h:186-241`). -/
structure SelectStatement (Q : Type) where
  selectColumns : List (Expr Q × String) := []
  fromTable : String := ""
  fromAlias : String := ""
  whereCondition : Option (Expr Q) := none
  groupByColumns : List (Expr Q) := []
  havingCondition : Option (Expr Q) := none
  orderByColumns : List (Expr Q × Bool) := []
  joins : List (JoinClause Q) := []
  distinct : Bool := false
  limit : Int := -1
  offset : Int := 0

inductive SetOperationKind where
  | union | intersect | except
  deriving DecidableEq, Repr

mutual

/-- `SetOperationStatement::Operand`. -/
inductive SetOperand (Q : Type) where
  | select (stmt : SelectStatement Q)
  | setOperation (stmt : SetOperationStatement Q)

/-- `SetOperationStatement` (`ast.h:244-276`). -/
inductive SetOperationStatement (Q : Type) where
  | mk (left : SetOperand Q) (kind : SetOperationKind) (right : SetOperand Q) (isAll : Bool)
      (orderByColumns : List (Expr Q × Bool)) (limit offset : Int)

end

/-- The statements of catalogs and storage that the coordinator sends to every worker
    (`coordinator_query_router.cc:14-31`). -/
inductive DdlKind where
  | createTable | dropTable | alterTable | createIndex | dropIndex | createView | dropView
  | createFunction | dropFunction | createProcedure | dropProcedure | createTrigger | dropTrigger
  | vacuum
  deriving DecidableEq, Repr

/-- `ParsedStatement`. `prepare` holds what its text parses to, when it parses. -/
inductive ParsedStatement (Q : Type) where
  | select (stmt : SelectStatement Q)
  | setOperation (stmt : SetOperationStatement Q)
  | insert (stmt : InsertStatement)
  | update (stmt : UpdateStatement)
  | delete (stmt : DeleteStatement)
  | ddl (kind : DdlKind)
  | call (name : String) (arguments : List (Expr Q))
  | setNew
  | begin
  | commit
  | rollback
  | prepare (name : String) (inner : Option (ParsedStatement Q))
  | execute (name : String)
  | deallocate (name : String)
  | explain (inner : ParsedStatement Q)

/-- `Parser::parse_statement`, with what the coordinator relies on for the texts it sends itself. -/
structure Grammar (Q : Type) where
  parse : String → Except String (ParsedStatement Q)
  parse_begin : parse "BEGIN" = .ok .begin
  parse_commit : parse "COMMIT" = .ok .commit
  parse_rollback : parse "ROLLBACK" = .ok .rollback

/-! ## Roles -/

inductive Role where
  | admin
  | reader
  deriving DecidableEq, Repr

namespace ParsedStatement

variable {Q : Type}

/-- `can_reader_execute` (`authorization.cc:8-42`). -/
def canReaderExecute : ParsedStatement Q → Bool
  | .select _ | .setOperation _ => true
  | .explain inner => inner.canReaderExecute
  | .begin | .commit | .rollback | .deallocate _ => true
  | .prepare _ (some inner) => inner.canReaderExecute
  | .prepare _ none => false
  | .insert _ | .update _ | .delete _ | .ddl _ | .call _ _ | .setNew | .execute _ => false

/-- `can_execute` (`authorization.cc:46-51`). -/
def canExecute (role : Role) (stmt : ParsedStatement Q) : Bool :=
  match role with
  | .admin => true
  | .reader => stmt.canReaderExecute

end ParsedStatement

end NobugDb
