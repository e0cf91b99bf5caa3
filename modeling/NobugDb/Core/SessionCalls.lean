import NobugDb.Core.Authorization

/-!
# What a session's statements call

`execute_query` of a single node for one session, followed by what is called: the plan cache, the
permission check, `dispatch_statement`, and from there the executors, the views, subqueries and user
functions of queries, and the statements of prepared statements, procedures and triggers. What is
called depends on the data; here every call that can be made is one that may be made. Between any two
calls other sessions may change the catalogs and the plan cache.
-/

namespace NobugDb

open Misc (AssocMap)

variable {Q : Type}

/-! ## Parsing -/

/-- `Parser`, with the SELECT that a subquery holds, and the names that
    `ScalarFunctionRegistry::hasFunction` knows. -/
structure Dialect (Q : Type) extends Grammar Q where
  select : Q → SelectStatement Q
  hasFunction : String → Bool

namespace Expr

/-- The expressions an expression is made of. -/
def children : Expr Q → List (Expr Q)
  | .literal _ | .identifier _ | .columnRef _ _ | .parameter _ => []
  | .binary _ left right => [left, right]
  | .unary _ e | .cast e _ => [e]
  | .call _ args none => args
  | .call _ args (some (partitionBy, orderBy)) => args ++ partitionBy ++ orderBy.map Prod.fst
  | .case whenThen otherwise => whenThen.flatMap (fun p => [p.1, p.2]) ++ otherwise.toList
  | .inList left values _ => left :: values
  | .inSubquery left _ _ => [left]
  | .exists _ _ | .subquery _ => []

/-- The subquery of an expression. -/
def subselect : Expr Q → Option Q
  | .inSubquery _ q _ | .exists q _ | .subquery q => some q
  | _ => none

/-- The function an expression calls. -/
def function : Expr Q → Option String
  | .call name _ _ => some name
  | _ => none

end Expr

namespace SelectStatement

/-- The tables and views a SELECT names. -/
def tables (stmt : SelectStatement Q) : List String := stmt.fromTable :: stmt.joins.map JoinClause.table

/-- The expressions of a SELECT. -/
def expressions (stmt : SelectStatement Q) : List (Expr Q) :=
  stmt.selectColumns.map Prod.fst ++ stmt.whereCondition.toList ++ stmt.groupByColumns ++
    stmt.havingCondition.toList ++ stmt.orderByColumns.map Prod.fst ++
      stmt.joins.filterMap JoinClause.condition

end SelectStatement

/-! ## The plan cache -/

/-- The kinds of statements `execute_query` keeps no plan of (`database.cc:337-347`). -/
def ParsedStatement.isCached : ParsedStatement Q → Bool
  | .prepare _ _ | .begin | .commit | .rollback | .execute _ | .deallocate _ | .ddl .vacuum
  | .explain _ => false
  | _ => true

/-- `PlanCache`, the entry used last first. It holds what texts parse to. -/
structure PlanCache (g : Grammar Q) where
  capacity : Nat := 128
  entries : List (String × ParsedStatement Q) := []
  sound : ∀ e ∈ entries, g.parse e.1 = .ok e.2 := by simp

namespace PlanCache

variable {g : Grammar Q}

/-- The entries without the one of a text. -/
def others (cache : PlanCache g) (sql : String) : List (String × ParsedStatement Q) :=
  cache.entries.filter (fun e => e.1 ≠ sql)

theorem sound_cons {cache : PlanCache g} {sql : String} {stmt : ParsedStatement Q}
    (parsed : g.parse sql = .ok stmt) {kept : List (String × ParsedStatement Q)}
    (sub : kept ⊆ cache.others sql) : ∀ e ∈ (sql, stmt) :: kept, g.parse e.1 = .ok e.2 := by
  intro e mem
  obtain rfl | old := List.mem_cons.mp mem
  · exact parsed
  · exact cache.sound e (List.mem_filter.mp (sub old)).1

/-- `PlanCache::put` (`plan_cache.cc:19-33`). -/
def put (cache : PlanCache g) (sql : String) (stmt : ParsedStatement Q)
    (parsed : g.parse sql = .ok stmt) : PlanCache g :=
  let full : Bool := (if cache.capacity = 0 then 1 else cache.capacity) ≤ (cache.others sql).length
  { cache with
    entries := (sql, stmt) :: if full then (cache.others sql).dropLast else cache.others sql
    sound := sound_cons parsed (by
      split
      · exact List.dropLast_subset _
      · exact List.Subset.refl _) }

/-- `PlanCache::get` (`plan_cache.cc:7-17`). -/
def get (cache : PlanCache g) (sql : String) : Option (ParsedStatement Q) × PlanCache g :=
  match found : cache.entries.lookup sql with
  | none => (none, cache)
  | some stmt =>
    (some stmt, { cache with
      entries := (sql, stmt) :: cache.others sql
      sound := sound_cons (cache.sound _ (Misc.mem_of_lookup found)) (List.Subset.refl _) })

def clear (cache : PlanCache g) : PlanCache g := { cache with entries := [], sound := by simp }

end PlanCache

/-! ## Calls -/

/-- `TriggerDefinition`, with what its statements parse to. -/
structure TriggerDefinition (Q : Type) where
  table : String
  event : TriggerEvent
  statements : List (ParsedStatement Q)

/-- The catalogs of `Database`: which tables there are, the views, the bodies of functions, the
    statements of procedures, and the triggers. Texts are given by what they parse to. -/
structure Catalog (Q : Type) where
  tables : List String := []
  views : AssocMap String (SelectStatement Q) := []
  functions : AssocMap String (Expr Q) := []
  procedures : AssocMap String (List (ParsedStatement Q)) := []
  triggers : List (TriggerDefinition Q) := []

namespace Catalog

/-- The views among names (`ViewExpander::expand_table_ref`, `view_expander.cc:122-137`). -/
def viewsOf (c : Catalog Q) (names : List String) : List (SelectStatement Q) :=
  (names.filter (fun name => !c.tables.contains name)).filterMap (fun name => c.views.lookup name)

/-- The user function of a name (`select_expression_evaluator.cc:525-534`). -/
def getFunction (c : Catalog Q) (d : Dialect Q) (name : String) : Option (Expr Q) :=
  if d.hasFunction name.toLower then none
  else (c.functions.lookup name.toLower).or (c.functions.lookup name)

/-- The statements of the triggers of a table (`TriggerExecutor::fireTriggers`). -/
def fired (c : Catalog Q) (table : String) (event : TriggerEvent) : List (ParsedStatement Q) :=
  (c.triggers.filter (fun t => t.table = table ∧ t.event = event)).flatMap (·.statements)

end Catalog

/-- What is at work for a session. -/
inductive Activation (Q : Type) where
  /-- `dispatch_statement` and `run_parsed_statement`. -/
  | dispatch (stmt : ParsedStatement Q)
  /-- `execute_select_statement` and `run_select`. -/
  | select (stmt : SelectStatement Q)
  /-- `execute_query_operand` and `execute_set_operation_statement`. -/
  | operand (operand : SetOperand Q)
  /-- `ViewExpander::materialize_view`. -/
  | view (body : SelectStatement Q)
  /-- `evaluate_expression` of a query, whose subqueries are bound. -/
  | expression (e : Expr Q)
  /-- `evaluate_expression` without subqueries, as in the body of a function. -/
  | scalar (e : Expr Q)
  | insert (stmt : InsertStatement)
  | update (stmt : UpdateStatement)
  | delete (stmt : DeleteStatement)
  /-- The executors of DDL and VACUUM. -/
  | ddl (kind : DdlKind)
  /-- `execute_call_statement` and `ProcedureExecutor::executeCall`. -/
  | call (name : String) (arguments : List (Expr Q))
  | begin
  | commit
  | rollback
  /-- `execute_prepare`, with what the text of the statement parses to. -/
  | prepare (name : String) (inner : Option (ParsedStatement Q))
  | deallocate (name : String)

namespace Activation

/-- The executors of INSERT, UPDATE, DELETE, DDL, VACUUM and CALL. -/
def writes : Activation Q → Bool
  | .insert _ | .update _ | .delete _ | .ddl _ | .call _ _ => true
  | _ => false

/-- What an expression calls. -/
def ofFunction (d : Dialect Q) (c : Catalog Q) (e : Expr Q) : List (Activation Q) :=
  ((e.function.bind (c.getFunction d)).map Activation.scalar).toList

/-- What `dispatch_statement` calls (`database.cc:394-598`), with `execute_execute_prepared`
    (`database.cc:2117-2138`) and `execute_explain_statement` (`database.cc:2168-2199`). -/
def ofStatement (session : SessionContext Q) : ParsedStatement Q → List (Activation Q)
  | .begin => [.begin]
  | .commit => [.commit]
  | .rollback => [.rollback]
  | .prepare name inner => [.prepare name inner]
  | .execute name => ((session.prepared.lookup name).join.map Activation.dispatch).toList
  | .deallocate name => [.deallocate name]
  | .explain inner => [.dispatch inner]
  | .select stmt => [.select stmt]
  | .setOperation stmt => [.operand (.setOperation stmt)]
  | .insert stmt => [.insert stmt]
  | .update stmt => [.update stmt]
  | .delete stmt => [.delete stmt]
  | .ddl kind => [.ddl kind]
  | .call name arguments => [.call name arguments]
  | .setNew => []

/-- What an activation calls. The body of a view is run when the views in it have been replaced by
    tables, so it calls no more than is listed here. -/
def callees (d : Dialect Q) (c : Catalog Q) (session : SessionContext Q) :
    Activation Q → List (Activation Q)
  | .dispatch stmt => ofStatement session stmt
  | .select stmt => (c.viewsOf stmt.tables).map .view ++ stmt.expressions.map .expression
  | .operand (.select stmt) => [.select stmt]
  | .operand (.setOperation (.mk left _ right _ orderBy _ _)) =>
    [.operand left, .operand right] ++ orderBy.map (fun column => .scalar column.1)
  | .view body => (c.viewsOf body.tables).map .view ++ [.select body]
  | .expression e =>
    e.children.map .expression ++ (e.subselect.map (fun q => .select (d.select q))).toList ++
      ofFunction d c e
  | .scalar e => e.children.map .scalar ++ ofFunction d c e
  | .insert stmt => (c.fired stmt.table .insert).map .dispatch
  | .update stmt => (c.fired stmt.table .update).map .dispatch
  | .delete stmt => (c.fired stmt.table .delete).map .dispatch
  | .call name arguments =>
    arguments.map .scalar ++ (((c.procedures.lookup name).getD []).map .dispatch)
  | .ddl _ | .begin | .commit | .rollback | .prepare _ _ | .deallocate _ => []

end Activation

/-! ## A session of a server -/

/-- A server for one of its sessions; `stack` is what is at work for the session, the innermost call
    first. -/
structure Server (d : Dialect Q) where
  catalog : Catalog Q := {}
  planCache : PlanCache d.toGrammar := {}
  identity : Identity := {}
  session : SessionContext Q := {}
  stack : List (Activation Q) := []

namespace Server

variable {d : Dialect Q}

/-- What can happen next. -/
inductive Action (Q : Type) where
  /-- An AUTH request: who is connected from then on. -/
  | auth (identity : Identity)
  /-- A QUERY request. -/
  | query (sql : String)
  /-- The innermost activation makes the `n`th of its calls. -/
  | enter (n : Nat)
  /-- The innermost activation returns or throws. -/
  | leave
  /-- Other sessions change the catalogs. -/
  | alter (catalog : Catalog Q)
  /-- A plan is put into the cache, by `execute_query` of another session or by `execute_prepare`. -/
  | cache (sql : String)
  /-- `clear_plan_cache`. -/
  | clearCache

/-- The permission check and the call of `dispatch_statement` (`database.cc:350-357`). -/
def authorize (sv : Server d) (stmt : ParsedStatement Q) : Server d :=
  if sv.identity.authenticated &&
      sv.identity.role.any (fun role => !isStatementAuthorized role stmt sv.session) then sv
  else { sv with stack := [.dispatch stmt] }

/-- `Database::execute_query` (`database.cc:326-357`) up to `dispatch_statement`. -/
def executeQuery (sv : Server d) (sql : String) : Server d :=
  match sv.planCache.get sql with
  | (some stmt, planCache) => { sv with planCache }.authorize stmt
  | (none, planCache) =>
    match parsed : d.parse sql with
    | .error _ => { sv with planCache }
    | .ok stmt =>
      { sv with
        planCache := if stmt.isCached then planCache.put sql stmt parsed else planCache
        }.authorize stmt

/-- What `execute_prepare` (`database.cc:2105-2115`) and `execute_deallocate` leave in the session. -/
def prepared (session : SessionContext Q) : Activation Q → SessionContext Q
  | .prepare name (some stmt) =>
    { session with prepared := AssocMap.assign name (some stmt) session.prepared }
  | .deallocate name => { session with prepared := AssocMap.erase name session.prepared }
  | _ => session

/-- One action. The requests of a connection are handled one after another. -/
def step (sv : Server d) : Action Q → Server d
  | .auth identity => if sv.stack.isEmpty then { sv with identity } else sv
  | .query sql => if sv.stack.isEmpty then sv.executeQuery sql else sv
  | .enter n =>
    match sv.stack with
    | [] => sv
    | top :: _ =>
      match (top.callees d sv.catalog sv.session)[n]? with
      | none => sv
      | some callee =>
        { sv with session := prepared sv.session callee, stack := callee :: sv.stack }
  | .leave => { sv with stack := sv.stack.tail }
  | .alter catalog => { sv with catalog }
  | .cache sql =>
    match parsed : d.parse sql with
    | .error _ => sv
    | .ok stmt => { sv with planCache := sv.planCache.put sql stmt parsed }
  | .clearCache => { sv with planCache := sv.planCache.clear }

end Server

end NobugDb
