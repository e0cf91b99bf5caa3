import NobugDb.Network.Proofs.RemoteTransactions

/-!
# Which nodes a statement reaches

The worker of a table that is not partitioned, and the nodes at which a broadcast statement is
applied. `handleInsert` takes the first worker where `resolveTableShards` looks for a placement of
the table first; `handleBroadcast` stops at the first worker that refuses.
-/

namespace NobugDb

open Misc (AssocMap lookup_assign)
open ShardMap

namespace CoordinatorQueryRouter

variable {W Q : Type} {c : CoordinatorQueryRouter W Q} {s : RouterState W Q} {sql : String}
  {identity : Identity} {eps : List ShardEndpoint} {name : String} {stmt : ParsedStatement Q}

/-! ## Invariants -/

section Invariants

variable {I : RouterState W Q → Prop}

theorem keeps_rpcEach (calls : ∀ e ∈ eps, ∀ s, I s → I (c.rpc e sql s).1)
    (start : I s) : I (c.rpcEach sql eps s).1 := by
  induction eps generalizing s with
  | nil => exact start
  | cons ep eps ih =>
    exact ih (fun e mem => calls e (by simp [mem])) (calls ep (by simp) s start)

theorem keeps_broadcast (calls : ∀ e ∈ eps, ∀ s, I s → I (c.rpc e sql s).1) (start : I s) :
    I (c.broadcast sql eps s).1 := by
  induction eps generalizing s with
  | nil => exact start
  | cons ep eps ih =>
    have fst := calls ep (by simp) s start
    simp only [broadcast]
    split
    · exact fst
    · exact ih (fun e mem => calls e (by simp [mem])) fst

theorem keeps_forward {front : ShardEndpoint} (session : ∀ s session, I s → I { s with session })
    (call : ∀ text, text = sql ∨ text = "BEGIN" → ∀ s, I s → I (c.rpc front text s).1)
    (start : I s) : I (c.forwardWithTransaction front sql s).1 := by
  have begun := call "BEGIN" (.inr rfl) s start
  unfold forwardWithTransaction
  split
  · exact call sql (.inl rfl) s start
  · dsimp only
    split
    · exact begun
    · exact call sql (.inl rfl) _ (session _ _ begun)

/-- A statement keeps what its own calls, with BEGIN, and the pin of the session keep. -/
theorem keeps_proxyTo {target : Except String (List ShardEndpoint)} {allowScatter : Bool}
    (session : ∀ s session, I s → I { s with session })
    (calls : ∀ eps, target = .ok eps → ∀ e ∈ eps, ∀ text, text = sql ∨ text = "BEGIN" →
      ∀ s, I s → I (c.rpc e text s).1) (start : I s) :
    I (c.proxyTo target sql allowScatter s).1 := by
  by_cases inTxn : s.session.inTransaction = true
  · rcases c.proxyTo_inTx target sql allowScatter inTxn with
      ⟨e, refused⟩ | ⟨front, rfl, -, sent⟩
    · rw [refused]
      exact start
    · rw [sent]
      exact keeps_forward session (calls _ rfl front (by simp)) (session s _ start)
  · cases target with
    | error e => exact start
    | ok eps =>
      have calls := calls _ rfl
      simp only [proxyTo, proxyToEndpoints, inTxn, Bool.false_and, Bool.false_eq_true, if_false]
      split
      · exact start
      · split
        · exact start
        · split
          · exact start
          · split
            · exact calls _ (by simp) sql (.inl rfl) s start
            · exact keeps_rpcEach (fun e mem => calls e mem sql (.inl rfl)) start

end Invariants

/-! ## The workers of a statement -/

/-- The workers of a SELECT. -/
def selectShards (c : CoordinatorQueryRouter W Q) (s : RouterState W Q) (stmt : SelectStatement Q) :
    Except String (List ShardEndpoint) :=
  if stmt.joins.isEmpty then c.resolveTableShards s stmt.fromTable stmt.whereCondition
  else c.joinTarget s stmt

/-- The workers a statement needs, by `executeQuery`. -/
def neededShards (c : CoordinatorQueryRouter W Q) (s : RouterState W Q) :
    ParsedStatement Q → Except String (List ShardEndpoint)
  | .select stmt | .explain (.select stmt) => c.selectShards s stmt
  | .insert stmt => c.insertTarget s stmt
  | .update stmt => c.resolveTableShards s stmt.table stmt.whereCondition
  | .delete stmt => c.resolveTableShards s stmt.table stmt.whereCondition
  | .ddl _ | .explain _ | .call _ _ => .ok c.shardMap.listWorkers
  | _ => .ok []

/-- The text of the statement is sent to this worker. -/
def SentTo (c : CoordinatorQueryRouter W Q) (identity : Identity) (s : RouterState W Q) (sql : String)
    (endpoint : ShardEndpoint) : Prop :=
  .sent endpoint sql ∈ (c.executeQuery identity { s with log := [] } sql).1.log

/-- A SELECT, UPDATE or DELETE on the table. -/
def OnTable (name : String) : ParsedStatement Q → Prop
  | .select stmt => name ∈ stmt.fromTable :: stmt.joins.map (·.table)
  | .update stmt => stmt.table = name
  | .delete stmt => stmt.table = name
  | _ => False

theorem joinShards_log (names : List String) (set : AssocMap Int ShardEndpoint) :
    c.joinShards { s with log := [] } names set = c.joinShards s names set := by
  induction names generalizing set with
  | nil => rfl
  | cons name names ih =>
    simp only [joinShards, ih]
    rfl

theorem mem_needed_of_sentTo {ep : ShardEndpoint} (parsed : c.grammar.parse sql = .ok stmt)
    (kind : OnTable name stmt ∨ ∃ insert, stmt = .insert insert)
    (sent : c.SentTo identity s sql ep) : ∃ eps, c.neededShards s stmt = .ok eps ∧ ep ∈ eps := by
  have proxied {target : Except String (List ShardEndpoint)} {allowScatter : Bool}
      (logged : .sent ep sql ∈ (c.proxyTo target sql allowScatter { s with log := [] }).1.log) :
      ∃ eps, target = .ok eps ∧ ep ∈ eps := by
    have ok : ∀ ev ∈ (c.proxyTo target sql allowScatter { s with log := [] }).1.log,
        ∀ e text, ev = .sent e text → ∃ eps, target = .ok eps ∧ e ∈ eps := by
      refine @keeps_proxyTo _ _ c _ sql (fun s => ∀ ev ∈ s.log, ∀ e text, ev = .sent e text →
        ∃ eps, target = .ok eps ∧ e ∈ eps) target _ (fun _ _ ok => ok) ?_ (by simp)
      rintro eps isTarget e mem text - s ok
      refine List.forall_mem_append.2 ⟨ok, ?_⟩
      simp only [List.mem_singleton, forall_eq, Event.sent.injEq]
      rintro e' text' ⟨rfl, -⟩
      exact ⟨eps, isTarget, mem⟩
    exact ok _ logged ep sql rfl
  unfold SentTo executeQuery at sent
  simp only [parsed] at sent
  cases stmt with
  | select stmt =>
    simp only [route, handleSelect] at sent
    show ∃ eps, c.selectShards s stmt = .ok eps ∧ _
    unfold selectShards
    split at sent
    · rename_i single
      rw [if_pos single]
      exact proxied sent
    · rename_i joined
      rw [if_neg joined]
      unfold joinTarget at sent ⊢
      rw [joinShards_log] at sent
      exact proxied sent
  | insert stmt => exact proxied sent
  | update stmt | delete stmt =>
    obtain ⟨eps, isSingle, mem⟩ := proxied sent
    exact ⟨eps, (singleShard_eq_ok isSingle).1, mem⟩
  | _ =>
    rcases kind with on | ⟨_, eq⟩
    · exact on.elim
    · cases eq

/-! ## Tables that are not partitioned -/

/-- The worker of a table that is not partitioned: where its name is placed, or the first one. -/
def home (c : CoordinatorQueryRouter W Q) (name : String) : Option ShardEndpoint :=
  match c.shardMap.findShardId name with
  | some shardId => c.shardMap.findEndpoint shardId
  | none => c.shardMap.firstWorker

theorem reg_of_home {endpoint : ShardEndpoint}
    (isHome : c.home name = some endpoint) : c.shardMap.Registered endpoint := by
  unfold home at isHome
  split at isHome
  · exact reg_of_findEndpoint isHome
  · exact reg_of_firstWorker isHome

theorem tableShards_plain {R : Type} {cond : Option (Expr R)}
    (plain : (c.getTable s.world name).bind (·.partition) = none) :
    ∃ endpoint, c.home name = some endpoint ∧ c.resolveTableShards s name cond = .ok [endpoint] := by
  unfold resolveTableShards plainTableShard home hasPlacement AssocMap.contains
    resolveChildName findShardId
  rw [plain]
  cases placed : c.shardMap.placements.lookup name with
  | some shardId =>
    obtain ⟨endpoint, hit⟩ :=
      Option.isSome_iff_exists.1 (c.shardMap.known _ (Misc.mem_of_lookup placed))
    have hit : c.shardMap.findEndpoint shardId = some endpoint := hit
    exact ⟨endpoint, hit, by simp [hit, bind, Except.bind, pure, Except.pure]⟩
  | none =>
    have some_worker := c.shardMap.workers_ne_nil
    cases fst : c.shardMap.firstWorker with
    | none => simp_all [firstWorker, listWorkers]
    | some endpoint => exact ⟨endpoint, rfl, by simp⟩

/-- The map of a join holds the map's own endpoints, those of all its tables among them. -/
theorem joinShards_spec {names : List String} {set result : AssocMap Int ShardEndpoint}
    (own : ∀ k e, set.lookup k = some e → c.shardMap.findEndpoint k = some e)
    (joined : c.joinShards s names set = .ok result) :
    (∀ k e, result.lookup k = some e → c.shardMap.findEndpoint k = some e) ∧
      (∀ k, (set.lookup k).isSome = true → (result.lookup k).isSome = true) ∧
      ∀ name ∈ names, ∀ ep, c.resolveTableShards s name (none : Option (Expr Q)) = .ok [ep] →
        (result.lookup ep.shardId).isSome = true := by
  induction names generalizing set with
  | nil =>
    cases joined
    exact ⟨own, fun _ => id, nofun⟩
  | cons name names ih =>
    rw [joinShards] at joined
    obtain ⟨eps, res, joined⟩ := Exn.bind_eq_ok joined
    have registered := reg_of_tableShards res
    have assigned : ∀ (eps : List ShardEndpoint) (set : AssocMap Int ShardEndpoint),
        (∀ e ∈ eps, c.shardMap.Registered e) →
        (∀ k e, set.lookup k = some e → c.shardMap.findEndpoint k = some e) →
        let all := eps.foldl (fun set e => AssocMap.assign e.shardId e set) set
        (∀ k e, all.lookup k = some e → c.shardMap.findEndpoint k = some e) ∧
          (∀ k, (set.lookup k).isSome = true ∨ k ∈ eps.map (·.shardId) →
            (all.lookup k).isSome = true) := by
      intro eps
      induction eps with
      | nil => exact fun set _ own => ⟨own, by simp⟩
      | cons ep eps ih =>
        intro set registered own
        obtain ⟨own', kept⟩ := ih (AssocMap.assign ep.shardId ep set)
          (fun e mem => registered e (by simp [mem])) (by
            intro k e hit
            rw [lookup_assign] at hit
            split at hit
            · rename_i eq
              cases hit
              exact eq ▸ registered ep (by simp)
            · exact own k e hit)
        refine ⟨own', fun k has => kept k ?_⟩
        rw [lookup_assign]
        split
        · exact .inl rfl
        · simp_all
    obtain ⟨own', kept⟩ := assigned eps set registered own
    obtain ⟨ownAll, keptAll, rest⟩ := ih own' joined
    refine ⟨ownAll, fun k has => keptAll k (kept k (.inl has)), ?_⟩
    rintro ne (_ | ⟨_, mem⟩) ep single
    · rw [res] at single
      cases single
      exact keptAll _ (kept _ (.inr (by simp)))
    · exact rest ne mem ep single

theorem home_of_needed
    (plain : (c.getTable s.world name).bind (·.partition) = none) (on : OnTable name stmt)
    (needed : c.neededShards s stmt = .ok eps) : ∀ e ∈ eps, c.home name = some e := by
  have single {R : Type} {cond : Option (Expr R)}
      (res : c.resolveTableShards s name cond = .ok eps) :
      ∀ e ∈ eps, c.home name = some e := by
    obtain ⟨ep, isHome, hit⟩ := @tableShards_plain _ _ c s name R cond plain
    cases res.symm.trans hit
    simpa using isHome
  cases stmt with
  | update stmt | delete stmt =>
    obtain rfl : stmt.table = name := on
    exact single needed
  | select stmt =>
    simp only [neededShards, selectShards] at needed
    split at needed
    · rename_i alone
      obtain rfl : name = stmt.fromTable := by simpa [OnTable, List.isEmpty_iff.1 alone] using on
      exact single needed
    · rw [joinTarget] at needed
      obtain ⟨result, joined, needed⟩ := Exn.bind_eq_ok needed
      obtain ⟨own, -, tables⟩ := joinShards_spec (by simp) joined
      obtain ⟨ep, isHome, hit⟩ :=
        @tableShards_plain _ _ c s name Q none plain
      have listed := tables name on ep hit
      rcases result with _ | ⟨⟨k, e⟩, _ | ⟨ne, rest⟩⟩
      · simp at listed
      · cases needed
        have eq : ep.shardId = k := by
          by_contra ne
          simp [Misc.lookup_cons_if, ne] at listed
        have registered := reg_of_home isHome
        have := own k e (by simp)
        rw [← eq, registered] at this
        simpa [isHome] using Option.some.inj this
      · cases needed
  | _ => exact on.elim

theorem firstWorker_of_needed {insert : InsertStatement}
    (plain : (c.getTable s.world insert.table).bind (·.partition) = none)
    (needed : c.insertTarget s insert = .ok eps) : ∀ e ∈ eps, c.shardMap.firstWorker = some e := by
  unfold insertTarget at needed
  split at needed
  · cases needed
  · rename_i tab hit
    rw [hit, Option.bind_some] at plain
    rw [plain] at needed
    dsimp only at needed
    split at needed
    · cases needed
    · rename_i fst isFirst
      cases needed
      simpa using isFirst

/-- For a table the coordinator does not treat as partitioned: an INSERT and a SELECT, UPDATE or DELETE
    on it, whatever the states in which they come, are sent to the same worker just when the
    table is not placed, or placed on the first worker. -/
theorem insert_meets_statement_iff {insert : InsertStatement} {stmt : ParsedStatement Q}
    {later : RouterState W Q} {sqlLater : String} {identityLater : Identity} {a b : ShardEndpoint}
    (plain : (c.getTable s.world insert.table).bind (·.partition) = none)
    (plainLater : (c.getTable later.world insert.table).bind (·.partition) = none)
    (parsed : c.grammar.parse sql = .ok (.insert insert))
    (parsedLater : c.grammar.parse sqlLater = .ok stmt) (on : OnTable insert.table stmt)
    (sent : c.SentTo identity s sql a) (sentLater : c.SentTo identityLater later sqlLater b) :
    a = b ↔ c.home insert.table = c.shardMap.firstWorker := by
  have first : c.shardMap.firstWorker = some a := by
    obtain ⟨endpoints, needed, member⟩ :=
      @mem_needed_of_sentTo _ _ c s sql identity insert.table _ a parsed (.inr ⟨insert, rfl⟩) sent
    exact firstWorker_of_needed plain needed a member
  have second : c.home insert.table = some b := by
    obtain ⟨endpoints, needed, member⟩ := mem_needed_of_sentTo parsedLater (.inl on) sentLater
    exact home_of_needed plainLater on needed b member
  rw [first, second, Option.some.injEq, eq_comm]

/-! ## Two workers -/

def twoShards : ShardMap where
  workers := [(0, ⟨0, "127.0.0.1", 9001⟩), (1, ⟨1, "127.0.0.1", 9002⟩)]
  placements := [("p0", 0), ("p1", 1)]
  increasing := by decide
  workers_ne_nil := by decide
  placements_ne_nil := by decide
  known := by decide
  labelled := by decide

/-- Statements on tables `t` and `p1`, and a CREATE TABLE. -/
def fewStatements : Grammar Empty where
  parse sql :=
    if sql = "BEGIN" then .ok .begin
    else if sql = "COMMIT" then .ok .commit
    else if sql = "ROLLBACK" then .ok .rollback
    else if sql = "INSERT INTO t VALUES (1)" then .ok (.insert ⟨"t", [], [[.literal (.int 1)]]⟩)
    else if sql = "INSERT INTO p1 VALUES (1)" then .ok (.insert ⟨"p1", [], [[.literal (.int 1)]]⟩)
    else if sql = "DELETE FROM t" then .ok (.delete ⟨"t", none⟩)
    else if sql = "DELETE FROM p1" then .ok (.delete ⟨"p1", none⟩)
    else if sql = "CREATE TABLE u (id INT)" then .ok (.ddl .createTable)
    else .error "Unknown statement"
  parse_begin := rfl
  parse_commit := rfl
  parse_rollback := rfl

/-- Workers that accept everything. -/
def accepting : CoordinatorQueryRouter Unit Empty where
  grammar := fewStatements
  shardMap := twoShards
  getTable := fun _ name => if name = "t" ∨ name = "p1" then some { columns := ["id"] } else none
  ping := fun _ _ => true
  executeRpc := fun world _ _ => (world, .successResult "OK")
  dispatch := fun world session _ => (world, session, .successResult "OK")

/-- An INSERT into `t`, which is not placed, and a DELETE. -/
theorem unplaced_table_met :
    accepting.SentTo {} { world := () } "INSERT INTO t VALUES (1)" ⟨0, "127.0.0.1", 9001⟩ ∧
      accepting.SentTo {} { world := () } "DELETE FROM t" ⟨0, "127.0.0.1", 9001⟩ ∧
      accepting.home "t" = accepting.shardMap.firstWorker := by
  refine ⟨.head _, .head _, ?_⟩
  exact (@insert_meets_statement_iff Unit Empty accepting { world := () } "INSERT INTO t VALUES (1)" {}
    ⟨"t", [], [[.literal (.int 1)]]⟩ (.delete ⟨"t", none⟩) { world := () } "DELETE FROM t" {}
    ⟨0, "127.0.0.1", 9001⟩ _ rfl rfl rfl rfl rfl (.head _) (.head _)).1 rfl

/-- The row for the partition `p1` is inserted at the first worker and deleted at the second. -/
theorem placed_table_missed :
    accepting.SentTo {} { world := () } "INSERT INTO p1 VALUES (1)" ⟨0, "127.0.0.1", 9001⟩ ∧
      accepting.SentTo {} { world := () } "DELETE FROM p1" ⟨1, "127.0.0.1", 9002⟩ :=
  ⟨.head _, .head _⟩

/-! ## Broadcasts -/

/-- What becomes of a statement at a worker. -/
inductive Outcome where
  | success
  | error (message : String)
  | down
  deriving DecidableEq

/-- The nodes of a cluster. -/
inductive Node where
  | worker (endpoint : ShardEndpoint)
  | metadata
  deriving DecidableEq

/-- A coordinator for which the outcomes are given; the world is the nodes that have applied the
    statement. -/
def observed (grammar : Grammar Q) (map : ShardMap) (outcome : ShardEndpoint → Outcome)
    (metadata : Bool) : CoordinatorQueryRouter (List Node) Q where
  grammar := grammar
  shardMap := map
  getTable := fun _ _ => none
  ping := fun _ endpoint => outcome endpoint ≠ .down
  executeRpc := fun applied endpoint _ =>
    match outcome endpoint with
    | .success => (applied ++ [.worker endpoint], .successResult "OK")
    | .error message => (applied, .errorResult message)
    | .down => (applied, .errorResult ("RPC failed: no response from shard " ++ toString endpoint.shardId))
  dispatch := fun applied session _ =>
    if metadata then (applied ++ [.metadata], session, .successResult "OK")
    else (applied, session, .errorResult "")

variable {grammar : Grammar Q} {map : ShardMap} {outcome : ShardEndpoint → Outcome} {metadata : Bool}

/-- The workers apply the statement one after another, up to the first that does not. -/
theorem broadcast_observed (sql : String) (eps : List ShardEndpoint) (s : RouterState (List Node) Q) :
    ((observed grammar map outcome metadata).broadcast sql eps s).1.world =
        s.world ++ (eps.takeWhile (outcome · = .success)).map .worker ∧
      (((observed grammar map outcome metadata).broadcast sql eps s).2 = none ↔
        ∀ e ∈ eps, outcome e = .success) := by
  induction eps generalizing s with
  | nil => simp [broadcast]
  | cons ep eps ih =>
    have rest := ih ((observed grammar map outcome metadata).rpc ep sql s).1
    simp only [broadcast]
    cases answer : outcome ep with
    | success =>
      have acc : ((observed grammar map outcome metadata).rpc ep sql s).2.success = true := by
        simp [rpc, observed, answer, QueryResult.successResult]
      have applied : ((observed grammar map outcome metadata).rpc ep sql s).1.world =
          s.world ++ [.worker ep] := by simp [rpc, observed, answer]
      rw [applied] at rest
      simpa [acc, answer, List.takeWhile_cons] using rest
    | error message | down => simp [rpc, observed, answer, QueryResult.errorResult]

/-- A DDL statement is applied by all nodes or by none just when it comes in a transaction, or a
    worker is down before, or the first worker refuses, or all nodes accept. -/
theorem broadcast_all_or_none_iff {kind : DdlKind} (parsed : grammar.parse sql = .ok (.ddl kind))
    (permitted : identity.role ≠ some .reader) (session : SessionContext Q) :
    let nodes := ((observed grammar map outcome metadata).executeQuery identity
      { world := [], session } sql).1.world
    (nodes = [] ∨ .metadata ∈ nodes ∧ ∀ e ∈ map.listWorkers, .worker e ∈ nodes) ↔
      session.inTransaction = true ∨ (∃ e ∈ map.listWorkers, outcome e = .down) ∨
        (∃ first, map.firstWorker = some first ∧ outcome first ≠ .success) ∨
        (∀ e ∈ map.listWorkers, outcome e = .success) ∧ metadata = true := by
  intro nodes
  have routed : nodes = ((observed grammar map outcome metadata).handleBroadcast identity sql
      { world := [], session }).1.world := by
    have isDdl : (observed grammar map outcome metadata).grammar.parse sql = .ok (.ddl kind) := parsed
    simp only [nodes, executeQuery, isDdl]
    rfl
  clear_value nodes
  obtain ⟨first, others, workers⟩ : ∃ first others, map.listWorkers = first :: others :=
    List.exists_cons_of_ne_nil (by simpa [listWorkers] using map.workers_ne_nil)
  have isFirst : map.firstWorker = some first := by rw [firstWorker, workers]; rfl
  obtain ⟨applied, everywhere⟩ := @broadcast_observed Q grammar map outcome metadata sql
    map.listWorkers { world := [], session }
  have sameMap : (observed grammar map outcome metadata).shardMap = map := rfl
  unfold handleBroadcast at routed
  cases inTransaction : session.inTransaction with
  | true => simp [routed, inTransaction]
  | false =>
    simp only [inTransaction, Bool.false_eq_true, if_false, false_or, sameMap] at routed ⊢
    split at routed
    · rename_i unhealthy
      obtain ⟨down, found, -⟩ := Option.map_eq_some_iff.1 unhealthy
      have isDown : outcome down = .down := by simpa [observed] using List.find?_some found
      simpa [routed] using .inl ⟨down, List.mem_of_find?_eq_some found, isDown⟩
    · rename_i healthy
      have noneDown : ¬ ∃ e ∈ map.listWorkers, outcome e = .down := by
        simpa [healthError, observed] using healthy
      rw [isFirst]
      simp only [noneDown, false_or, Option.some.injEq, exists_eq_left']
      split at routed
      · rename_i state failed result
        rw [result] at applied everywhere
        have notAll : ¬ ∀ e ∈ map.listWorkers, outcome e = .success := by simpa using everywhere
        rw [routed, applied, workers]
        rw [workers] at notAll
        simp only [notAll, false_and, or_false, List.nil_append]
        by_cases accepts : outcome first = .success <;> simp [accepts]
      · rename_i state result
        rw [result] at applied everywhere
        have all : ∀ e ∈ map.listWorkers, outcome e = .success := everywhere.1 rfl
        have every : map.listWorkers.takeWhile (outcome · = .success) = map.listWorkers :=
          List.takeWhile_eq_self_iff.2 (by simpa using all)
        have stored : state.world = map.listWorkers.map .worker := by rw [applied, every]; rfl
        have asked : nodes = state.world ++ if metadata then [.metadata] else [] := by
          have isDdl : (observed grammar map outcome metadata).grammar.parse sql = .ok (.ddl kind) :=
            parsed
          have allowed : ¬ (identity.authenticated &&
              identity.role.any (fun role => !isStatementAuthorized role (.ddl kind) state.session)) =
                true := by
            rcases isRole : identity.role with _ | ⟨_ | _⟩
            · simp
            · simp [isStatementAuthorized, ParsedStatement.canExecute]
            · exact absurd isRole permitted
          rw [routed]
          simp only [queryMetadata, isDdl, allowed]
          cases metadata <;> simp [observed]
        rw [asked, stored]
        rw [workers] at all ⊢
        obtain ⟨accepts, rest⟩ := List.forall_mem_cons.1 all
        cases metadata with
        | false => simp [accepts]
        | true => simpa [accepts] using rest

/-- All nodes accept a CREATE TABLE. -/
theorem broadcast_accepted :
    let nodes := ((observed fewStatements twoShards (fun _ => .success) true).executeQuery {}
      { world := [] } "CREATE TABLE u (id INT)").1.world
    nodes = [] ∨ .metadata ∈ nodes ∧ ∀ e ∈ twoShards.listWorkers, .worker e ∈ nodes :=
  (@broadcast_all_or_none_iff Empty "CREATE TABLE u (id INT)" {} fewStatements twoShards
    (fun _ => .success) true .createTable rfl nofun {}).2 (.inr (.inr (.inr ⟨fun _ _ => rfl, rfl⟩)))

/-- The second worker refuses what the first has applied. -/
theorem broadcast_half_applied :
    ((observed fewStatements twoShards
      (fun e => if e.shardId = 0 then .success else .error "Table 'u' already exists") true).executeQuery {}
      { world := [] } "CREATE TABLE u (id INT)").1.world = [.worker ⟨0, "127.0.0.1", 9001⟩] :=
  rfl

end CoordinatorQueryRouter

end NobugDb
