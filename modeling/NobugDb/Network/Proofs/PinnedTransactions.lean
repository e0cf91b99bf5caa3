import NobugDb.Network.Proofs.Routing

/-!
# What a coordinator transaction sends

Between BEGIN and COMMIT or ROLLBACK the coordinator talks to one shard only, whatever the workers
answer: the first statement with a single target pins it, and BEGIN is repeated until the worker has
accepted it.
-/

namespace NobugDb

open Misc (run run_inv_of_mem)

/-- A call of `IRpcClient::executeQuery`, and whether it was answered with success. -/
structure RpcCall where
  endpoint : ShardEndpoint
  sql : String
  success : Bool

namespace CoordinatorQueryRouter

variable {W Q : Type}

/-- The coordinator over workers that keep a list of the calls made to them. -/
def traced (c : CoordinatorQueryRouter W Q) : CoordinatorQueryRouter (W × List RpcCall) Q where
  grammar := c.grammar
  shardMap := c.shardMap
  getTable := fun world => c.getTable world.1
  ping := fun world => c.ping world.1
  executeRpc := fun world endpoint sql =>
    let (after, result) := c.executeRpc world.1 endpoint sql
    ((after, world.2 ++ [⟨endpoint, sql, result.success⟩]), result)
  dispatch := fun world session sql =>
    let (after, result) := c.dispatch world.1 session sql
    ((after, world.2), result)

/-- A statement, before which the workers may have changed by themselves. -/
def serveAfter (c : CoordinatorQueryRouter W Q) (identity : Identity)
    (s : RouterState (W × List RpcCall) Q) (statement : W × String) :
    RouterState (W × List RpcCall) Q :=
  c.traced.serve identity { s with world := (statement.1, s.world.2) } statement.2

/-- A worker of another shard than this one, or of another one than the pinned. -/
def NeedsOther (s : RouterState W Q) (endpoints : List ShardEndpoint) : Prop :=
  (∃ a ∈ endpoints, ∃ b ∈ endpoints, a.shardId ≠ b.shardId) ∨
    ∃ pinned, s.session.pinnedShardId = some pinned ∧ ∃ a ∈ endpoints, a.shardId ≠ pinned

/-- A statement that needs another shard is answered with an error, and nothing is sent. -/
def RefusesOther (c : CoordinatorQueryRouter W Q) (identity : Identity)
    (s : RouterState (W × List RpcCall) Q) (statement : W × String) : Prop :=
  let s := { s with world := (statement.1, s.world.2) }
  ∀ stmt endpoints, c.grammar.parse statement.2 = .ok stmt →
    c.traced.neededShards s stmt = .ok endpoints → NeedsOther s endpoints →
      (c.traced.executeQuery identity s statement.2).2.success = false ∧
        (c.traced.executeQuery identity s statement.2).1.world.2 = s.world.2

/-- The calls of a transaction: all of them to one shard, first BEGIN without success, then BEGIN
    with success once, then the statements. -/
structure OneShard (statements : List String) (calls : List RpcCall) : Prop where
  shard : ∃ shardId, ∀ call ∈ calls, call.endpoint.shardId = shardId
  order : ∃ refused rest, calls = refused ++ rest ∧
    (∀ call ∈ refused, call.sql = "BEGIN" ∧ call.success = false) ∧
    (rest = [] ∨ ∃ first forwarded, rest = first :: forwarded ∧ first.sql = "BEGIN" ∧
      first.success = true ∧ ∀ call ∈ forwarded, call.sql ≠ "BEGIN" ∧ call.sql ∈ statements)

/-! ## Statements -/

variable {c : CoordinatorQueryRouter W Q} {identity : Identity}

/-- A statement within a transaction is refused, or it needs one shard, that of the transaction so
    far, and is forwarded there. -/
theorem route_inTx {s : RouterState W Q} {sql : String} {stmt : ParsedStatement Q}
    (inTxn : s.session.inTransaction = true) (goesOn : stmt ≠ .commit ∧ stmt ≠ .rollback) :
    c.Forwarded s sql (c.neededShards s stmt) (c.route identity stmt sql s) := by
  have single (kind : String) (tgt : Except String (List ShardEndpoint)) :
      c.Forwarded s sql tgt (c.proxyTo (singleShard kind tgt) sql false s) := by
    rcases c.proxyTo_inTx (singleShard kind tgt) sql false inTxn with
      refused | ⟨front, isSingle, sent⟩
    · exact .inl refused
    · exact .inr ⟨front, (singleShard_eq_ok isSingle).1, sent⟩
  have selected (select : SelectStatement Q) :
      c.Forwarded s sql (c.selectShards s select) (c.handleSelect select sql s) := by
    unfold handleSelect selectShards
    split
    · exact c.proxyTo_inTx _ sql true inTxn
    · exact c.proxyTo_inTx _ sql false inTxn
  have broadcast (tgt : Except String (List ShardEndpoint)) :
      c.Forwarded s sql tgt (c.handleBroadcast identity sql s) := .inl ⟨_, if_pos inTxn⟩
  cases stmt with
  | select select => exact selected select
  | insert insert => exact c.proxyTo_inTx _ sql false inTxn
  | update update => exact single "UPDATE" _
  | delete delete => exact single "DELETE" _
  | call name arguments => exact c.proxyToAll_inTx _ sql false inTxn
  | ddl kind => exact broadcast _
  | explain inner =>
    cases inner with
    | select select => exact selected select
    | _ => exact broadcast _
  | begin => exact .inl ⟨_, if_pos inTxn⟩
  | commit => exact absurd rfl goesOn.1
  | rollback => exact absurd rfl goesOn.2
  | _ => exact .inl ⟨_, rfl⟩

/-! ## Runs -/

variable {statements : List String} {s : RouterState (W × List RpcCall) Q} {sql : String}

/-- The state of a transaction: the pin and the flag say what has been called so far. -/
structure Pinned (statements : List String) (s : RouterState (W × List RpcCall) Q) : Prop where
  inTransaction : s.session.inTransaction = true
  shard : ∀ call ∈ s.world.2, s.session.pinnedShardId = some call.endpoint.shardId
  waiting : s.session.remoteTransactionStarted = false →
    ∀ call ∈ s.world.2, call.sql = "BEGIN" ∧ call.success = false
  started : s.session.remoteTransactionStarted = true → ∃ refused first forwarded,
    s.world.2 = refused ++ first :: forwarded ∧
    (∀ call ∈ refused, call.sql = "BEGIN" ∧ call.success = false) ∧ first.sql = "BEGIN" ∧
    first.success = true ∧ ∀ call ∈ forwarded, call.sql ≠ "BEGIN" ∧ call.sql ∈ statements

theorem Pinned.oneShard (pinned : Pinned statements s) : OneShard statements s.world.2 := by
  refine ⟨⟨s.session.pinnedShardId.getD 0, fun call mem => ?_⟩, ?_⟩
  · rw [pinned.shard call mem]
    rfl
  · cases flag : s.session.remoteTransactionStarted with
    | false => exact ⟨s.world.2, [], by simp, pinned.waiting flag, .inl rfl⟩
    | true =>
      obtain ⟨refused, fst, forwarded, calls, fail, rest⟩ := pinned.started flag
      exact ⟨refused, _, calls, fail, .inr ⟨fst, forwarded, rfl, rest⟩⟩

theorem rpc_traced (ep : ShardEndpoint) (sql : String) (s : RouterState (W × List RpcCall) Q) :
    (c.traced.rpc ep sql s).1.world.2 =
      s.world.2 ++ [⟨ep, sql, (c.traced.rpc ep sql s).2.success⟩] := rfl

section

variable (pinned : Pinned statements s)
include pinned

/-- A statement that is forwarded adds its own call, after that of BEGIN when no BEGIN has been
    accepted yet. -/
theorem Pinned.forward {front : ShardEndpoint}
    (pins : ∀ pin, s.session.pinnedShardId = some pin → pin = front.shardId)
    (notBegin : sql ≠ "BEGIN") (listed : sql ∈ statements) :
    Pinned statements (c.traced.forwardWithTransaction front sql
      { s with session := { s.session with pinnedShardId := some front.shardId } }).1 := by
  have eq : ∀ call ∈ s.world.2, some front.shardId = some call.endpoint.shardId :=
    fun call mem => congrArg some (pins _ (pinned.shard call mem)).symm
  unfold forwardWithTransaction
  cases flag : s.session.remoteTransactionStarted with
  | true =>
    obtain ⟨refused, fst, forwarded, calls, fail, isBegin, success, rest⟩ := pinned.started flag
    refine ⟨pinned.inTransaction, ?_, fun notStarted => ?_, fun _ => ?_⟩
    · rw [if_pos rfl, rpc_traced]
      exact List.forall_mem_append.2 ⟨eq, by simp [rpc]⟩
    · cases flag.symm.trans notStarted
    · rw [if_pos rfl, rpc_traced, calls, List.append_assoc, List.cons_append]
      refine ⟨refused, fst, _, rfl, fail, isBegin, success, ?_⟩
      exact List.forall_mem_append.2 ⟨rest, by simp [notBegin, listed]⟩
  | false =>
    have fail := pinned.waiting flag
    dsimp only
    rw [if_neg Bool.false_ne_true]
    split
    · rename_i refused
      refine ⟨pinned.inTransaction, ?_, fun _ => ?_, fun isStarted => ?_⟩
      · rw [rpc_traced]
        exact List.forall_mem_append.2 ⟨eq, by simp [rpc]⟩
      · rw [rpc_traced]
        exact List.forall_mem_append.2 ⟨fail, by simpa using refused⟩
      · cases flag.symm.trans isStarted
    · rename_i acc
      refine ⟨pinned.inTransaction, ?_, by simp [rpc], fun _ => ?_⟩
      · rw [rpc_traced, rpc_traced]
        refine List.forall_mem_append.2 ⟨List.forall_mem_append.2 ⟨eq, ?_⟩, ?_⟩ <;> simp [rpc]
      · rw [rpc_traced, rpc_traced, List.append_assoc, List.singleton_append]
        exact ⟨s.world.2, _, _, rfl, fail, rfl, by simpa using acc, by simp [notBegin, listed]⟩

theorem Pinned.serve (listed : sql ∈ statements)
    (goesOn : c.grammar.parse sql ≠ .ok .commit ∧ c.grammar.parse sql ≠ .ok .rollback) :
    Pinned statements (c.traced.serve identity s sql) := by
  unfold CoordinatorQueryRouter.serve executeQuery
  cases parsed : c.traced.grammar.parse sql with
  | error e => exact pinned
  | ok stmt =>
    have ends : stmt ≠ .commit ∧ stmt ≠ .rollback :=
      ⟨fun eq => goesOn.1 (eq ▸ parsed), fun eq => goesOn.2 (eq ▸ parsed)⟩
    rcases @route_inTx _ _ c.traced identity s sql stmt pinned.inTransaction ends with
      ⟨e, refused⟩ | ⟨front, needed, pins, sent⟩
    · simpa only [refused] using pinned
    · have notBegin : sql ≠ "BEGIN" := by
        rintro rfl
        cases parsed.symm.trans c.grammar.parse_begin
        cases needed
      simpa only [sent] using pinned.forward pins notBegin listed

theorem Pinned.refusesOther (next : W × String) : c.RefusesOther identity s next := by
  intro stmt eps parsed needed ne
  have ends : stmt ≠ .commit ∧ stmt ≠ .rollback := by
    constructor <;> rintro rfl <;> cases needed <;> simp [NeedsOther] at ne
  have parsed : c.traced.grammar.parse next.2 = .ok stmt := parsed
  simp only [executeQuery, parsed]
  rcases @route_inTx _ _ c.traced identity { s with world := (next.1, s.world.2) } next.2 stmt
    pinned.inTransaction ends with ⟨e, refused⟩ | ⟨front, single, pins, -⟩
  · rw [refused]
    exact ⟨rfl, rfl⟩
  · cases needed.symm.trans single
    rcases ne with ⟨a, isA, b, isB, differ⟩ | ⟨pin, isPin, a, isA, differ⟩
    · simp_all
    · have := pins pin isPin
      simp_all

end

/-- Up to any point of a coordinator transaction, whatever the workers have answered and whatever
    has happened to them in between: all calls went to one shard, one BEGIN was accepted before
    the first statement, and a next statement that needs another shard is answered with an error
    and sent nowhere. -/
theorem transaction_calls_one_shard (c : CoordinatorQueryRouter W Q) (identity : Identity) (world : W)
    {session : SessionContext Q} (outside : session.inTransaction = false) {start : String}
    (begins : c.grammar.parse start = .ok .begin) {between : List (W × String)}
    (goesOn : ∀ statement ∈ between,
      c.grammar.parse statement.2 ≠ .ok .commit ∧ c.grammar.parse statement.2 ≠ .ok .rollback) :
    let s := run (c.serveAfter identity)
      (c.traced.serve identity { world := (world, []), session } start) between
    OneShard (between.map Prod.snd) s.world.2 ∧ ∀ next, c.RefusesOther identity s next := by
  intro s
  have pinned : Pinned (between.map Prod.snd) s := by
    apply run_inv_of_mem
    · intro s statement member pinned
      have moved : Pinned (between.map Prod.snd) { s with world := (statement.1, s.world.2) } :=
        { pinned with }
      exact moved.serve (List.mem_map_of_mem member) (goesOn statement member)
    · have begins : c.traced.grammar.parse start = .ok .begin := begins
      simp only [CoordinatorQueryRouter.serve, executeQuery, begins, route, handleBegin, outside]
      exact ⟨rfl, by simp, by simp, by simp [SessionContext.setInTransaction]⟩
  exact ⟨pinned.oneShard, pinned.refusesOther⟩

/-- A transaction that inserts into `t` on the first shard, and then would delete from `p1` on the
    second. -/
theorem transaction_calls_first_shard :
    OneShard ["INSERT INTO t VALUES (1)"] [⟨⟨0, "127.0.0.1", 9001⟩, "BEGIN", true⟩,
        ⟨⟨0, "127.0.0.1", 9001⟩, "INSERT INTO t VALUES (1)", true⟩] ∧
      accepting.RefusesOther {}
        { world := ((), [⟨⟨0, "127.0.0.1", 9001⟩, "BEGIN", true⟩,
            ⟨⟨0, "127.0.0.1", 9001⟩, "INSERT INTO t VALUES (1)", true⟩])
          session := ⟨[], true, some 0, true⟩
          log := [.sent ⟨0, "127.0.0.1", 9001⟩ "BEGIN",
            .sent ⟨0, "127.0.0.1", 9001⟩ "INSERT INTO t VALUES (1)"] } ((), "DELETE FROM p1") :=
  have all := @transaction_calls_one_shard Unit Empty accepting {} () {} rfl "BEGIN" rfl
    [((), "INSERT INTO t VALUES (1)")] (by simp [accepting, fewStatements])
  ⟨all.1, all.2 ((), "DELETE FROM p1")⟩

end CoordinatorQueryRouter

end NobugDb
