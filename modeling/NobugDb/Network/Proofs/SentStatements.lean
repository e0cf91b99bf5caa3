import NobugDb.Network.CoordinatorQueryRouter

/-!
# What leaves the coordinator

When the text of a statement is sent to a worker, and what a run of statements leaves behind in
the log of the coordinator.
-/

namespace NobugDb

open Misc (run run_iff_meets run_inv Meets)

namespace CoordinatorQueryRouter

variable {W Q : Type}

/-! ## When a statement is sent -/

/-- A transaction of the coordinator goes on at this worker. -/
def Continues (c : CoordinatorQueryRouter W Q) (s : RouterState W Q) (endpoint : ShardEndpoint) :
    Prop :=
  (∀ pinned, s.session.pinnedShardId = some pinned → pinned = endpoint.shardId) ∧
    (s.session.remoteTransactionStarted = true ∨
      (c.executeRpc s.world endpoint "BEGIN").2.success = true)

/-- A statement for these workers is sent: they are one, or a scatter outside a transaction, they
    answer, and the transaction, if there is one, goes on there. -/
def Sends (c : CoordinatorQueryRouter W Q) (s : RouterState W Q) (endpoints : List ShardEndpoint)
    (allowScatter : Bool) : Prop :=
  ∃ front others, endpoints = front :: others ∧
    (others = [] ∨ allowScatter = true ∧ s.session.inTransaction = false) ∧
    c.healthError s endpoints = none ∧
    (s.session.inTransaction = true → c.Continues s front)

/-- A statement with a target is sent. -/
def SendsTo (c : CoordinatorQueryRouter W Q) (s : RouterState W Q)
    (target : Except String (List ShardEndpoint)) (allowScatter : Bool) : Prop :=
  ∃ endpoints, target = .ok endpoints ∧ c.Sends s endpoints allowScatter

/-- A statement for every worker is sent. -/
def Broadcasts (c : CoordinatorQueryRouter W Q) (s : RouterState W Q) : Prop :=
  s.session.inTransaction = false ∧ c.healthError s c.shardMap.listWorkers = none

/-- The text of a SELECT is sent to a worker. -/
def SendsSelect (c : CoordinatorQueryRouter W Q) (s : RouterState W Q) (stmt : SelectStatement Q) :
    Prop :=
  if stmt.joins.isEmpty then
    c.SendsTo s (c.resolveTableShards s stmt.fromTable stmt.whereCondition) true
  else c.SendsTo s (c.joinTarget s stmt) false

/-- The text of a statement is sent to a worker. -/
def Reaches (c : CoordinatorQueryRouter W Q) (s : RouterState W Q) : ParsedStatement Q → Prop
  | .select stmt | .explain (.select stmt) => c.SendsSelect s stmt
  | .insert stmt => c.SendsTo s (c.insertTarget s stmt) false
  | .update stmt => c.SendsTo s (c.resolveTableShards s stmt.table stmt.whereCondition) false
  | .delete stmt => c.SendsTo s (c.resolveTableShards s stmt.table stmt.whereCondition) false
  | .ddl _ | .explain _ => c.Broadcasts s
  | .call _ _ => c.Sends s c.shardMap.listWorkers false
  | _ => False

end CoordinatorQueryRouter

/-! ## The log -/

/-- Only such texts have been sent, and only such have been applied. -/
def RouterState.Only {W Q : Type} (sentOk appliedOk : String → Prop) (s : RouterState W Q) : Prop :=
  ∀ e ∈ s.log, match e with
    | .sent _ sql => sentOk sql
    | .applied sql => appliedOk sql

namespace CoordinatorQueryRouter

variable {sql : String} {stmt : ParsedStatement Q}

section Log

variable {W Q : Type} {sentOk appliedOk : String → Prop}

variable {identity : Identity} (shardId : Int) (c : CoordinatorQueryRouter W Q) (s : RouterState W Q)

theorem only_append_iff (world : W) (sess : SessionContext Q) (e : Event) :
    RouterState.Only sentOk appliedOk ⟨world, sess, s.log ++ [e]⟩ ↔
      s.Only sentOk appliedOk ∧ match e with
        | .sent _ sql => sentOk sql
        | .applied sql => appliedOk sql := by
  simp only [RouterState.Only, List.mem_append, List.mem_singleton, or_imp, forall_and, forall_eq]

theorem only_setSession_iff (session : SessionContext Q) :
    RouterState.Only sentOk appliedOk { s with session } ↔ s.Only sentOk appliedOk := Iff.rfl

theorem only_rpc_iff (ep : ShardEndpoint) (sql : String) (s : RouterState W Q) :
    (c.rpc ep sql s).1.Only sentOk appliedOk ↔ s.Only sentOk appliedOk ∧ sentOk sql :=
  only_append_iff s _ _ _

theorem only_rpcEach_iff (sql : String) (eps : List ShardEndpoint) (s : RouterState W Q) :
    (c.rpcEach sql eps s).1.Only sentOk appliedOk ↔
      s.Only sentOk appliedOk ∧ (eps ≠ [] → sentOk sql) := by
  induction eps generalizing s with
  | nil => simp [rpcEach]
  | cons ep eps ih =>
    show (c.rpcEach sql eps (c.rpc ep sql s).1).1.Only sentOk appliedOk ↔ _
    rw [ih, only_rpc_iff]
    tauto

theorem only_broadcast_iff (sql : String) (eps : List ShardEndpoint) (s : RouterState W Q) :
    (c.broadcast sql eps s).1.Only sentOk appliedOk ↔
      s.Only sentOk appliedOk ∧ (eps ≠ [] → sentOk sql) := by
  induction eps generalizing s with
  | nil => simp [broadcast]
  | cons ep eps ih =>
    have sent : (c.rpc ep sql s).1.Only sentOk appliedOk ↔ _ := only_rpc_iff c ep sql s
    simp only [broadcast]
    split
    · rw [sent]
      tauto
    · rw [ih, sent]
      tauto

theorem only_ensurePinned_iff :
    (ensurePinned shardId s).1.Only sentOk appliedOk ↔ s.Only sentOk appliedOk := by
  unfold ensurePinned
  split
  · rfl
  · split <;> rfl

theorem only_forward_iff (begin_ok : sentOk "BEGIN") (c : CoordinatorQueryRouter W Q)
    (ep : ShardEndpoint) (sql : String) (s : RouterState W Q) :
    (c.forwardWithTransaction ep sql s).1.Only sentOk appliedOk ↔
      s.Only sentOk appliedOk ∧ (s.session.remoteTransactionStarted = true ∨
        (c.executeRpc s.world ep "BEGIN").2.success = true → sentOk sql) := by
  have begun : (c.rpc ep "BEGIN" s).1.Only sentOk appliedOk ↔ s.Only sentOk appliedOk := by
    rw [only_rpc_iff, and_iff_left begin_ok]
  have answer : (c.rpc ep "BEGIN" s).2 = (c.executeRpc s.world ep "BEGIN").2 := rfl
  unfold forwardWithTransaction
  split
  · rename_i started
    rw [only_rpc_iff]
    simp [started]
  · rename_i notStarted
    simp only [answer]
    split
    · rename_i failed
      rw [begun]
      simp_all
    · rename_i succeeded
      rw [only_rpc_iff, only_setSession_iff, begun]
      simp_all

theorem ensurePinned_success_iff :
    (ensurePinned shardId s).2.success = true ↔
      ∀ pinned, s.session.pinnedShardId = some pinned → pinned = shardId := by
  unfold ensurePinned
  split
  · simp_all [QueryResult.successResult]
  · split <;> simp_all [QueryResult.successResult, QueryResult.errorResult]

theorem ensurePinned_world :
    (ensurePinned shardId s).1.world = s.world ∧
      (ensurePinned shardId s).1.session.remoteTransactionStarted =
        s.session.remoteTransactionStarted := by
  unfold ensurePinned
  split
  · exact ⟨rfl, rfl⟩
  · split <;> exact ⟨rfl, rfl⟩

theorem only_proxyToAll_iff (begin_ok : sentOk "BEGIN") (c : CoordinatorQueryRouter W Q)
    (eps : List ShardEndpoint) (sql : String) (allowScatter : Bool) (s : RouterState W Q) :
    (c.proxyToEndpoints eps sql allowScatter s).1.Only sentOk appliedOk ↔
      s.Only sentOk appliedOk ∧ (c.Sends s eps allowScatter → sentOk sql) := by
  cases eps with
  | nil => simp [proxyToEndpoints, Sends]
  | cons front others =>
    have sends : c.Sends s (front :: others) allowScatter ↔
        (others = [] ∨ allowScatter = true ∧ s.session.inTransaction = false) ∧
          c.healthError s (front :: others) = none ∧
          (s.session.inTransaction = true → c.Continues s front) := by
      constructor
      · rintro ⟨_, _, eq, sent⟩
        cases eq
        exact sent
      · exact fun sent => ⟨front, others, rfl, sent⟩
    rw [sends]
    simp only [proxyToEndpoints]
    split
    · rename_i scattered
      have : ¬ others = [] ∧ allowScatter = false := by simpa [and_comm] using scattered
      simp [this]
    · split
      · rename_i multi
        have : s.session.inTransaction = true ∧ ¬ others = [] := by simpa using multi
        simp [this]
      · split
        · rename_i unhealthy
          simp [unhealthy]
        · rename_i single alone _ healthy
          have allowed : others = [] ∨ allowScatter = true ∧ s.session.inTransaction = false := by
            by_cases none : others = []
            · exact .inl none
            · exact .inr ⟨by simpa [none] using single, by simpa [none] using alone⟩
          rw [and_iff_right allowed, and_iff_right healthy]
          split
          · rename_i inTxn
            have pinned : (ensurePinned front.shardId s).1.Only sentOk appliedOk ↔ _ :=
              only_ensurePinned_iff front.shardId s
            have answer := ensurePinned_success_iff front.shardId s
            obtain ⟨sameWorld, sameStart⟩ := ensurePinned_world front.shardId s
            split
            · rename_i refused
              have : ¬ c.Continues s front := fun continues => by
                simp [answer.mpr continues.1] at refused
              rw [pinned]
              simp [inTxn, this]
            · rename_i acc
              have accepts := answer.mp (by simpa using acc)
              rw [only_forward_iff begin_ok, pinned, sameWorld, sameStart]
              simp only [inTxn, Continues, forall_const, and_iff_right accepts]
          · rename_i notInTransaction
            split
            · rw [only_rpc_iff]
              simp [notInTransaction]
            · rw [only_rpcEach_iff]
              simp [notInTransaction]

theorem only_proxyTo_iff (begin_ok : sentOk "BEGIN") (c : CoordinatorQueryRouter W Q)
    (tgt : Except String (List ShardEndpoint)) (sql : String) (allowScatter : Bool)
    (s : RouterState W Q) :
    (c.proxyTo tgt sql allowScatter s).1.Only sentOk appliedOk ↔
      s.Only sentOk appliedOk ∧ (c.SendsTo s tgt allowScatter → sentOk sql) := by
  unfold proxyTo SendsTo
  cases tgt with
  | error e => simp
  | ok eps => simp [only_proxyToAll_iff begin_ok]

theorem sendsTo_singleShard_iff (kind : String) (tgt : Except String (List ShardEndpoint)) :
    c.SendsTo s (singleShard kind tgt) false ↔ c.SendsTo s tgt false := by
  unfold SendsTo singleShard
  cases tgt with
  | error e => simp [bind, Except.bind]
  | ok eps =>
    by_cases single : eps.length = 1
    · simp [bind, Except.bind, single, pure, Except.pure]
    · have : ¬ c.Sends s eps false := by
        rintro ⟨front, others, rfl, none | scatter, -⟩
        · exact single (by simp [none])
        · cases scatter.1
      simp [bind, Except.bind, single, this]

theorem only_handleSelect_iff (begin_ok : sentOk "BEGIN") (c : CoordinatorQueryRouter W Q)
    (stmt : SelectStatement Q) (sql : String) (s : RouterState W Q) :
    (c.handleSelect stmt sql s).1.Only sentOk appliedOk ↔
      s.Only sentOk appliedOk ∧ (c.SendsSelect s stmt → sentOk sql) := by
  unfold handleSelect SendsSelect
  split <;> exact only_proxyTo_iff begin_ok c _ sql _ s

theorem only_endTxn_iff {text : String} (text_ok : sentOk text) (s : RouterState W Q) :
    (c.endTransaction text s).1.Only sentOk appliedOk ↔ s.Only sentOk appliedOk := by
  unfold endTransaction
  split
  · rfl
  · split
    · rfl
    · split
      · rfl
      · exact (only_rpc_iff c _ text s).trans (and_iff_left text_ok)

/-! ## The metadata database -/

/-- `execute_query` goes on to run a statement for this identity. -/
def Permitted (identity : Identity) (stmt : ParsedStatement Q) : Prop :=
  identity.authenticated = true → ∀ role, identity.role = some role → stmt.canExecute role = true

/-- A statement other than EXECUTE is dispatched only for an identity that may execute it. -/
theorem only_queryMetadata_iff {c : CoordinatorQueryRouter W Q} {sql : String}
    {stmt : ParsedStatement Q} (parsed : c.grammar.parse sql = .ok stmt)
    (direct : ∀ name, stmt ≠ .execute name) (applies : Permitted identity stmt → appliedOk sql)
    (s : RouterState W Q) :
    (c.queryMetadata identity sql s).1.Only sentOk appliedOk ↔ s.Only sentOk appliedOk := by
  have checked : ∀ role, isStatementAuthorized role stmt s.session = stmt.canExecute role := by
    intro role
    unfold isStatementAuthorized
    split
    · exact absurd rfl (direct _)
    · rfl
  unfold queryMetadata
  rw [parsed]
  dsimp only
  split
  · rfl
  · rename_i allowed
    refine (only_append_iff s _ _ _).trans (and_iff_left (applies ?_))
    intro authenticated role isRole
    simpa [authenticated, isRole, checked] using allowed

theorem only_of_only_queryMetadata {c : CoordinatorQueryRouter W Q} {s : RouterState W Q}
    (only : (c.queryMetadata identity sql s).1.Only sentOk appliedOk) : s.Only sentOk appliedOk := by
  unfold queryMetadata at only
  split at only
  · exact only
  · split at only
    · exact only
    · exact ((only_append_iff s _ _ _).mp only).1

theorem only_handleBroadcast_iff {c : CoordinatorQueryRouter W Q} {sql : String}
    {stmt : ParsedStatement Q} (parsed : c.grammar.parse sql = .ok stmt)
    (direct : ∀ name, stmt ≠ .execute name)
    (applies : Permitted identity stmt → sentOk sql → appliedOk sql) (s : RouterState W Q) :
    (c.handleBroadcast identity sql s).1.Only sentOk appliedOk ↔
      s.Only sentOk appliedOk ∧ (c.Broadcasts s → sentOk sql) := by
  have someWorker : c.shardMap.listWorkers ≠ [] := by
    simpa [ShardMap.listWorkers] using c.shardMap.workers_ne_nil
  unfold handleBroadcast Broadcasts
  split
  · rename_i inTxn
    simp [inTxn]
  · rename_i outside
    split
    · rename_i unhealthy
      simp [unhealthy]
    · rename_i healthy
      have sent : (c.broadcast sql c.shardMap.listWorkers s).1.Only sentOk appliedOk ↔ _ :=
        only_broadcast_iff c sql c.shardMap.listWorkers s
      rw [imp_iff_right someWorker] at sent
      rw [imp_iff_right ⟨by simpa using outside, healthy⟩]
      split
      · rename_i isResult
        rwa [isResult] at sent
      · rename_i isResult
        rw [isResult] at sent
        constructor
        · exact fun only => sent.mp (only_of_only_queryMetadata only)
        · intro ok
          rw [only_queryMetadata_iff parsed direct (fun permitted => applies permitted ok.2)]
          exact sent.mpr ok

/-! ## Statements and runs -/

/-- What a statement adds to the log: its text when it is sent, and the coordinator's own texts. -/
theorem only_query_iff {c : CoordinatorQueryRouter W Q}
    (own : sentOk "BEGIN" ∧ sentOk "COMMIT" ∧ sentOk "ROLLBACK")
    (applies : ∀ sql stmt, c.grammar.parse sql = .ok stmt → Permitted identity stmt → sentOk sql →
      appliedOk sql) (s : RouterState W Q) (sql : String) :
    (c.executeQuery identity s sql).1.Only sentOk appliedOk ↔ s.Only sentOk appliedOk ∧
      ∀ stmt, c.grammar.parse sql = .ok stmt → c.Reaches s stmt → sentOk sql := by
  obtain ⟨begin_ok, commit_ok, rollback_ok⟩ := own
  unfold executeQuery
  cases parsed : c.grammar.parse sql with
  | error e => simp
  | ok stmt =>
    simp only [Except.ok.injEq, forall_eq']
    have all (direct : ∀ name, stmt ≠ .execute name) :=
      only_handleBroadcast_iff parsed direct (applies sql stmt parsed) s
    cases stmt with
    | select stmt => exact only_handleSelect_iff begin_ok c stmt sql s
    | insert stmt => exact only_proxyTo_iff begin_ok c _ sql false s
    | update stmt | delete stmt =>
      refine (only_proxyTo_iff begin_ok c _ sql false s).trans ?_
      rw [sendsTo_singleShard_iff]
      rfl
    | ddl kind => exact all nofun
    | call name arguments => exact only_proxyToAll_iff begin_ok c _ sql false s
    | explain inner =>
      cases inner with
      | select stmt => exact only_handleSelect_iff begin_ok c stmt sql s
      | _ => exact all nofun
    | commit => simpa [route, handleCommit, Reaches] using only_endTxn_iff c commit_ok s
    | rollback => simpa [route, handleRollback, Reaches] using only_endTxn_iff c rollback_ok s
    | begin =>
      simp only [route, handleBegin, Reaches, false_implies, and_true]
      split <;> rfl
    | _ => simp [route, Reaches]

end Log

/-! ## Readers -/

section Readers

variable {W Q : Type}

/-- The text of a statement that a reader may not execute. -/
def Denied (g : Grammar Q) (sql : String) : Prop :=
  ∃ stmt, g.parse sql = .ok stmt ∧ stmt.canExecute .reader = false

theorem not_denied_of_parse {g : Grammar Q} {sql : String} {stmt : ParsedStatement Q}
    (parsed : g.parse sql = .ok stmt) (allowed : stmt.canExecute .reader = true) : ¬ Denied g sql := by
  rintro ⟨ne, parsed', refused⟩
  cases parsed.symm.trans parsed'
  simp [allowed] at refused

theorem own_texts_not_denied (g : Grammar Q) :
    ¬ Denied g "BEGIN" ∧ ¬ Denied g "COMMIT" ∧ ¬ Denied g "ROLLBACK" :=
  ⟨not_denied_of_parse g.parse_begin rfl, not_denied_of_parse g.parse_commit rfl,
    not_denied_of_parse g.parse_rollback rfl⟩

/-- For every sequence of statements of a reader: what they may not execute is never applied to the
    metadata database, and nothing of it is sent to a worker just when each such statement is
    held back in the state in which it comes. -/
theorem reader_sends_nothing_denied_iff (c : CoordinatorQueryRouter W Q) (world : W)
    (session : SessionContext Q) (statements : List String) :
    let identity : Identity := { authenticated := true, role := some .reader }
    let start : RouterState W Q := { world, session }
    let final := run (c.serve identity) start statements
    ((∀ e ∈ final.log, ¬ Denied c.grammar e.sql) ↔
        Meets (c.serve identity)
          (fun s sql => ∀ stmt, c.grammar.parse sql = .ok stmt → stmt.canExecute .reader = false →
            ¬ c.Reaches s stmt) start statements) ∧
      ∀ sql, .applied sql ∈ final.log → ¬ Denied c.grammar sql := by
  intro identity start final
  have empty (sentOk appliedOk : String → Prop) : start.Only sentOk appliedOk := nofun
  constructor
  · let clean (s : RouterState W Q) : Prop :=
      s.Only (fun sql => ¬ Denied c.grammar sql) (fun sql => ¬ Denied c.grammar sql)
    have step (s : RouterState W Q) (sql : String) : clean (c.serve identity s sql) ↔ clean s ∧
        ∀ stmt, c.grammar.parse sql = .ok stmt → stmt.canExecute .reader = false →
          ¬ c.Reaches s stmt := by
      refine (only_query_iff (own_texts_not_denied _) (fun _ _ _ _ ok => ok) s sql).trans
        (and_congr_right (fun _ => forall₂_congr (fun stmt parsed => ?_)))
      have denied : Denied c.grammar sql ↔ stmt.canExecute .reader = false :=
        ⟨fun ⟨_, parsed', refused⟩ => by cases parsed.symm.trans parsed'; exact refused,
          fun refused => ⟨stmt, parsed, refused⟩⟩
      rw [denied]
      tauto
    have all : clean final ↔ _ := run_iff_meets step start statements
    rw [and_iff_right (empty _ _)] at all
    rw [← all]
    refine forall₂_congr (fun e _ => ?_)
    cases e <;> rfl
  · have step (s : RouterState W Q) (sql : String)
        (clean : s.Only (fun _ => True) (fun sql => ¬ Denied c.grammar sql)) :
        (c.serve identity s sql).Only (fun _ => True) (fun sql => ¬ Denied c.grammar sql) := by
      refine (only_query_iff ⟨trivial, trivial, trivial⟩ ?_ s sql).mpr
        ⟨clean, fun _ _ _ => trivial⟩
      exact fun sql stmt parsed permitted _ => not_denied_of_parse parsed (permitted rfl _ rfl)
    exact fun sql applied => run_inv step (empty _ _) statements _ applied

/-- A coordinator with one worker, a table `t` without partitions, and a grammar of one statement. -/
def singleWorker : CoordinatorQueryRouter Unit Empty where
  grammar :=
    { parse := fun sql =>
        if sql = "BEGIN" then .ok .begin
        else if sql = "COMMIT" then .ok .commit
        else if sql = "ROLLBACK" then .ok .rollback
        else if sql = "DELETE FROM t" then .ok (.delete ⟨"t", none⟩)
        else .error "Unknown statement"
      parse_begin := rfl
      parse_commit := rfl
      parse_rollback := rfl }
  shardMap :=
    { workers := [(0, ⟨0, "127.0.0.1", 9001⟩)]
      placements := [("p0", 0)]
      increasing := by decide
      workers_ne_nil := by decide
      placements_ne_nil := by decide
      known := by decide
      labelled := by decide }
  getTable := fun _ name => if name = "t" then some { columns := ["id"] } else none
  ping := fun _ _ => true
  executeRpc := fun _ _ _ => ((), .successResult "OK")
  dispatch := fun _ session _ => ((), session, .successResult "OK")

/-- A reader's DELETE is sent to the worker. -/
theorem reader_delete_is_sent :
    let identity : Identity := { authenticated := true, role := some .reader }
    let final := run (singleWorker.serve identity) { world := () } ["DELETE FROM t"]
    final.log = [.sent ⟨0, "127.0.0.1", 9001⟩ "DELETE FROM t"] ∧
      Denied singleWorker.grammar "DELETE FROM t" :=
  ⟨rfl, .delete ⟨"t", none⟩, rfl, rfl⟩

end Readers

end CoordinatorQueryRouter

end NobugDb
