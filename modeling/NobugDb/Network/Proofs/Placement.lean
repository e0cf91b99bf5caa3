import NobugDb.Executor.Proofs.StoredRows
import NobugDb.Network.Proofs.Routing

/-!
# Where rows are stored

Each row of a partition should be stored by the worker that the shard map assigns to the
partition its key is routed to. The coordinator sends a statement to workers by what its text
says of the key, so the invariant is kept by the statements whose rows have, on each worker the
text is sent to, keys of that worker.
-/

namespace NobugDb

open Misc (run Meets)
open CoordinatorQueryRouter
open Executor
open Worker

/-! ## The key of a new row -/

theorem foldl_keeps {α β γ : Type} {f : α → β → α} {bs : List β} (g : α → γ)
    (each : ∀ a, ∀ b ∈ bs, g (f a b) = g a) (a : α) : g (bs.foldl f a) = g a := by
  induction bs generalizing a with
  | nil => rfl
  | cons b bs ih =>
    rw [List.foldl_cons, ih (fun a b mem => each a b (by simp [mem]))]
    exact each a b (by simp)

variable {j : Nat} {key : Value} {child : String}

namespace Table

variable {t : Table} {i : Nat} {keyColumn : String}

theorem eq_of_columnIndex {name : String} (hit : t.getColumnIndex keyColumn = some i)
    (eq : t.getColumnIndex name = some i) : name = keyColumn := by
  unfold getColumnIndex at hit eq
  obtain ⟨_, isKey, -⟩ := List.findIdx?_eq_some_iff_getElem.mp hit
  obtain ⟨_, isName, -⟩ := List.findIdx?_eq_some_iff_getElem.mp eq
  simp only [beq_iff_eq] at isKey isName
  exact isName.symm.trans isKey

theorem getElem?_evalValues {ev : Evaluator Empty} {exprs : List (Expr Empty)} {vals : List Value}
    {j : Nat} {key : Value} (isValues : evaluateValues ev exprs = .ok (.ok vals))
    (isKey : exprs[j]? = some (.literal key)) : vals[j]? = some key := by
  induction exprs generalizing vals j with
  | nil => simp at isKey
  | cons e exprs ih =>
    rw [evaluateValues] at isValues
    obtain ⟨⟨fst, err⟩, isFirst, isValues⟩ := Exn.bind_eq_ok isValues
    dsimp only at isValues
    split at isValues
    · cases isValues
    · obtain ⟨rest, isRest, isValues⟩ := Exn.bind_eq_ok isValues
      cases rest with
      | error text => cases isValues
      | ok values =>
        have made : fst :: values = vals := by
          simpa [pure, Except.pure, Except.map] using isValues
        rw [← made]
        cases j with
        | zero =>
          obtain rfl : e = .literal key := by simpa using isKey
          cases isFirst
          rfl
        | succ j => exact @ih values j isRest (by simpa using isKey)

theorem getElem?_assign_ne (hit : t.getColumnIndex keyColumn = some i) {p : String × Value}
    (ne : p.1 ≠ keyColumn) (vals : List Value) :
    (match t.getColumnIndex p.1 with | some k => vals.set k p.2 | none => vals)[i]? = vals[i]? := by
  split
  · rename_i k isIndex
    have apart : k ≠ i := by
      rintro rfl
      exact ne (eq_of_columnIndex hit isIndex)
    exact List.getElem?_set_ne apart
  · rfl

theorem length_assign (p : String × Value) (vals : List Value) :
    (match t.getColumnIndex p.1 with
      | some k => vals.set k p.2
      | none => vals).length = vals.length := by
  split
  · exact List.length_set
  · rfl

theorem getElem?_insertedValues (hit : t.getColumnIndex keyColumn = some i) {cols : List String}
    (once : cols.count keyColumn ≤ 1) {vals : List Value}
    (pos : if cols.isEmpty then j = i else cols.findIdx? (· = keyColumn) = some j)
    (isKey : vals[j]? = some key) : (t.insertedValues cols vals)[i]? = some key := by
  unfold insertedValues
  split at pos
  · rename_i empty
    subst pos
    rw [if_pos empty, List.getElem?_append_left (List.getElem?_eq_some_iff.mp isKey).1]
    exact isKey
  · rename_i listed
    rw [if_neg listed]
    obtain ⟨isIn, isCol, -⟩ := List.findIdx?_eq_some_iff_getElem.mp pos
    obtain ⟨inside', rfl⟩ := List.getElem?_eq_some_iff.mp isKey
    have isCol : cols[j] = keyColumn := by simpa using isCol
    -- the pairs before that of the key, and those after it
    have cut : cols.zip vals = (cols.zip vals).take j ++
        (keyColumn, vals[j]) :: (cols.zip vals).drop (j + 1) := by
      have short : j < (cols.zip vals).length := by
        rw [List.length_zip]
        omega
      have here : (cols.zip vals)[j] = (keyColumn, vals[j]) := by
        rw [List.getElem_zip, isCol]
      rw [← here, List.getElem_cons_drop, List.take_append_drop]
    have others : ∀ p ∈ (cols.zip vals).drop (j + 1), p.1 ≠ keyColumn := by
      intro p mem eq
      rw [List.zip, List.drop_zipWith] at mem
      have later : keyColumn ∈ cols.drop (j + 1) := eq ▸ (List.of_mem_zip mem).1
      have twice : 2 ≤ cols.count keyColumn := by
        rw [← List.take_append_drop j cols, List.count_append, ← List.getElem_cons_drop isIn,
          isCol, List.count_cons_self]
        have := List.count_pos_iff.mpr later
        omega
      omega
    rw [cut, List.foldl_append, List.foldl_cons]
    refine (foldl_keeps (fun values => values[i]?) (fun values p mem =>
      getElem?_assign_ne hit (others p mem) values) _).trans ?_
    dsimp only
    rw [hit]
    refine List.getElem?_set_self (Nat.lt_of_lt_of_eq (columnIndex_lt hit) ?_)
    refine Eq.trans ?_ (foldl_keeps List.length (fun values p _ => length_assign p values) _).symm
    rw [List.length_map]

/-- An UPDATE leaves a row with an accepted key when the values it assigns to the key column are
    accepted. -/
theorem key_assigned {acc : Value → Prop} (hit : t.getColumnIndex keyColumn = some i)
    {ev : Evaluator Empty} {cur row new : Row} {clauses : List (String × Expr Empty)}
    (literals : ∀ clause ∈ clauses, clause.1 = keyColumn → ∃ key, clause.2 = .literal key ∧ acc key)
    (isNew : t.assigned ev cur clauses row = .ok new)
    (before : ∃ key, row.values[i]? = some key ∧ acc key) :
    ∃ key, new.values[i]? = some key ∧ acc key := by
  induction clauses generalizing row with
  | nil =>
    cases isNew
    exact before
  | cons clause clauses ih =>
    obtain ⟨col, e⟩ := clause
    have rest := fun row => @ih row (fun clause mem => literals clause (by simp [mem]))
    simp only [assigned] at isNew
    split at isNew
    · exact rest row isNew before
    · rename_i k isIndex
      obtain ⟨value, isVal, isNew⟩ := Exn.bind_eq_ok isNew
      obtain ⟨next, isNext, isNew⟩ := Exn.bind_eq_ok isNew
      refine rest next isNew ?_
      unfold Row.setValue at isNext
      split at isNext
      · cases isNext
      · rename_i isIn
        cases isNext
        by_cases same : k = i
        · subst same
          have isKey := eq_of_columnIndex hit isIndex
          obtain ⟨key, rfl, isAccepted⟩ := literals (col, e) (by simp) isKey
          cases isVal
          exact ⟨key, List.getElem?_set_self (Nat.lt_of_not_le isIn), isAccepted⟩
        · obtain ⟨key, isKey, isAccepted⟩ := before
          exact ⟨key, (List.getElem?_set_ne same).trans isKey, isAccepted⟩

end Table

/-! ## Children -/

namespace PartitionedTableMetadata

variable {metadata : PartitionedTableMetadata}

theorem hasChild_of_resolveChild
    (res : metadata.resolveChild key = some child) : metadata.hasChild child = true := by
  unfold resolveChild at res
  split at res
  · cases res
  · obtain ⟨part, isPart, rfl⟩ := Option.map_eq_some_iff.mp res
    exact List.any_eq_true.mpr ⟨part, List.mem_of_find?_eq_some isPart, by simp⟩

theorem hasChild_of_mem_prune {constraints : List PartitionPruneConstraint}
    (mem : child ∈ metadata.prune constraints) : metadata.hasChild child = true := by
  have ofParts {parts : List PartitionDescriptor} (sub : ∀ part ∈ parts, part ∈ metadata.partitions)
      (mem : child ∈ parts.map (·.childTableName)) : metadata.hasChild child = true := by
    obtain ⟨part, inParts, rfl⟩ := List.mem_map.mp mem
    exact List.any_eq_true.mpr ⟨part, sub part inParts, by simp⟩
  unfold prune at mem
  split at mem
  · exact ofParts (fun _ inParts => List.mem_of_mem_filter inParts) mem
  · unfold pruneHash at mem
    split at mem
    · exact ofParts (fun _ inParts => inParts) mem
    · exact hasChild_of_resolveChild (Option.mem_toList.mp mem)

end PartitionedTableMetadata

/-! ## The contents of a worker -/

namespace Cluster

variable {Q : Type} (cl : Cluster Q)

/-- The table is partitioned by the column at position `i`. -/
def KeyOf (parent : String) (metadata : PartitionedTableMetadata) (i : Nat) : Prop :=
  ∃ table, cl.tables parent = some table ∧ table.partition = some metadata ∧
    table.columns.findIdx? (· = metadata.keyColumn) = some i

/-- The shard map assigns the partition that takes the key to the worker at this address. -/
def HomeOf (address : String × UInt16) (metadata : PartitionedTableMetadata) (key : Value) : Prop :=
  ∃ endpoint, cl.shardMap.resolveKey metadata key = .ok endpoint ∧ endpoint.address = address

/-- A partitioned table and its partitions have the key column at the position where the
    coordinator's table has it, partitions have no foreign keys, and their rows have keys of the
    worker. -/
def contents (address : String × UInt16) : Contents where
  shape name columns foreignKeys := ∀ parent metadata i, cl.KeyOf parent metadata i →
    name = parent ∨ metadata.hasChild name = true →
      columns.findIdx? (fun c => c.name == metadata.keyColumn) = some i ∧
        (metadata.hasChild name = true → foreignKeys = [])
  rows name values := ∀ parent metadata i, cl.KeyOf parent metadata i →
    metadata.hasChild name = true → ∃ key, values[i]? = some key ∧ cl.HomeOf address metadata key

/-- Rows of any table that is not a partition. -/
def outside : Contents where
  shape _ _ _ := True
  rows name _ := ∀ parent metadata i, cl.KeyOf parent metadata i → metadata.hasChild name = false

/-- The workers' catalog is the coordinator's, each partitioned table has its key column, a
    partition has one parent and no partitions of its own, queries change no table, and triggers
    leave partitions and NEW as they are. -/
structure Coherent : Prop where
  catalog : ∀ name, cl.catalog.lookup name = (cl.tables name).bind (·.partition)
  keyed : ∀ name metadata, cl.catalog.lookup name = some metadata → ∃ i, cl.KeyOf name metadata i
  oneParent : ∀ first metadata i second other j name, cl.KeyOf first metadata i →
    cl.KeyOf second other j → metadata.hasChild name = true → other.hasChild name = true →
      first = second
  flat : ∀ first metadata i second other j, cl.KeyOf first metadata i → cl.KeyOf second other j →
    metadata.hasChild second = false
  reads : ∀ stmt db, (cl.other (.select stmt) db).1.tables = db.tables
  triggers : cl.env.Spares cl.outside

variable {cl}

variable {metadata : PartitionedTableMetadata} {parent : String} {stmt : InsertStatement} {c : Contents}
  {endpoint : ShardEndpoint} {eps : List ShardEndpoint}

theorem KeyOf.unique {other : PartitionedTableMetadata} {i : Nat} (fst : cl.KeyOf parent metadata i)
    (snd : cl.KeyOf parent other j) : metadata = other ∧ i = j := by
  obtain ⟨tab, isTab, isPartitioned, isIndex⟩ := fst
  obtain ⟨table', isTable', isPartitioned', isIndex'⟩ := snd
  obtain rfl : tab = table' := Option.some.inj (isTab.symm.trans isTable')
  obtain rfl : metadata = other := Option.some.inj (isPartitioned.symm.trans isPartitioned')
  exact ⟨rfl, Option.some.inj (isIndex.symm.trans isIndex')⟩

theorem rows_of_home (coherent : cl.Coherent) {address : String × UInt16} {i : Nat}
    {values : List Value} (isKey : cl.KeyOf parent metadata i)
    (isChild : metadata.hasChild child = true) (here : values[i]? = some key)
    (home : cl.HomeOf address metadata key) : (cl.contents address).rows child values := by
  intro other metadata' j isKey' isChild'
  obtain rfl := coherent.oneParent _ _ _ _ _ _ child isKey isKey' isChild isChild'
  obtain ⟨rfl, rfl⟩ := isKey.unique isKey'
  exact ⟨key, here, home⟩

theorem freeWithKeys (address : String × UInt16) : (cl.contents address).FreeWithKeys := by
  intro name cols foreignKeys shape keys vals parent metadata i isKey isChild
  exact absurd ((shape parent metadata i isKey (.inr isChild)).2 isChild) keys

theorem spares (coherent : cl.Coherent) (address : String × UInt16) :
    cl.env.Spares (cl.contents address) := by
  intro timing event name old new
  refine (coherent.triggers timing event name old new).mono (fun op writes => ?_)
  have free {name : String} {values : List Value} (plain : cl.outside.rows name values) :
      (cl.contents address).rows name values := by
    intro parent metadata i isKey isChild
    rw [plain parent metadata i isKey] at isChild
    cases isChild
  cases op with
  | insert name values | update name i values | updateInPlace name i values => exact free writes
  | _ => exact writes

/-! ## Statements on a worker -/

variable (cl)

/-- The rows an INSERT gives a partitioned table or a partition have literal keys of the worker,
    and the key column is listed once. -/
def InsertsHome (address : String × UInt16) (stmt : InsertStatement) : Prop :=
  ∀ parent metadata i, cl.KeyOf parent metadata i →
    stmt.table = parent ∨ metadata.hasChild stmt.table = true →
      stmt.columns.count metadata.keyColumn ≤ 1 ∧ ∀ exprs ∈ stmt.values, ∃ j key,
        (if stmt.columns.isEmpty then j = i
          else stmt.columns.findIdx? (· = metadata.keyColumn) = some j) ∧
        exprs[j]? = some (.literal key) ∧ cl.HomeOf address metadata key

/-- The values an UPDATE assigns to the key column are literals and keys of the worker. -/
def AssignsHome (address : String × UInt16) (stmt : UpdateStatement) : Prop :=
  ∀ parent metadata i, cl.KeyOf parent metadata i →
    stmt.table = parent ∨ metadata.hasChild stmt.table = true →
      ∀ clause ∈ stmt.setClauses, clause.1 = metadata.keyColumn →
        ∃ key, clause.2 = .literal key ∧ cl.HomeOf address metadata key

/-- On the worker the statement gives partitions only rows with keys of the worker. EXPLAIN
    executes its statement. -/
def WritesHome (address : String × UInt16) : ParsedStatement Q → Prop
  | .insert stmt => cl.InsertsHome address stmt
  | .update stmt => cl.AssignsHome address stmt
  | .delete _ | .select _ | .begin | .commit | .rollback => True
  | .explain inner => WritesHome address inner
  | _ => False

variable {cl} {address : String × UInt16} {db : Database}

theorem upholds_insertHome (coherent : cl.Coherent) (home : cl.InsertsHome address stmt) :
    (dmlBody cl.env cl.catalog (.insert stmt)).Stores cl.env.functions session
      (cl.contents address) := by
  have spares := spares coherent address
  simp only [dmlBody]
  split
  · refine upholds_executeInsert spares (fun t shape exprs mem vals isValues => ?_)
    intro parent metadata i isKey isChild
    obtain ⟨once, keys⟩ := home parent metadata i isKey (.inr isChild)
    obtain ⟨j, key, pos, lit, isHome⟩ := keys exprs mem
    have col : t.getColumnIndex metadata.keyColumn = some i :=
      (shape parent metadata i isKey (.inr isChild)).1
    exact ⟨key, Table.getElem?_insertedValues col once pos
      (Table.getElem?_evalValues isValues lit), isHome⟩
  · rename_i metadata hit
    obtain ⟨i, isKey⟩ := coherent.keyed _ metadata hit
    obtain ⟨once, keys⟩ := home _ metadata i isKey (.inl rfl)
    refine upholds_partitionedInsert spares
      (fun t shape exprs mem vals isValues i' routed child isIndex isRouted res => ?_)
    have col : t.getColumnIndex metadata.keyColumn = some i :=
      (shape _ metadata i isKey (.inl rfl)).1
    obtain rfl : i' = i := Option.some.inj (isIndex.symm.trans col)
    obtain ⟨j, key, pos, lit, isHome⟩ := keys exprs mem
    exact rows_of_home coherent isKey (PartitionedTableMetadata.hasChild_of_resolveChild res)
      (Table.getElem?_insertedValues col once pos (Table.getElem?_evalValues isValues lit)) isHome

theorem upholds_updateHome (coherent : cl.Coherent) {stmt : UpdateStatement}
    (home : cl.AssignsHome address stmt) :
    (dmlBody cl.env cl.catalog (.update stmt)).Stores cl.env.functions session
      (cl.contents address) := by
  have spares := spares coherent address
  simp only [dmlBody]
  split
  · refine upholds_executeUpdate (freeWithKeys address) spares
      (fun t shape ev cur new stored isNew => ?_)
    intro parent metadata i isKey isChild
    have col : t.getColumnIndex metadata.keyColumn = some i :=
      (shape parent metadata i isKey (.inr isChild)).1
    exact Table.key_assigned col (home parent metadata i isKey (.inr isChild)) isNew
      (stored parent metadata i isKey isChild)
  · rename_i metadata hit
    obtain ⟨i, isKey⟩ := coherent.keyed _ metadata hit
    refine upholds_partitionedUpdate (freeWithKeys address) spares
      (fun parent isParent name pruned child isChild ev cur new stored isNew i' routed tgt
        isIndex isRouted res => ?_)
    have among := PartitionedTableMetadata.hasChild_of_mem_prune pruned
    have col : child.getColumnIndex metadata.keyColumn = some i :=
      (isChild _ metadata i isKey (.inr among)).1
    obtain ⟨key, here, isHome⟩ := Table.key_assigned col (home _ metadata i isKey (.inl rfl)) isNew
      (stored _ metadata i isKey among)
    exact rows_of_home coherent isKey
      (PartitionedTableMetadata.hasChild_of_resolveChild res) here isHome

theorem upholds_delete (coherent : cl.Coherent) (stmt : DeleteStatement) :
    (dmlBody cl.env cl.catalog (.delete stmt)).Stores cl.env.functions session
      (cl.contents address) := by
  have spares := spares coherent address
  simp only [dmlBody]
  split
  · exact upholds_executeDelete (freeWithKeys address) spares stmt
  · exact upholds_partitionedDelete (freeWithKeys address) spares _ stmt

theorem stores_of_tables {db' : Database} (eq : db'.tables = db.tables) (holds : db.Stores c) :
    db'.Stores c := by
  unfold Database.Stores
  rw [eq]
  exact holds

theorem stores_flush (holds : db.Stores c) : db.flush.Stores c := by
  intro e mem
  obtain ⟨entry, inTables, rfl⟩ := List.mem_map.mp mem
  exact holds entry inTables

theorem stores_executeDml {statement : Statement}
    (upholds : (dmlBody cl.env cl.catalog statement).Stores cl.env.functions session c)
    (holds : db.Stores c) :
    (executeDml cl.env cl.catalog statement db).1.Stores c := by
  have kept := Misc.Program.Upholds.exec upholds holds
  unfold executeDml
  split
  · rename_i result executed
    rw [executed] at kept
    dsimp only
    split
    · exact stores_flush kept
    · exact kept
  all_goals
    rename_i executed
    rw [executed] at kept
    exact kept

theorem stores_dispatch (coherent : cl.Coherent) {stmt : ParsedStatement Q}
    (home : cl.WritesHome address stmt) (outside : (db.sessions session).inTransaction = false)
    (holds : db.Stores (cl.contents address)) :
    (cl.dispatch stmt db).1.Stores (cl.contents address) := by
  fun_induction cl.dispatch stmt db with
  | case1 db =>
    refine stores_of_tables ?_ holds
    simp [Database.executeBegin, outside, Database.setSession]
  | case2 db =>
    refine stores_of_tables ?_ holds
    simp [Database.executeCommit, outside]
  | case3 db =>
    refine stores_of_tables ?_ holds
    simp [Database.executeRollback, outside]
  | case4 db stmt => exact stores_executeDml (upholds_insertHome coherent home) holds
  | case5 db stmt => exact stores_executeDml (upholds_updateHome coherent home) holds
  | case6 stmt db => exact stores_executeDml (upholds_delete coherent _) holds
  | case7 db inner ih => exact ih home outside holds
  | case8 stmt db notBegin notCommit notRollback notInsert notUpdate notDelete notExplain =>
    cases stmt with
    | select stmt => exact stores_of_tables (coherent.reads stmt db) holds
    | begin => exact (notBegin rfl).elim
    | commit => exact (notCommit rfl).elim
    | rollback => exact (notRollback rfl).elim
    | insert stmt => exact (notInsert stmt rfl).elim
    | update stmt => exact (notUpdate stmt rfl).elim
    | delete stmt => exact (notDelete stmt rfl).elim
    | explain inner => exact (notExplain inner rfl).elim
    | _ => exact home.elim

theorem stores_call (coherent : cl.Coherent) {sql : String}
    (home : ∀ stmt, cl.grammar.parse sql = .ok stmt → cl.WritesHome address stmt)
    (holds : db.Stores (cl.contents address)) : (cl.call db sql).1.Stores (cl.contents address) := by
  unfold call
  split
  · exact holds
  · rename_i stmt parsed
    have connected : (connect db).Stores (cl.contents address) := stores_of_tables rfl holds
    have fresh : ((connect db).sessions session).inTransaction = false := by
      simp [connect, Database.setSession]
    exact stores_of_tables rfl (stores_dispatch coherent (home stmt parsed) fresh connected)

/-! ## Statements of the coordinator -/

variable (cl)

/-- Every worker stores only rows of its own. -/
def Placed (w : Workers) : Prop := ∀ address, (w address).Stores (cl.contents address)

/-- The text keeps the rows of the worker it is sent to. -/
def KeepsAt (sql : String) (endpoint : ShardEndpoint) : Prop :=
  ∀ db : Database, db.Stores (cl.contents endpoint.address) →
    (cl.call db sql).1.Stores (cl.contents endpoint.address)

variable {cl} {s : RouterState Workers Q} {sql : String}

theorem placed_rpc (keeps : cl.KeepsAt sql endpoint) (placed : cl.Placed s.world) :
    cl.Placed (cl.coordinator.rpc endpoint sql s).1.world := by
  show cl.Placed (cl.executeRpc s.world endpoint sql).1
  unfold executeRpc
  split
  · intro address
    by_cases here : address = endpoint.address
    · subst here
      simpa using keeps _ (placed endpoint.address)
    · simpa [here] using placed address
  · exact placed

theorem keepsAt_begin (coherent : cl.Coherent) (endpoint : ShardEndpoint) :
    cl.KeepsAt "BEGIN" endpoint := by
  refine fun db holds => stores_call coherent (fun stmt parsed => ?_) holds
  rw [cl.grammar.parse_begin] at parsed
  cases parsed
  trivial

theorem placed_proxyTo (coherent : cl.Coherent) {tgt : Except String (List ShardEndpoint)}
    {allowScatter : Bool} (keeps : ∀ eps, tgt = .ok eps → ∀ endpoint ∈ eps, cl.KeepsAt sql endpoint)
    (placed : cl.Placed s.world) :
    cl.Placed (cl.coordinator.proxyTo tgt sql allowScatter s).1.world := by
  refine keeps_proxyTo (I := (cl.Placed ·.world)) (fun _ _ => id) ?_ placed
  rintro eps isTarget endpoint mem text (rfl | rfl) s placed
  · exact placed_rpc (keeps eps isTarget endpoint mem) placed
  · exact placed_rpc (keepsAt_begin coherent endpoint) placed

theorem placed_handleBroadcast {identity : Identity}
    (keeps : ∀ endpoint ∈ cl.shardMap.listWorkers, cl.KeepsAt sql endpoint)
    (placed : cl.Placed s.world) :
    cl.Placed (cl.coordinator.handleBroadcast identity sql s).1.world := by
  have everywhere : cl.Placed (cl.coordinator.broadcast sql cl.shardMap.listWorkers s).1.world := by
    apply keeps_broadcast (I := (cl.Placed ·.world)) ?_ placed
    intro endpoint mem s placed
    exact placed_rpc (keeps endpoint mem) placed
  have eq : cl.coordinator.shardMap = cl.shardMap := rfl
  unfold handleBroadcast
  rw [eq]
  split
  · exact placed
  · split
    · exact placed
    · split
      · rename_i broadcast
        rw [broadcast] at everywhere
        exact everywhere
      · rename_i broadcast
        rw [broadcast] at everywhere
        unfold queryMetadata
        split
        · exact everywhere
        · split <;> exact everywhere

/-! ## The worker of an INSERT -/

theorem keys_of_insertTargets {tab : CatalogTable} {rows : List (List (Expr Empty))}
    {tgt : Option ShardEndpoint} (start : ∀ e ∈ tgt, cl.shardMap.Registered e)
    (res : cl.coordinator.insertTargets tab metadata stmt rows tgt = .ok (some endpoint)) :
    (∀ e ∈ tgt, e = endpoint) ∧ ∀ row ∈ rows, ∃ key,
      extractInsertPartitionKey tab stmt metadata.keyColumn row = .ok key ∧
        cl.shardMap.resolveKey metadata key = .ok endpoint := by
  induction rows generalizing tgt with
  | nil =>
    cases res
    exact ⟨by simp, by simp⟩
  | cons row rows ih =>
    rw [insertTargets] at res
    obtain ⟨key, isKey, res⟩ := Exn.bind_eq_ok res
    obtain ⟨hit, isFound, res⟩ := Exn.bind_eq_ok res
    have reg : cl.shardMap.Registered hit := ShardMap.reg_of_resolveKey isFound
    cases tgt with
    | none =>
      obtain ⟨eq, others⟩ := ih (by simpa using reg) res
      obtain rfl : hit = endpoint := eq hit rfl
      exact ⟨by simp, List.forall_mem_cons.mpr ⟨⟨key, isKey, isFound⟩, others⟩⟩
    | some tgt =>
      dsimp only at res
      split at res
      · cases res
      · rename_i sameShard
        obtain ⟨eq, others⟩ := ih start res
        obtain rfl : tgt = endpoint := eq tgt rfl
        obtain rfl : tgt = hit := (start tgt rfl).eq_of_shardId reg (not_not.mp sameShard)
        exact ⟨by simp, List.forall_mem_cons.mpr ⟨⟨key, isKey, isFound⟩, others⟩⟩

/-- An INSERT into a partitioned table goes to the worker of its keys. -/
theorem insertsHome_of_insertTarget (coherent : cl.Coherent) {i : Nat}
    (isKey : cl.KeyOf stmt.table metadata i) (once : stmt.columns.count metadata.keyColumn ≤ 1)
    (res : cl.coordinator.insertTarget s stmt = .ok eps) :
    ∀ endpoint ∈ eps, cl.InsertsHome endpoint.address stmt := by
  intro endpoint mem parent ne k isParent isTab
  obtain ⟨rfl⟩ : stmt.table = parent := by
    rcases isTab with eq | isChild
    · exact eq
    · rw [coherent.flat _ _ _ _ _ _ isParent isKey] at isChild
      cases isChild
  obtain ⟨rfl, rfl⟩ := isKey.unique isParent
  refine ⟨once, fun exprs row => ?_⟩
  obtain ⟨table, isTab, isPartitioned, isIndex⟩ := isKey
  have catalogued : cl.coordinator.getTable s.world stmt.table = some table := isTab
  simp only [insertTarget, catalogued, isPartitioned] at res
  obtain ⟨hit, isFound, res⟩ := Exn.bind_eq_ok res
  split at res
  · cases res
  · cases res
    obtain rfl := List.mem_singleton.mp mem
    obtain ⟨key, extracted, home⟩ := (keys_of_insertTargets (by simp) isFound).2 exprs row
    unfold extractInsertPartitionKey at extracted
    split at extracted
    · cases extracted
    · rename_i lit isLiteral
      cases extracted
      obtain ⟨j, pos, here⟩ := Option.bind_eq_some_iff.mp isLiteral
      refine ⟨j, key, ?_, here, endpoint, home, rfl⟩
      unfold insertKeyIndex at pos
      split at pos
      · rename_i empty
        rw [if_pos empty]
        exact Option.some.inj (pos.symm.trans isIndex)
      · rename_i listed
        rw [if_neg listed]
        exact pos
    · cases extracted

/-! ## Runs -/

variable (cl)

/-- The statement is an INSERT, UPDATE, DELETE or EXPLAIN that gives each worker it is sent to only
    rows with keys of that worker. An INSERT into a partitioned table goes to the worker of the
    keys, so there it is enough that the key column is listed once; any other INSERT goes to the
    first worker. An UPDATE goes to the worker of its WHERE, whatever it assigns to the key.
    EXPLAIN goes to every worker, unless it is of a SELECT. -/
def SentHome (s : RouterState Workers Q) (sql : String) : Prop :=
  ∀ stmt, cl.grammar.parse sql = .ok stmt →
    match stmt with
    | .insert stmt =>
      match cl.catalog.lookup stmt.table with
      | some metadata => stmt.columns.count metadata.keyColumn ≤ 1
      | none => ∀ first, cl.shardMap.firstWorker = some first → cl.InsertsHome first.address stmt
    | .update stmt => ∀ endpoint,
        cl.coordinator.resolveTableShards s stmt.table stmt.whereCondition = .ok [endpoint] →
          cl.AssignsHome endpoint.address stmt
    | .delete _ => True
    | .explain (.select _) => True
    | .explain inner => ∀ endpoint ∈ cl.shardMap.listWorkers, cl.WritesHome endpoint.address inner
    | _ => False

variable {cl}

theorem placed_serve (coherent : cl.Coherent) {identity : Identity} (home : cl.SentHome s sql)
    (placed : cl.Placed s.world) : cl.Placed (cl.coordinator.serve identity s sql).world := by
  have keeps {endpoint : ShardEndpoint} {stmt : ParsedStatement Q}
      (parsed : cl.grammar.parse sql = .ok stmt) (writes : cl.WritesHome endpoint.address stmt) :
      cl.KeepsAt sql endpoint := by
    refine fun db holds => stores_call coherent (fun other isOther => ?_) holds
    obtain rfl : stmt = other := Except.ok.inj (parsed.symm.trans isOther)
    exact writes
  have parses : cl.coordinator.grammar = cl.grammar := rfl
  simp only [serve, executeQuery, parses]
  cases parsed : cl.grammar.parse sql with
  | error e => exact placed
  | ok stmt =>
    have cond := home stmt parsed
    cases stmt with
    | insert stmt =>
      refine placed_proxyTo coherent (fun eps tgt endpoint mem => ?_) placed
      refine keeps parsed ?_
      cases hit : cl.catalog.lookup stmt.table with
      | some metadata =>
        simp only [hit] at cond
        obtain ⟨i, isKey⟩ := coherent.keyed _ metadata hit
        exact insertsHome_of_insertTarget coherent isKey cond tgt endpoint mem
      | none =>
        simp only [hit] at cond
        have plain := coherent.catalog stmt.table
        rw [hit] at plain
        exact cond endpoint (firstWorker_of_needed plain.symm tgt _ mem)
    | update stmt =>
      refine placed_proxyTo coherent (fun eps tgt endpoint mem => ?_) placed
      obtain ⟨isFound, single⟩ := singleShard_eq_ok tgt
      obtain ⟨only, rfl⟩ := List.length_eq_one_iff.mp single
      obtain rfl := List.mem_singleton.mp mem
      exact keeps parsed (cond endpoint isFound)
    | delete stmt =>
      exact placed_proxyTo coherent (fun _ _ _ _ => keeps parsed trivial) placed
    | explain inner =>
      cases inner with
      | select stmt =>
        have anywhere : ∀ endpoint, cl.KeepsAt sql endpoint := fun _ => keeps parsed trivial
        simp only [CoordinatorQueryRouter.route, handleSelect]
        split <;> exact placed_proxyTo coherent (fun _ _ endpoint _ => anywhere endpoint) placed
      | _ =>
        exact placed_handleBroadcast (fun endpoint mem =>
          keeps parsed (cond endpoint mem)) placed
    | _ => exact cond.elim

/-- From workers that store only rows of their own, after any statements that are sent home, each
    row that a worker stores of a partition of a partitioned table has a key that the shard map
    assigns to this worker. -/
theorem rows_stay_home {identity : Identity} {start : RouterState Workers Q}
    {statements : List String} (coherent : cl.Coherent) (placed : cl.Placed start.world)
    (home : Meets (cl.coordinator.serve identity) cl.SentHome start statements) :
    let final := (run (cl.coordinator.serve identity) start statements).world
    ∀ parent metadata i, cl.KeyOf parent metadata i → ∀ child, metadata.hasChild child = true →
      ∀ address t row, (final address).tables.lookup child = some t → some row ∈ t.directory →
        ∃ key endpoint, row.values[i]? = some key ∧
          cl.shardMap.resolveKey metadata key = .ok endpoint ∧ endpoint.address = address := by
  intro final parent metadata i isKey child isChild address t row found stored
  have everywhere : cl.Placed final := by
    refine Meets.invariant (fun s sql (holds : cl.Placed s.world) sent => ?_) home placed
    exact placed_serve coherent sent holds
  obtain ⟨-, rows⟩ := everywhere address (child, t) (Misc.mem_of_lookup found)
  obtain ⟨key, here, endpoint, resolved, isAddress⟩ := rows row stored parent metadata i isKey isChild
  exact ⟨key, endpoint, here, resolved, isAddress⟩

/-! ## Two workers -/

/-- A table `t` of which one worker has the ids below 10 and another one those from 10 to 19. -/
def ranges : PartitionedTableMetadata where
  kind := .range
  keyColumn := "id"
  partitions :=
    [⟨"p0", { range := some ⟨.int 0, .int 10⟩ }⟩, ⟨"p1", { range := some ⟨.int 10, .int 20⟩ }⟩]

/-- A cluster of two workers, and a grammar of four statements. -/
def twoWorkers : Cluster Empty where
  grammar :=
    { parse := fun sql =>
        if sql = "BEGIN" then .ok .begin
        else if sql = "COMMIT" then .ok .commit
        else if sql = "ROLLBACK" then .ok .rollback
        else if sql = "INSERT INTO t VALUES (5)" then .ok (.insert ⟨"t", [], [[.literal (.int 5)]]⟩)
        else if sql = "EXPLAIN INSERT INTO t VALUES (5)" then
          .ok (.explain (.insert ⟨"t", [], [[.literal (.int 5)]]⟩))
        else if sql = "UPDATE t SET id = 15 WHERE id = 5" then
          .ok (.update ⟨"t", [("id", .literal (.int 15))],
            some (.binary .eq (.columnRef "" "id") (.literal (.int 5)))⟩)
        else .error "Unknown statement"
      parse_begin := rfl
      parse_commit := rfl
      parse_rollback := rfl }
  shardMap := CoordinatorQueryRouter.twoShards
  env :=
    { functions := ⟨fun _ _ err => .ok (.null, err), fun text _ => .ok (.string text)⟩ }
  catalog := [("t", ranges)]
  other := fun _ db => (db, .errorResult "")
  alive := fun _ => true
  answers := fun _ => true
  receive := fun _ result => result
  tables := fun name =>
    if name = "t" then some { columns := ["id"], partition := some ranges } else none
  metadata := fun session _ => (session, .errorResult "")

def emptyPartitions : RouterState Workers Empty where
  world := fun _ =>
    { tables := ["p0", "p1", "t"].map (fun name =>
        (name, { name, columns := [⟨"id", .int, true, false, false, none⟩] })) }

theorem keyOf_twoWorkers {i : Nat} (isKey : twoWorkers.KeyOf parent metadata i) :
    parent = "t" ∧ metadata = ranges ∧ i = 0 := by
  obtain ⟨tab, isTab, isPartitioned, isIndex⟩ := isKey
  simp only [twoWorkers] at isTab
  split at isTab
  · cases isTab
    cases isPartitioned
    cases isIndex
    exact ⟨by assumption, rfl, rfl⟩
  · cases isTab

theorem coherent_twoWorkers : twoWorkers.Coherent where
  catalog name := by
    by_cases isT : name = "t"
    · subst isT
      rfl
    · simp [twoWorkers, isT, Misc.lookup_cons_if]
  keyed name metadata found := by
    by_cases isT : name = "t"
    · subst isT
      cases found
      exact ⟨0, _, rfl, rfl, rfl⟩
    · simp [twoWorkers, isT, Misc.lookup_cons_if] at found
  oneParent first metadata i second other j name isFirst isSecond _ _ := by
    rw [(keyOf_twoWorkers isFirst).1, (keyOf_twoWorkers isSecond).1]
  flat first metadata i second other j isFirst isSecond := by
    rw [(keyOf_twoWorkers isFirst).2.1, (keyOf_twoWorkers isSecond).1]
    rfl
  reads _ _ := rfl
  triggers := Env.NoTriggers.spares rfl

theorem placed_emptyPartitions : twoWorkers.Placed emptyPartitions.world := by
  intro address e mem
  obtain ⟨name, -, rfl⟩ := List.mem_map.mp mem
  refine ⟨fun parent metadata i isKey _ => ?_, by simp⟩
  obtain ⟨-, rfl, rfl⟩ := keyOf_twoWorkers isKey
  exact ⟨rfl, fun _ => rfl⟩

/-- The row of an INSERT is stored by the worker of its key. -/
theorem inserted_row_is_home :
    let final := (run (twoWorkers.coordinator.serve {}) emptyPartitions
      ["INSERT INTO t VALUES (5)"]).world
    ∃ t, (final ("127.0.0.1", 9001)).tables.lookup "p0" = some t ∧
      some ⟨[.int 5], 0, 0⟩ ∈ t.directory ∧
      ∃ key endpoint, [Value.int 5][0]? = some key ∧
        twoWorkers.shardMap.resolveKey ranges key = .ok endpoint ∧
        endpoint.address = ("127.0.0.1", 9001) := by
  intro final
  have isKey : twoWorkers.KeyOf "t" ranges 0 := ⟨_, rfl, rfl, rfl⟩
  have home : Meets (twoWorkers.coordinator.serve {}) twoWorkers.SentHome emptyPartitions
      ["INSERT INTO t VALUES (5)"] := by
    refine ⟨fun stmt parsed => ?_, trivial⟩
    cases parsed
    exact Nat.zero_le 1
  have rows := rows_stay_home coherent_twoWorkers placed_emptyPartitions home "t" ranges 0 isKey "p0"
    rfl ("127.0.0.1", 9001)
  cases found : (final ("127.0.0.1", 9001)).tables.lookup "p0" with
  | none => exact absurd found (by decide +kernel)
  | some t =>
    have slots : ((final ("127.0.0.1", 9001)).tables.lookup "p0").map Table.directory =
        some [some ⟨[.int 5], 0, 0⟩] := by decide +kernel
    rw [found, Option.map_some, Option.some.injEq] at slots
    have stored : some ⟨[.int 5], 0, 0⟩ ∈ t.directory := by simp [slots]
    exact ⟨t, rfl, stored, rows t _ found stored⟩

/-- EXPLAIN INSERT stores the row on both workers, and an UPDATE of the key leaves the row on the
    worker that had it. -/
theorem explain_and_update_store_elsewhere :
    let stored (statements : List String) (port : UInt16) (child : String) :=
      ((((run (twoWorkers.coordinator.serve {}) emptyPartitions statements).world
        ("127.0.0.1", port)).tables.lookup child).map Table.directory)
    stored ["EXPLAIN INSERT INTO t VALUES (5)"] 9001 "p0" = some [some ⟨[.int 5], 0, 0⟩] ∧
      stored ["EXPLAIN INSERT INTO t VALUES (5)"] 9002 "p0" = some [some ⟨[.int 5], 0, 0⟩] ∧
      twoWorkers.shardMap.resolveKey ranges (.int 5) = .ok ⟨0, "127.0.0.1", 9001⟩ ∧
      stored ["INSERT INTO t VALUES (5)", "UPDATE t SET id = 15 WHERE id = 5"] 9001 "p1" =
        some [some ⟨[.int 15], 0, 0⟩] ∧
      twoWorkers.shardMap.resolveKey ranges (.int 15) = .ok ⟨1, "127.0.0.1", 9002⟩ := by
  intro stored
  exact ⟨by decide +kernel, by decide +kernel, by decide +kernel, by decide +kernel,
    by decide +kernel⟩

end Cluster

end NobugDb
