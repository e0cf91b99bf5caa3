import NobugDb.Executor.PartitionedDml
import NobugDb.Executor.Proofs.RowWrites

/-!
# The rows that tables store

An invariant that says, for each table name, what columns the table has and which rows it may
store. INSERT, UPDATE and DELETE keep it when the rows they make from a table's columns and from
rows it stores are such rows.
-/

namespace NobugDb

open Body
open Table
open Database

/-- What the tables of a database may look like: the columns and foreign keys of the table of a
    name, and the rows it may store. -/
structure Contents where
  shape : String → List Column → List ForeignKey → Prop
  rows : String → List Value → Prop

/-- A table that has foreign keys, whose rows referential actions change, may store any row. -/
def Contents.FreeWithKeys (c : Contents) : Prop :=
  ∀ name columns foreignKeys, c.shape name columns foreignKeys → foreignKeys ≠ [] →
    ∀ values, c.rows name values

/-- The child that a row of a partitioned table is routed to may store it. -/
def Contents.Routed (c : Contents) (metadata : PartitionedTableMetadata) (parent : Table)
    (values : List Value) : Prop :=
  ∀ i key child, parent.getColumnIndex metadata.keyColumn = some i → values[i]? = some key →
    metadata.resolveChild key = some child → c.rows child values

/-- The operation writes no other rows than those the contents allow. -/
def Op.Writes (c : Contents) : Op → Prop
  | .look | .visible _ | .delete _ _ _ | .deleteInPlace _ _ => True
  | .request _ _ | .attempt _ _ | .release => True
  | .insert name values | .update name _ values | .updateInPlace name _ values => c.rows name values
  | _ => False

/-- The triggers write only rows that the contents allow, and leave NEW as it is. -/
def Env.Spares (env : Env) (c : Contents) : Prop :=
  ∀ timing event name old new,
    Misc.Program.AllTo (Op.Writes c)
      (fun r : Except Exn (QueryResult × Option Row) =>
        ∀ result row, r = .ok (result, some row) → new = some row)
      (env.fireTriggers timing event name old new)

theorem Env.NoTriggers.spares {env : Env} {c : Contents} (quiet : env.NoTriggers) : env.Spares c := by
  intro timing event name old new
  rw [quiet]
  intro res row eq
  cases eq
  rfl

namespace Database

variable {fns : Functions} {s : Nat} {db db' : Database} {c : Contents} {op : Op}
  {resp : Response}

/-- The tables are as the contents say. -/
def Stores (c : Contents) (db : Database) : Prop :=
  ∀ e ∈ db.tables, c.shape e.1 e.2.columns e.2.foreignKeys ∧
    ∀ row, some row ∈ e.2.directory → c.rows e.1 row.values

theorem Stores.write {name : String} {f : Table → Table × Except Exn Unit}
    {written : List Value → Prop} (holds : db.Stores c) (grew : ∀ t, Table.Grew written t (f t).1)
    (allowed : ∀ vals, written vals → c.rows name vals) : (db.write name f).1.Stores c := by
  cases hit : db.tables.lookup name with
  | none =>
    rw [write_missing hit]
    exact holds
  | some t =>
    rw [write_found hit]
    intro e mem
    rcases Misc.mem_adjust mem with mem | rfl
    · exact holds e mem
    · obtain ⟨shape, rows⟩ := holds (name, t) (Misc.mem_of_lookup hit)
      refine ⟨?_, fun row stored => ?_⟩
      · rw [(grew t).columns, (grew t).foreignKeys]
        exact shape
      · rcases (grew t).rows row stored with ⟨old, inTable, eq⟩ | isWritten
        · rw [← eq]
          exact rows old inTable
        · exact allowed _ isWritten

theorem Stores.perform (writes : op.Writes c) (ran : db.perform fns s op = some (db', resp))
    (holds : db.Stores c) : db'.Stores c := by
  have state : ∀ {res : Database × Response}, some res = some (db', resp) →
      res.1 = db' := fun h => congrArg Prod.fst (Option.some.inj h)
  have eq (tables : db'.tables = db.tables) : db'.Stores c := by
    unfold Stores
    rw [tables]
    exact holds
  cases op with
  | look =>
    rw [← state ran]
    exact holds
  | visible name =>
    simp only [Database.perform] at ran
    split at ran
    · rw [← state ran]
      exact holds
    · split at ran <;> (rw [← state ran]; exact holds)
  | insert name vals =>
    rw [← state ran]
    refine @Stores.write db c name _ (· = vals) holds (fun t => ?_) (fun _ eq => eq ▸ writes)
    split
    · exact insertRow_grew fns t ⟨vals, db.reader.1, 0⟩
    · exact insertRow_grew fns t ⟨vals, 0, 0⟩
  | update name i vals =>
    rw [← state ran]
    refine @Stores.write db c name _ (· = vals) holds (fun t => ?_) (fun _ eq => eq ▸ writes)
    split
    · exact updateVersion_grew fns t i ⟨vals, 0, 0⟩ _
    · exact updateRow_grew fns t i ⟨vals, 0, 0⟩
  | delete name i inTx =>
    rw [← state ran]
    refine @Stores.write db c name _ (fun _ => False) holds (fun t => ?_) (fun _ => False.elim)
    split
    · exact deleteVersion_grew t i _
    · exact deleteRow_grew t i
  | updateInPlace name i vals =>
    rw [← state ran]
    exact @Stores.write db c name _ (· = vals) holds
      (fun t => updateRow_grew fns t i ⟨vals, 0, 0⟩) (fun _ eq => eq ▸ writes)
  | deleteInPlace name i =>
    rw [← state ran]
    exact @Stores.write db c name _ (fun _ => False) holds (fun t => deleteRow_grew t i)
      (fun _ => False.elim)
  | request key mode =>
    refine eq ?_
    rw [← state ran]
    show (db.ensureLockTxnId s).tables = db.tables
    unfold ensureLockTxnId
    split <;> rfl
  | attempt key mode =>
    simp only [Database.perform] at ran
    refine eq ?_
    split at ran
    · rw [← state ran]
    · cases ran
    · rw [← state ran]
  | release =>
    refine eq ?_
    rw [← state ran]
    unfold releaseSessionLocks
    split <;> rfl
  | _ => exact writes.elim

end Database

variable {vals : List Value} {i : Nat}

namespace Body

variable {α : Type} {fns : Functions} {s : Nat} {c : Contents} {env : Env}

abbrev Stores (fns : Functions) (s : Nat) (c : Contents) (body : Body α) : Prop :=
  body.Upholds fns s (Database.Stores c) (fun _ => True)

theorem upholds_of_writes {body : Body α} (all : body.All (Op.Writes c)) : body.Stores fns s c :=
  all.upholds (fun _ _ _ _ writes ran holds => holds.perform writes ran)

variable {name : String}

theorem upholds_insert (allowed : c.rows name vals) :
    Stores fns s c (perform (.insert name vals)) :=
  upholds_of_writes (all_perform allowed)

theorem upholds_update (allowed : c.rows name vals) :
    Stores fns s c (perform (.update name i vals)) :=
  upholds_of_writes (all_perform allowed)

theorem upholds_delete {inTx : Bool} : Stores fns s c (perform (.delete name i inTx)) :=
  upholds_of_writes (all_perform trivial)

theorem upholds_table :
    Upholds fns s (Database.Stores c) (fun hit => ∀ t, hit = some t →
      c.shape name t.columns t.foreignKeys ∧ ∀ row, some row ∈ t.directory → c.rows name row.values)
      (getTable name) := by
  refine Misc.Program.Upholds.mono upholds_getTable (fun r hit tab isTab t isThere => ?_)
  obtain ⟨db, holds, isLookup⟩ := hit tab isTab
  exact holds (name, t) (Misc.mem_of_lookup (isLookup ▸ isThere))

theorem upholds_fireTriggers (spares : env.Spares c) (timing : TriggerTiming) (event : TriggerEvent)
    (name : String) (old new : Option Row) :
    Upholds fns s (Database.Stores c) (fun res => ∀ row, res.2 = some row → new = some row)
      (env.fireTriggers timing event name old new) := by
  refine Misc.Program.Upholds.mono ((spares timing event name old new).upholds
    (fun _ _ _ _ writes ran holds => holds.perform writes ran)) ?_
  intro r leaves res isResult row isRow
  refine leaves res.1 row ?_
  rw [isResult, ← isRow]

end Body

/-! ## Foreign keys -/

namespace Database

variable {fns : Functions} {s : Nat} {c : Contents} {env : Env}

theorem triggersIn_of_spares (spares : env.Spares c) : env.TriggersIn (Op.Writes c) :=
  fun timing event name old new => Misc.Program.AllTo.all (spares timing event name old new)

theorem rows_of_referencing {db : Database} {parent : String} {e : String × Table × ForeignKey}
    (free : c.FreeWithKeys) (holds : db.Stores c) (mem : e ∈ referencing db.tables parent)
    (values : List Value) : c.rows e.1 values := by
  simp only [referencing, List.mem_flatMap, List.mem_filter, List.mem_map] at mem
  obtain ⟨entry, ⟨inTables, -⟩, fk, ⟨isKey, -⟩, rfl⟩ := mem
  exact free _ _ _ (holds entry inTables).1 (List.ne_nil_of_mem isKey) values

theorem upholds_fksOnInsert (t : Table) (row : Row) :
    (validateForeignKeysOnInsert t row).Stores fns s c :=
  upholds_of_writes (all_fksOnInsert trivial t row)

variable (free : c.FreeWithKeys) (spares : env.Spares c)
include free spares

theorem upholds_fksOnUpdate (t : Table)
    (old new : Row) : (validateForeignKeysOnUpdate env t old new).Stores fns s c := by
  refine (upholds_fksOnInsert t new).bind (fun _ _ => ?_)
  refine upholds_look.bind (fun resp looked => ?_)
  obtain ⟨db, holds, eq⟩ := looked
  rw [eq]
  dsimp only
  split
  · exact upholds_pure trivial
  · refine upholds_forEach (fun e mem => ?_)
    refine upholds_of_writes ((all_lift _).bind (fun key => ?_))
    cases key with
    | none => exact all_pure _
    | some key =>
      dsimp only
      split
      · exact all_pure _
      · exact all_updateReferencing (triggersIn_of_spares spares) trivial
          (fun _ vals => rows_of_referencing free holds mem vals) _ _ _

theorem upholds_referentialDelete (depth : Nat)
    (name : String) (row : Row) (visiting : List String) :
    (applyReferentialDelete env depth name row visiting).Stores fns s c := by
  have triggers := triggersIn_of_spares spares
  induction depth generalizing name row visiting with
  | zero => exact upholds_throw _
  | succ depth ih =>
    unfold applyReferentialDelete
    split
    · exact upholds_throw _
    · refine upholds_look.bind (fun resp looked => ?_)
      obtain ⟨db, holds, eq⟩ := looked
      rw [eq]
      dsimp only
      split
      · exact upholds_pure trivial
      · refine upholds_forEach (fun e mem => ?_)
        have update (i : Nat) (vals : List Value) : Op.Writes c (.updateInPlace e.1 i vals) :=
          rows_of_referencing free holds mem vals
        refine (upholds_lift (fun _ _ => trivial)).bind (fun key _ => ?_)
        cases key with
        | none => exact upholds_pure trivial
        | some vals =>
          refine upholds_look.bind (fun resp _ => ?_)
          refine (upholds_lift (fun _ _ => trivial)).bind (fun rows _ => ?_)
          split
          · exact upholds_pure trivial
          · split
            · exact upholds_throw _
            · exact upholds_of_writes (all_forEach (fun i _ =>
                all_setNullOnChild triggers trivial (update i) _ _))
            · exact upholds_of_writes (all_forEach (fun i _ =>
                all_setDefault trivial (update i) _ _))
            · refine upholds_forEach (fun i _ => ?_)
              refine upholds_getTable.bind (fun hit _ => ?_)
              cases hit with
              | none => exact upholds_pure trivial
              | some t =>
                dsimp only
                split
                · exact upholds_pure trivial
                · refine (upholds_lift (fun _ _ => trivial)).bind (fun below _ => ?_)
                  refine (ih e.1 below (name :: visiting)).bind (fun _ _ => ?_)
                  refine upholds_of_writes ((all_fireOrThrow triggers _ _ _ _ _).bind
                    (fun _ => (all_perform trivial).bind (fun _ =>
                      (all_fireOrThrow triggers _ _ _ _ _).bind (fun _ => all_pure _))))

theorem upholds_fksOnDelete (t : Table)
    (row : Row) : (validateForeignKeysOnDelete env t row).Stores fns s c :=
  upholds_look.bind (fun _ _ => upholds_referentialDelete free spares _ _ _ _)

end Database

/-! ## Executors -/

namespace Executor

variable {fns : Functions} {s : Nat} {c : Contents} {env : Env}

theorem upholds_orFail {α : Type} {text : String} {body : Body (Option QueryResult)}
    {next : Option QueryResult → Body α} (upholds : body.Stores fns s c)
    (fail : ∀ res, (next (some res)).Stores fns s c) (rest : (next none).Stores fns s c) :
    (orFail text body >>= next).Stores fns s c := by
  have caught : (orFail text body).Stores fns s c :=
    upholds.tryCatch (fun _ => upholds_pure trivial)
  refine caught.bind (fun res _ => ?_)
  cases res with
  | some res => exact fail res
  | none => exact rest

theorem upholds_loop {α β : Type} {loop : List α → Nat → Body β} {l : List α}
    (ends : ∀ count, (loop [] count).Stores fns s c)
    (turn : ∀ a ∈ l, ∀ rest, (∀ count, (loop rest count).Stores fns s c) →
      ∀ count, (loop (a :: rest) count).Stores fns s c) (count : Nat) :
    (loop l count).Stores fns s c := by
  induction l generalizing count with
  | nil => exact ends count
  | cons a l ih => exact turn a (by simp) l (ih (fun a mem => turn a (by simp [mem]))) count

variable {stmt : InsertStatement} {metadata : PartitionedTableMetadata} {t : Table}
  {exprs : List (Expr Empty)}

theorem upholds_triggers (spares : env.Spares c) {event : TriggerEvent} {name : String}
    {old new : Option Row} {write : Option Row → Body Unit}
    (writes : ∀ left, (∀ row, left = some row → new = some row) → (write left).Stores fns s c) :
    (betweenTriggers env event name old new write).Stores fns s c := by
  refine (upholds_fireTriggers spares _ _ _ _ _).bind (fun res left => ?_)
  dsimp only
  split
  · exact upholds_pure trivial
  · refine (writes res.2 left).bind (fun _ _ => ?_)
    refine (upholds_fireTriggers spares _ _ _ _ _).bind (fun after _ => ?_)
    split <;> exact upholds_pure trivial

theorem getD_of_left {left : Option Row} {row : Row}
    (eq : ∀ r, left = some r → some row = some r) : left.getD row = row := by
  cases left with
  | none => rfl
  | some r => exact (Option.some.inj (eq r rfl)).symm

theorem upholds_onTable {α : Type} {name : String} {absent : α} {body : Table → Body α}
    (upholds : ∀ t, c.shape name t.columns t.foreignKeys →
      (body t).Stores fns s c) :
    (getTable name >>= fun hit => match hit with
      | none => pure absent
      | some t => body t).Stores fns s c := by
  refine upholds_table.bind (fun hit isTab => ?_)
  cases hit with
  | none => exact upholds_pure trivial
  | some t => exact upholds t (isTab t rfl).1

/-! ### INSERT -/

theorem upholds_insertOne (spares : env.Spares c)
    (allowed : ∀ vals, evaluateValues (t.dmlEvaluator env) exprs = .ok (.ok vals) →
      c.rows stmt.table (t.insertedValues stmt.columns vals)) :
    (insertOne env stmt t exprs).Stores fns s c := by
  refine (upholds_lift (fun _ eq => eq)).bind (fun values isValues => ?_)
  cases values with
  | error text => exact upholds_pure trivial
  | ok vals =>
    refine (upholds_fksOnInsert t _).bind (fun _ _ => ?_)
    refine upholds_triggers spares (fun left eq => ?_)
    rw [getD_of_left eq]
    exact (upholds_insert (allowed vals isValues)).bind (fun _ _ => upholds_pure trivial)

theorem upholds_executeInsert (spares : env.Spares c)
    (allowed : ∀ t : Table, c.shape stmt.table t.columns t.foreignKeys → ∀ exprs ∈ stmt.values,
      ∀ vals, evaluateValues (t.dmlEvaluator env) exprs = .ok (.ok vals) →
        c.rows stmt.table (t.insertedValues stmt.columns vals)) :
    (executeInsert env stmt).Stores fns s c := by
  refine upholds_onTable (fun t shape => ?_)
  split
  · exact upholds_pure trivial
  · refine upholds_loop (fun _ => upholds_pure trivial) (fun exprs mem rest ih count => ?_) 0
    exact upholds_orFail (upholds_insertOne spares (allowed t shape exprs mem))
      (fun _ => upholds_pure trivial) (ih _)

theorem upholds_partitionChild (metadata : PartitionedTableMetadata) (parent : Table)
    (row : Row) :
    (resolvePartitionChild metadata parent row).Upholds fns s (Database.Stores c)
      (fun hit => ∀ child, hit = .ok child → ∃ i key,
        parent.getColumnIndex metadata.keyColumn = some i ∧ row.getValue? i = some key ∧
          metadata.resolveChild key = some child) := by
  unfold resolvePartitionChild
  split
  · exact upholds_pure (by simp)
  · rename_i i isIndex
    refine (upholds_lift (fun _ eq => eq)).bind (fun key isKey => ?_)
    have there : row.getValue? i = some key := by
      unfold Row.getValue at isKey
      split at isKey
      · rename_i hit
        cases isKey
        exact hit
      · cases isKey
    split
    · exact upholds_pure (by simp)
    · rename_i child res
      refine upholds_getTable.bind (fun hit _ => ?_)
      split
      · exact upholds_pure (by simp)
      · refine upholds_pure (fun name eq => ?_)
        cases eq
        exact ⟨i, key, isIndex, there, res⟩

theorem upholds_insertOneRouted (spares : env.Spares c)
    (allowed : ∀ vals, evaluateValues (t.dmlEvaluator env) exprs = .ok (.ok vals) →
      c.Routed metadata t (t.insertedValues stmt.columns vals)) :
    (insertOneRouted env metadata stmt t exprs).Stores fns s c := by
  refine (upholds_lift (fun _ eq => eq)).bind (fun values isValues => ?_)
  cases values with
  | error text => exact upholds_pure trivial
  | ok vals =>
    refine (upholds_fksOnInsert t _).bind (fun _ _ => ?_)
    refine (upholds_partitionChild metadata t _).bind (fun hit _ => ?_)
    cases hit with
    | error e => exact upholds_pure trivial
    | ok child =>
      refine (upholds_fireTriggers spares _ _ _ _ _).bind (fun before left => ?_)
      dsimp only
      split
      · exact upholds_pure trivial
      · rw [getD_of_left left]
        refine (upholds_partitionChild metadata t _).bind (fun hit routed => ?_)
        cases hit with
        | error e => exact upholds_pure trivial
        | ok child =>
          obtain ⟨i, key, isIndex, isKey, res⟩ := routed child rfl
          refine (upholds_insert (allowed vals isValues i key child isIndex isKey
            res)).bind (fun _ _ => ?_)
          refine (upholds_fireTriggers spares _ _ _ _ _).bind (fun after _ => ?_)
          split <;> exact upholds_pure trivial

/-- An INSERT into a partitioned table whose rows may be stored by the children they are routed
    to. -/
theorem upholds_partitionedInsert (spares : env.Spares c)
    (allowed : ∀ t : Table, c.shape stmt.table t.columns t.foreignKeys → ∀ exprs ∈ stmt.values,
      ∀ vals, evaluateValues (t.dmlEvaluator env) exprs = .ok (.ok vals) →
        c.Routed metadata t (t.insertedValues stmt.columns vals)) :
    (executePartitionedInsert env metadata stmt).Stores fns s c := by
  refine upholds_onTable (fun t shape => ?_)
  split
  · exact upholds_pure trivial
  · refine upholds_loop (fun _ => upholds_pure trivial) (fun exprs mem rest ih count => ?_) 0
    exact upholds_orFail (upholds_insertOneRouted spares (allowed t shape exprs mem))
      (fun _ => upholds_pure trivial) (ih _)

/-! ### UPDATE -/

theorem upholds_collect (name : String) (t : Table) (cond : Option (Expr Empty)) :
    (collectMatching env name t cond).Stores fns s c := by
  unfold collectMatching
  refine Body.Upholds.bind (upholds_of_writes (all_perform trivial)) (fun _ _ => ?_)
  exact upholds_lift (fun _ _ => trivial)

theorem mem_dir_of_getRow {row : Row} (read : t.getRow i = .ok row) : some row ∈ t.directory :=
  List.mem_of_getElem? (getRow_eq_ok_iff.mp read)

theorem upholds_executeUpdate (free : c.FreeWithKeys) (spares : env.Spares c)
    {stmt : UpdateStatement}
    (allowed : ∀ t : Table, c.shape stmt.table t.columns t.foreignKeys → ∀ ev cur new,
      c.rows stmt.table cur.values → t.assigned ev cur stmt.setClauses cur = .ok new →
        c.rows stmt.table new.values) :
    (executeUpdate env stmt).Stores fns s c := by
  refine upholds_onTable (fun t shape => ?_)
  refine (upholds_collect _ t _).bind (fun rows _ => ?_)
  refine upholds_loop (fun _ => upholds_pure trivial) (fun i _ rest ih count => ?_) 0
  refine upholds_table.bind (fun hit isTab => ?_)
  cases hit with
  | none => exact upholds_throw _
  | some now =>
    dsimp only
    split
    · exact ih count
    · refine (upholds_lift (fun _ eq => eq)).bind (fun cur read => ?_)
      have stored := (isTab now rfl).2 cur (mem_dir_of_getRow read)
      refine (upholds_lift (fun _ _ => trivial)).bind (fun acc _ => ?_)
      split
      · refine (upholds_lift (fun _ eq => eq)).bind (fun new isNew => ?_)
        refine upholds_orFail ?_ (fun _ => upholds_pure trivial) (ih _)
        refine (upholds_fksOnUpdate free spares t _ _).bind (fun _ _ => ?_)
        refine upholds_triggers spares (fun left eq => ?_)
        rw [getD_of_left eq]
        exact (upholds_update (allowed t shape _ cur new stored isNew)).bind
          (fun _ _ => upholds_pure trivial)
      · exact ih count

theorem upholds_writeRouted {childName tgt : String}
    (allowed : c.rows tgt vals) : (writeRouted childName i tgt vals).Stores fns s c := by
  unfold writeRouted
  split
  · rename_i eq
    rw [← eq]
    exact (upholds_update allowed).bind (fun _ _ => upholds_pure trivial)
  · refine upholds_look.bind (fun _ _ => ?_)
    refine upholds_delete.bind (fun _ _ => ?_)
    exact (upholds_insert allowed).bind (fun _ _ => upholds_pure trivial)

theorem upholds_updateOneRouted (free : c.FreeWithKeys) (spares : env.Spares c) {parent child : Table}
    {childName : String} {cur new : Row} (allowed : c.Routed metadata parent new.values) :
    (updateOneRouted env metadata parent childName child i cur new).Stores fns s c := by
  refine (upholds_fksOnUpdate free spares child _ _).bind (fun _ _ => ?_)
  refine (upholds_fireTriggers spares _ _ _ _ _).bind (fun before left => ?_)
  dsimp only
  split
  · exact upholds_pure trivial
  · rw [getD_of_left left]
    refine (upholds_partitionChild metadata parent new).bind (fun hit routed => ?_)
    cases hit with
    | error e => exact upholds_pure trivial
    | ok tgt =>
      obtain ⟨i, key, isIndex, isKey, res⟩ := routed tgt rfl
      refine (upholds_writeRouted (allowed i key tgt isIndex isKey res)).bind (fun _ _ => ?_)
      refine (upholds_fireTriggers spares _ _ _ _ _).bind (fun after _ => ?_)
      split <;> exact upholds_pure trivial

theorem upholds_eachChild {inChild : String → Table → Nat → Body (QueryResult ⊕ Nat)}
    {message : String} {kids : List String}
    (upholds : ∀ name ∈ kids, ∀ child, c.shape name child.columns child.foreignKeys → ∀ count,
      (inChild name child count).Stores fns s c) (count : Nat) :
    (eachChild inChild message kids count).Stores fns s c := by
  refine upholds_loop (fun _ => upholds_pure trivial) (fun name mem rest ih count => ?_) count
  refine upholds_table.bind (fun hit isTab => ?_)
  cases hit with
  | none => exact ih count
  | some child =>
    refine (upholds name mem child (isTab child rfl).1 count).bind (fun ended _ => ?_)
    cases ended with
    | inl res => exact upholds_pure trivial
    | inr count => exact ih count

variable (free : c.FreeWithKeys) (spares : env.Spares c)
include free spares

/-- An UPDATE of a partitioned table that makes, of rows its children store, rows that may be
    stored by the children they are routed to. -/
theorem upholds_partitionedUpdate {stmt : UpdateStatement}
    (allowed : ∀ parent : Table, c.shape stmt.table parent.columns parent.foreignKeys →
      ∀ name ∈ listPrunedPartitions metadata stmt.whereCondition, ∀ child : Table,
        c.shape name child.columns child.foreignKeys → ∀ ev cur new, c.rows name cur.values →
          child.assigned ev cur stmt.setClauses cur = .ok new → c.Routed metadata parent new.values) :
    (executePartitionedUpdate env metadata stmt).Stores fns s c := by
  refine upholds_onTable (fun parent isParent => ?_)
  refine upholds_eachChild (fun name pruned child isChild count => ?_) 0
  refine (upholds_collect _ child _).bind (fun rows _ => ?_)
  refine upholds_loop (fun _ => upholds_pure trivial) (fun i _ rest ih count => ?_) count
  refine upholds_table.bind (fun hit isTab => ?_)
  cases hit with
  | none => exact upholds_throw _
  | some now =>
    dsimp only
    split
    · exact ih count
    · refine (upholds_lift (fun _ eq => eq)).bind (fun cur read => ?_)
      have stored := (isTab now rfl).2 cur (mem_dir_of_getRow read)
      refine (upholds_lift (fun _ eq => eq)).bind (fun new isNew => ?_)
      exact upholds_orFail (upholds_updateOneRouted free spares (allowed parent isParent
        name pruned child isChild _ cur new stored isNew)) (fun _ => upholds_pure trivial) (ih _)

/-! ### DELETE -/

theorem upholds_deletion (t : Table) (name triggered : String) (i : Nat) (inTx : Bool) :
    (currentRow name i >>= fun row =>
      validateForeignKeysOnDelete env t row >>= fun _ =>
        betweenTriggers env .delete triggered (some row) none (fun _ => do
          let _ ← Body.perform (.delete name i inTx))).Stores fns s c := by
  refine (upholds_of_writes (all_currentRow trivial name i)).bind (fun row _ => ?_)
  refine (upholds_fksOnDelete free spares t row).bind (fun _ _ => ?_)
  refine upholds_triggers spares (fun _ _ => ?_)
  exact upholds_delete.bind (fun _ _ => upholds_pure trivial)

theorem upholds_executeDelete
    (stmt : DeleteStatement) : (executeDelete env stmt).Stores fns s c := by
  refine upholds_onTable (fun t _ => ?_)
  refine (upholds_collect _ t _).bind (fun rows _ => ?_)
  refine upholds_look.bind (fun resp _ => ?_)
  refine upholds_loop (fun _ => upholds_pure trivial) (fun i _ rest ih count => ?_) 0
  exact upholds_orFail (upholds_deletion free spares t _ _ i _) (fun _ => upholds_pure trivial) (ih _)

theorem upholds_partitionedDelete (metadata : PartitionedTableMetadata) (stmt : DeleteStatement) :
    (executePartitionedDelete env metadata stmt).Stores fns s c := by
  refine upholds_onTable (fun parent _ => ?_)
  refine upholds_look.bind (fun resp _ => ?_)
  refine upholds_eachChild (fun name _ child _ count => ?_) 0
  refine (upholds_collect _ child _).bind (fun rows _ => ?_)
  refine upholds_loop (fun _ => upholds_pure trivial) (fun i _ rest ih count => ?_) count
  refine upholds_table.bind (fun hit _ => ?_)
  cases hit with
  | none => exact upholds_throw _
  | some now =>
    dsimp only
    split
    · exact ih count
    · exact upholds_orFail (upholds_deletion free spares child _ _ i _)
        (fun _ => upholds_pure trivial) (ih _)

end Executor

end NobugDb
