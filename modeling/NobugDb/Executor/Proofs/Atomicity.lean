import NobugDb.Core.Proofs.ActiveSession
import NobugDb.Core.Proofs.Visibility
import NobugDb.Executor.Proofs.KeptChanges

/-!
# Failed statements

When INSERT, UPDATE or DELETE fails, the rows of all tables are as they were before exactly when
it fails at the first row that it would change, and before its referential actions have changed
any.
-/

namespace NobugDb

open Body

namespace Executor

/-! ## The rows of a statement -/

section Rows

variable {env : Env} {fns : Functions} {s : Nat} {db db' : Database} {t : Table} {name : String}
  {cond : Option (Expr Empty)} {rows : List Nat}

theorem runs_collect (hit : db.tables.lookup name = some t)
    {r : Except Exn (List Nat)} (runs : (collectMatching env name t cond).Runs fns s db db' r) :
    db' = db ∧ r = t.collectMatchingIndices db.transactionManager db.reader.1 db.reader.2 cond
      (t.dmlEvaluator env) := by
  rw [Table.collectIndices_eq]
  have answer : ∀ db₁ r, (Body.perform (.visible name)).Runs fns s db db₁ r → db₁ = db ∧
      r.map Response.visible =
        t.getVisibleRowIndices db.transactionManager db.reader.1 db.reader.2 := by
    intro db₁ r performed
    obtain ⟨resp, ran, rfl⟩ := runs_perform_iff.mp performed
    simp only [Database.perform, hit] at ran
    split at ran
    · rename_i e unread
      cases ran
      exact ⟨rfl, unread.symm⟩
    · rename_i vis read
      cases ran
      exact ⟨rfl, read.symm⟩
  obtain ⟨db₁, resp, performed, ends⟩ | ⟨e, performed, rfl⟩ := runs_bind_iff.mp runs
  · obtain ⟨rfl, vis⟩ := answer _ _ performed
    obtain ⟨rfl, rfl⟩ := runs_lift_iff.mp ends
    exact ⟨rfl, by rw [← vis]; rfl⟩
  · obtain ⟨rfl, vis⟩ := answer _ _ performed
    exact ⟨rfl, by rw [← vis]; rfl⟩

variable {ev : Evaluator Empty} {tm : TransactionManager} {reader : Nat}
  {snapshot : Option TransactionSnapshot}

theorem acceptedRows_sublist {ps : List Nat} {acc : List (Nat × Row)}
    (taken : t.acceptedRows ev cond ps = .ok acc) : (acc.map Prod.fst).Sublist ps := by
  induction ps generalizing acc with
  | nil =>
    cases taken
    exact .slnil
  | cons i ps ih =>
    obtain ⟨row, -, taken⟩ := Exn.bind_eq_ok taken
    obtain ⟨passes, -, taken⟩ := Exn.bind_eq_ok taken
    obtain ⟨rest, isRest, done⟩ := Exn.bind_eq_ok taken
    cases done
    split
    · exact (ih isRest).cons_cons i
    · exact (ih isRest).cons i

/-- The positions a statement works on are visible ones, all of them or those of an index. -/
theorem collectIndices_cases
    (coll : t.collectMatchingIndices tm reader snapshot cond ev = .ok rows) :
    ∃ vis ps, t.getVisibleRowIndices tm reader snapshot = .ok vis ∧
      rows.Sublist ps ∧ (ps = vis ∨
        ∃ cands, t.collectCandidateRows t.name cond = .ok (some cands) ∧
          ps = cands.filter (vis.contains ·)) := by
  obtain ⟨vis, read, coll⟩ := Exn.bind_eq_ok coll
  obtain ⟨cands, isCandidates, coll⟩ := Exn.bind_eq_ok coll
  obtain ⟨acc, taken, done⟩ := Exn.bind_eq_ok coll
  cases done
  refine ⟨vis, _, read, acceptedRows_sublist taken, ?_⟩
  cases cands with
  | none => exact .inl rfl
  | some cands => exact .inr ⟨cands, isCandidates, rfl⟩

theorem collectIndices_nodup (once : ∀ idx key, (t.findRowsByIndexKey idx key).Nodup)
    (coll : t.collectMatchingIndices tm reader snapshot cond ev = .ok rows) : rows.Nodup := by
  obtain ⟨vis, ps, read, sub, which⟩ := collectIndices_cases coll
  refine sub.nodup ?_
  rcases which with rfl | ⟨cands, isCandidates, rfl⟩
  · obtain ⟨all, -, listed⟩ := Exn.bind_eq_ok read
    cases listed
    exact List.nodup_findIdxs
  · refine List.Nodup.filter _ ?_
    unfold Table.collectCandidateRows at isCandidates
    simp only at isCandidates
    split at isCandidates
    · cases isCandidates
      exact once _ _
    · obtain ⟨intersected, -, isCandidates⟩ := Exn.bind_eq_ok isCandidates
      obtain ⟨ps, -, rfl⟩ := Option.map_eq_some_iff.mp (Except.ok.inj isCandidates)
      exact Finset.sort_nodup _ _

theorem collectIndices_visible {i : Nat} {row : Row}
    (coll : t.collectMatchingIndices tm reader snapshot cond ev = .ok rows) (mem : i ∈ rows)
    (isRow : t.directory[i]? = some (some row)) :
    tm.isVisible row.xmin row.xmax reader snapshot = true := by
  obtain ⟨visible, ps, read, sub, which⟩ := collectIndices_cases coll
  have seen : i ∈ visible := by
    have := sub.subset mem
    rcases which with rfl | ⟨cands, -, rfl⟩
    · exact this
    · simpa using (List.mem_filter.mp this).2
  obtain ⟨all, stored, listed⟩ := Exn.bind_eq_ok read
  cases listed
  obtain ⟨isIn, passes⟩ := List.mem_findIdxs_iff_exists_getElem_pos.mp seen
  rw [Table.dir_of_getAllRows stored, List.getElem?_map, List.getElem?_eq_getElem isIn] at isRow
  cases isRow
  exact passes

theorem collectIndices_unstamped (pos : reader ≠ 0)
    (coll : t.collectMatchingIndices tm reader snapshot cond ev = .ok rows) :
    Unstamped reader rows t.directory := by
  intro i mem row isRow
  exact TransactionManager.xmax_ne_of_isVisible pos (collectIndices_visible coll mem isRow)

end Rows

/-! ## Failed statements -/

/-- `INSERT`, `UPDATE` or `DELETE`. -/
def IsDml : Statement → Prop
  | .insert _ | .update _ | .delete _ => True
  | _ => False

/-- The statement fails, if it does, before it has changed a row: every row it has handled before
    was left as it was, and so were all rows when the failing one was given up. -/
def FailsClean (env : Env) (fns : Functions) (s : Nat) (db : Database) : Statement → Prop
  | .insert stmt => ∀ t, db.tables.lookup stmt.table = some t →
      Clean fns s (insertStep env stmt t) db stmt.values
  | .update stmt => ∀ t rows, db.tables.lookup stmt.table = some t →
      t.collectMatchingIndices db.transactionManager db.reader.1 db.reader.2 stmt.whereCondition
        (t.dmlEvaluator env) = .ok rows →
      Clean fns s (updateStep env stmt t) db rows
  | .delete stmt => ∀ t rows, db.tables.lookup stmt.table = some t →
      t.collectMatchingIndices db.transactionManager db.reader.1 db.reader.2 stmt.whereCondition
        (t.dmlEvaluator env) = .ok rows →
      Clean fns s (deleteStep env stmt t db.writesVersioned) db (rows.mergeSort (fun a b => b ≤ a))
  | _ => True

end Executor

/-- Tables are filed under their names, no index lists a row twice, no row holds NaN or an
    infinity, and a transaction has an id. -/
structure Database.Regular (db : Database) : Prop where
  named : ∀ name t, db.tables.lookup name = some t → t.name = name
  once : ∀ name t, db.tables.lookup name = some t →
    ∀ index key, (t.findRowsByIndexKey index key).Nodup
  selfEqual : ∀ name t, db.tables.lookup name = some t →
    ∀ row, some row ∈ t.directory → ∀ v ∈ row.values, v.eq v = true
  ids : db.writesVersioned = true → db.reader.1 ≠ 0

namespace Executor

section Failed

variable {env : Env} {fns : Functions} {s : Nat} {db db' : Database}
  {out : Except Exn QueryResult}

theorem runs_executeInsert {stmt : InsertStatement}
    (runs : (executeInsert env stmt).Runs fns s db db' out) :
    (db' = db ∧ (db.tables.lookup stmt.table = none ∨ stmt.values = [])) ∨
      ∃ t, db.tables.lookup stmt.table = some t ∧
        (insertRows env stmt t stmt.values 0).Runs fns s db db' out := by
  have next := runs_getTable_bind.mp runs
  split at next
  · rename_i missing
    exact .inl ⟨(runs_pure_iff.mp next).1, .inl missing⟩
  · rename_i t isTab
    split at next
    · rename_i empty
      exact .inl ⟨(runs_pure_iff.mp next).1, .inr (List.isEmpty_iff.mp empty)⟩
    · exact .inr ⟨t, isTab, next⟩

/-- The table is not there, or its rows cannot be collected, or the loop runs on them. -/
def OnMatching (env : Env) (name : String) (cond : Option (Expr Empty)) (db db' : Database)
    (loop : Table → List Nat → Prop) : Prop :=
  db' = db ∧ db.tables.lookup name = none ∨ ∃ t, db.tables.lookup name = some t ∧
    match t.collectMatchingIndices db.transactionManager db.reader.1 db.reader.2 cond
      (t.dmlEvaluator env) with
    | .error _ => db' = db
    | .ok rows => loop t rows

theorem runs_matching {name : String} {cond : Option (Expr Empty)} {missing : QueryResult}
    {f : Table → List Nat → Body QueryResult}
    (runs : (do
      match ← getTable name with
      | none => return missing
      | some t => f t (← collectMatching env name t cond)).Runs fns s db db' out) :
    OnMatching env name cond db db' (fun t rows => (f t rows).Runs fns s db db' out) := by
  have next := runs_getTable_bind.mp runs
  split at next
  · rename_i isMissing
    exact .inl ⟨(runs_pure_iff.mp next).1, isMissing⟩
  · rename_i t isTab
    refine .inr ⟨t, isTab, ?_⟩
    obtain ⟨db₁, rows, coll, loop⟩ | ⟨e, coll, -⟩ := runs_bind_iff.mp next
    · obtain ⟨rfl, isRows⟩ := runs_collect isTab coll
      rw [← isRows]
      exact loop
    · obtain ⟨rfl, isError⟩ := runs_collect isTab coll
      rw [← isError]

theorem OnMatching.loop {name : String} {cond : Option (Expr Empty)} {loop : Table → List Nat → Prop}
    {t : Table} {rows : List Nat} (on : OnMatching env name cond db db' loop)
    (isTab : db.tables.lookup name = some t)
    (isRows : t.collectMatchingIndices db.transactionManager db.reader.1 db.reader.2 cond
      (t.dmlEvaluator env) = .ok rows) : loop t rows := by
  obtain ⟨-, missing⟩ | ⟨u, isTable', runs⟩ := on
  · cases isTab.symm.trans missing
  · cases isTab.symm.trans isTable'
    rwa [isRows] at runs

theorem runs_executeUpdate {stmt : UpdateStatement}
    (runs : (executeUpdate env stmt).Runs fns s db db' out) :
    OnMatching env stmt.table stmt.whereCondition db db'
      (fun t rows => (updateRows env stmt t rows 0).Runs fns s db db' out) :=
  runs_matching runs

theorem runs_executeDelete {stmt : DeleteStatement}
    (runs : (executeDelete env stmt).Runs fns s db db' out) :
    OnMatching env stmt.table stmt.whereCondition db db' (fun t rows =>
      (deleteRows env stmt t db.writesVersioned (rows.mergeSort (fun a b => b ≤ a)) 0).Runs fns s db db'
        out) :=
  runs_matching (f := fun t rows => perform .look >>= fun resp =>
    deleteRows env stmt t resp.inTransaction (rows.mergeSort (fun a b => b ≤ a)) 0) runs

theorem slots_of_lookup {name : String} {t : Table} (hit : db.tables.lookup name = some t) :
    db.slots name = some t.directory := by
  rw [Database.slots, hit]
  rfl

variable {stmt : Statement}

section

variable (quiet : env.NoTriggers)
include quiet

theorem sameRows_of_failsClean (dml : IsDml stmt)
    (runs : (body env stmt).Runs fns s db db' out) (clean : FailsClean env fns s db stmt)
    (fail : Failed out) : db.SameRows db' := by
  cases stmt with
  | insert stmt =>
    rcases runs_executeInsert runs with ⟨rfl, -⟩ | ⟨t, isTab, loop⟩
    · exact .refl db'
    · exact (insertRows_isLoop quiet).sameRows_of_clean loop (clean t isTab) fail
  | update stmt =>
    rcases runs_executeUpdate runs with ⟨rfl, -⟩ | ⟨t, isTab, loop⟩
    · exact .refl db'
    · split at loop
      · rw [loop]
        exact .refl db
      · rename_i rows isRows
        exact (updateRows_isLoop quiet).sameRows_of_clean loop (clean t rows isTab isRows) fail
  | delete stmt =>
    rcases runs_executeDelete runs with ⟨rfl, -⟩ | ⟨t, isTab, loop⟩
    · exact .refl db'
    · split at loop
      · rw [loop]
        exact .refl db
      · rename_i rows isRows
        exact (deleteRows_isLoop quiet).sameRows_of_clean loop (clean t rows isTab isRows) fail
  | _ => exact dml.elim

theorem insert_failsClean {stmt : InsertStatement}
    (runs : (body env (.insert stmt)).Runs fns s db db' out)
    (eq : Failed out → db.SameRows db') : FailsClean env fns s db (.insert stmt) := by
  intro t isTab
  rcases runs_executeInsert runs with ⟨-, missing | empty⟩ | ⟨u, isTable', loop⟩
  · rw [isTab] at missing
    cases missing
  · rw [empty]
    trivial
  · obtain rfl : t = u := Option.some.inj (isTab.symm.trans isTable')
    refine (insertRows_isLoop quiet).clean_of_sameRows
      (I := fun db _ => db.Slots stmt.table db.writesVersioned db.reader.1 (fun _ => True))
      ?_ ?_ ⟨⟨_, slots_of_lookup isTab, trivial⟩, rfl, rfl⟩ loop eq
    · rintro db exprs rest db₁ holds ⟨counted, turned⟩
      have after := holds.body (all_turn (all_insertOne quiet.triggersIn trivial
        (fun vals _ u _ => trivial) exprs)) turned
      exact ⟨after.slots, rfl, rfl⟩
    · intro db exprs rest db₁ count db' out holds handled _ loop
      obtain ⟨dir, hit, -⟩ := holds.slots
      exact insert_stays quiet hit handled loop

theorem update_failsClean (regular : db.Regular) {stmt : UpdateStatement}
    (runs : (body env (.update stmt)).Runs fns s db db' out)
    (same : Failed out → db.SameRows db') : FailsClean env fns s db (.update stmt) := by
  intro t rows isTab isRows
  have named := regular.named _ t isTab
  have loop := (runs_executeUpdate runs).loop isTab isRows
  generalize isMode : db.writesVersioned = versioned
  refine (updateRows_isLoop quiet).clean_of_sameRows
    (I := fun db rows => rows.Nodup ∧ db.Slots stmt.table versioned db.reader.1
      (fun dir => versioned = false → SelfEqual rows dir))
    ?_ ?_ ⟨collectIndices_nodup (regular.once _ t isTab) isRows,
      ⟨_, slots_of_lookup isTab, ?_⟩, isMode, rfl⟩ loop same
  · rintro db i rest db₁ ⟨once, holds⟩ ⟨counted, turned⟩
    refine ⟨(List.nodup_cons.mp once).2, ?_⟩
    have tail : db.Slots stmt.table versioned db.reader.1
        (fun dir => versioned = false → SelfEqual rest dir) :=
      holds.mono (fun dir selfEqual unversioned j mem =>
        selfEqual unversioned j (List.mem_cons_of_mem i mem))
    have update (vals : List Value) : (Op.update stmt.table i vals).Keeps fns stmt.table
        versioned db.reader.1 (fun dir => versioned = false → SelfEqual rest dir) := by
      intro _ u selfEqual unversioned j mem
      subst unversioned
      have ne : i ≠ j := fun same => (List.nodup_cons.mp once).1 (same ▸ mem)
      exact updateRow_keeps_slot (fun slot => ∀ row, slot = some (some row) →
        ∀ v ∈ row.values, v.eq v = true) ne _ u (selfEqual rfl j mem)
    have after := tail.body (all_updateStep quiet.triggersIn (fun op => acts_keeps named) update) turned
    exact ⟨after.slots, after.versioned, rfl⟩
  · rintro db i rest db₁ count db' out ⟨once, holds⟩ handled changed loop
    obtain ⟨dir, hit, selfEqual⟩ := holds.slots
    cases versioned with
    | true => exact update_stays_versioned quiet named holds.versioned hit handled changed loop
    | false =>
      exact update_stays_inPlace quiet named holds.versioned hit (selfEqual rfl) once handled
        changed loop
  · exact fun _ i _ row isRow =>
      regular.selfEqual _ t isTab row (List.mem_of_getElem? isRow)

theorem delete_failsClean (regular : db.Regular) {stmt : DeleteStatement}
    (runs : (body env (.delete stmt)).Runs fns s db db' out)
    (eq : Failed out → db.SameRows db') : FailsClean env fns s db (.delete stmt) := by
  intro t rows isTab isRows
  have named := regular.named _ t isTab
  have loop := (runs_executeDelete runs).loop isTab isRows
  have permuted := List.mergeSort_perm rows (fun a b => decide (b ≤ a))
  generalize isInTx : db.writesVersioned = inTx at loop
  generalize isXid : db.reader.1 = xid
  refine (deleteRows_isLoop quiet).clean_of_sameRows
    (I := fun db rows => rows.Nodup ∧ db.Slots stmt.table inTx xid
      (fun dir => inTx = true → Unstamped xid rows dir))
    ?_ ?_ ⟨permuted.nodup_iff.mpr (collectIndices_nodup (regular.once _ t isTab) isRows),
      ⟨_, slots_of_lookup isTab, ?_⟩, isInTx, isXid⟩ loop eq
  · rintro db i rest db₁ ⟨once, holds⟩ ⟨counted, turned⟩
    refine ⟨(List.nodup_cons.mp once).2, ?_⟩
    have tail := holds.mono (fun dir free tx j mem =>
      free tx j (List.mem_cons_of_mem i mem))
    refine tail.body (all_deleteStep quiet.triggersIn (fun op => acts_on_delete_keeps named
      (fun j row u free tx => Unstamped.updateRow (free tx) fns j row)) ?_) turned
    intro _ u free tx
    subst tx
    exact Unstamped.deleteRowVersioned (free rfl) (List.nodup_cons.mp once).1
  · rintro db i rest db₁ count db' out ⟨once, holds⟩ handled - loop
    obtain ⟨dir, hit, free⟩ := holds.slots
    cases inTx with
    | true =>
      refine delete_stays_versioned quiet named hit ?_ handled loop
      rw [holds.reader]
      intro j mem
      exact free rfl j (by simp_all)
    | false => exact delete_stays_inPlace quiet named hit handled loop
  · intro tx i mem
    rw [← isXid]
    exact collectIndices_unstamped (regular.ids (isInTx.trans tx)) isRows i
      (permuted.mem_iff.mp mem)

end

theorem all_collect {Q : Op → Prop} (vis : ∀ name, Q (.visible name)) (name : String)
    (t : Table) (cond : Option (Expr Empty)) : (collectMatching env name t cond).All Q :=
  (all_perform (vis name)).bind (fun _ => all_lift _)

/-- The operations of INSERT, UPDATE and DELETE are on rows, apart from those of the triggers. -/
theorem all_body {Q : Op → Prop} (trigs : env.TriggersIn Q) (rows : ∀ op : Op, op.onRows = true → Q op)
    {stmt : Statement} (dml : IsDml stmt) : (body env stmt).All Q := by
  have acts {parent : String} (op : Op) (acts : op.ActsOnUpdate parent) : Q op := by
    cases op with
    | look | updateInPlace name i vals => exact rows _ rfl
    | _ => exact acts.elim
  have actsOnDelete {root : String} (op : Op) (acts : op.ActsOnDelete root) : Q op := by
    cases op with
    | look | updateInPlace name i vals | deleteInPlace name i => exact rows _ rfl
    | _ => exact acts.elim
  have look : Q .look := rows _ rfl
  have collect := @all_collect env Q (fun _ => rows _ rfl)
  cases stmt with
  | insert stmt =>
    refine (all_getTable look).bind (fun hit => ?_)
    cases hit with
    | none => exact all_pure _
    | some t =>
      dsimp only
      split
      · exact all_pure _
      · exact all_insertRows trigs look (fun _ => rows _ rfl) stmt.values 0
  | update stmt =>
    refine (all_getTable look).bind (fun hit => ?_)
    cases hit with
    | none => exact all_pure _
    | some t =>
      refine (collect stmt.table t stmt.whereCondition).bind (fun matching => ?_)
      exact all_updateRows trigs acts (fun _ _ _ => rows _ rfl) 0
  | delete stmt =>
    refine (all_getTable look).bind (fun hit => ?_)
    cases hit with
    | none => exact all_pure _
    | some t =>
      refine (collect stmt.table t stmt.whereCondition).bind (fun matching => ?_)
      refine (all_perform look).bind (fun resp => ?_)
      exact all_deleteRows trigs actsOnDelete (fun _ _ => rows _ rfl) 0
  | _ => exact dml.elim

/-- The operations of INSERT, UPDATE and DELETE, when there are no triggers. -/
theorem all_onRows (quiet : env.NoTriggers) (dml : IsDml stmt) :
    (body env stmt).All (fun op => op.onRows = true) :=
  all_body quiet.triggersIn (fun _ onRows => onRows) dml

theorem responds_of_onRows {op : Op} (onRows : op.onRows = true) : op.Responds fns s := by
  intro db
  cases op with
  | visible name =>
    simp only [Database.perform]
    split
    · rfl
    · split <;> rfl
  | look => rfl
  | insert name vals => rfl
  | update name i vals => rfl
  | delete name i inTx => rfl
  | updateInPlace name i vals => rfl
  | deleteInPlace name i => rfl
  | _ => cases onRows

/-- The operations of INSERT, UPDATE and DELETE never wait. -/
theorem body_runs (quiet : env.NoTriggers) (dml : IsDml stmt) (db : Database) :
    ∃ db' out, (body env stmt).Runs fns s db db' out :=
  (all_onRows quiet dml).ends (fun _ onRows => responds_of_onRows onRows) db

end Failed

/-! ## Rows of NOT NULL columns -/

section Items

open Engine (plainEnv)

/-- A table of ids that are NOT NULL. -/
def item : Table where
  name := "item"
  columns := [⟨"id", .int, false, false, false, none⟩]

/-- `INSERT INTO item VALUES (id), …`. -/
def insertItems (ids : List Value) : Statement :=
  .insert ⟨"item", [], ids.map (fun id => [.literal id])⟩

theorem item_regular : ({ tables := [("item", item)] } : Database).Regular := by
  have only : ∀ name t, ([("item", item)] : Misc.AssocMap String Table).lookup name = some t →
      name = "item" ∧ t = item := by
    intro name t hit
    rw [Misc.lookup_cons_if] at hit
    split at hit
    · rename_i eq
      exact ⟨eq, (Option.some.inj hit).symm⟩
    · cases hit
  refine ⟨?_, ?_, ?_, nofun⟩
  · intro name t hit
    obtain ⟨rfl, rfl⟩ := only name t hit
    rfl
  · intro name t hit idx key
    obtain ⟨-, rfl⟩ := only name t hit
    exact List.nodup_nil
  · intro name t hit row mem
    obtain ⟨-, rfl⟩ := only name t hit
    cases mem

end Items

end Executor

end NobugDb
