import NobugDb.Executor.Proofs.Loops

/-!
# What the turns of a loop change

A row that INSERT, UPDATE or DELETE has handled is a change to its table that no later turn takes
back, and that no referential action touches. In a transaction, and for INSERT and DELETE, every
handled row is such a change; outside one UPDATE may write a row back as it was.
-/

namespace NobugDb

open Body
open Database
open Option (any_some some.inj)

namespace Executor

/-! ## INSERT -/

variable {res : Option QueryResult} {P : List (Option Row) → Prop}

section Insert

variable {env : Env} {fns : Functions} {s : Nat} {db db' : Database} {stmt : InsertStatement}
  {t : Table} {exprs : List (Expr Empty)}

theorem runs_insertOne (quiet : env.NoTriggers)
    (runs : (insertOne env stmt t exprs).Runs fns s db db' (.ok res)) :
    (∃ text, res = some (.errorResult text)) ∨
      res = none ∧ ∃ row db₁ resp,
        (validateForeignKeysOnInsert t row).Runs fns s db db₁ (.ok ()) ∧
        db₁.perform fns s (.insert stmt.table row.values) = some (db', resp) ∧
        resp.outcome = .ok () := by
  obtain ⟨db₁, vals, lifted, next⟩ := runs_bind_ok runs
  obtain ⟨rfl, -⟩ := runs_lift_iff.mp lifted
  cases vals with
  | error text => exact .inl ⟨text, Except.ok.inj (runs_pure_iff.mp next).2⟩
  | ok values =>
    obtain ⟨db₂, _, checked, written⟩ := runs_bind_ok next
    obtain ⟨rfl, resp, ran, ok⟩ := runs_triggers_ok quiet
      (fun new => .insert stmt.table (new.getD _).values) written
    exact .inr ⟨rfl, _, db₂, resp, checked, ran, ok⟩

theorem insertRows_isLoop (quiet : env.NoTriggers) :
    IsLoop fns s (insertStep env stmt t) (insertRows env stmt t) where
  nil := fun count => ⟨_, rfl, rfl⟩
  cons := insertRows_cons env stmt t
  fails := fun db exprs db' res runs => by
    refine runs_turn_failed (fun db db' res runs => ?_) runs
    obtain ⟨text, eq⟩ | ⟨eq, -⟩ := runs_insertOne quiet runs
    · cases eq
      rfl
    · cases eq

theorem all_insertOne {Q : Op → Prop} (trigs : env.TriggersIn Q) (look : Q .look)
    (insert : ∀ values, Q (.insert stmt.table values)) (exprs : List (Expr Empty)) :
    (insertOne env stmt t exprs).All Q := by
  refine (all_lift _).bind (fun vals => ?_)
  cases vals with
  | error text => exact all_pure _
  | ok values =>
    refine (all_fksOnInsert look t _).bind (fun _ => ?_)
    exact all_triggers trigs (fun _ => insert _)

theorem all_insertRows {Q : Op → Prop} (trigs : env.TriggersIn Q) (look : Q .look)
    (insert : ∀ vals, Q (.insert stmt.table vals)) (rows : List (List (Expr Empty)))
    (count : Nat) : (insertRows env stmt t rows count).All Q := by
  induction rows generalizing count with
  | nil => exact all_pure _
  | cons exprs rest ih =>
    rw [insertRows_cons]
    refine (all_turn (all_insertOne trigs look insert exprs)).bind (fun turn => ?_)
    cases turn with
    | inl res => exact all_pure _
    | inr counted => exact ih _

theorem insert_length (fns : Functions) (vers : Bool) (xid : Nat) (vals : List Value)
    (t : Table) :
    ((if vers then t.insertRowVersioned fns ⟨vals, 0, 0⟩ xid
        else t.insertRow fns ⟨vals, 0, 0⟩).1.directory.length = t.directory.length ∧
      (if vers then t.insertRowVersioned fns ⟨vals, 0, 0⟩ xid
        else t.insertRow fns ⟨vals, 0, 0⟩).2 ≠ .ok ()) ∨
    (if vers then t.insertRowVersioned fns ⟨vals, 0, 0⟩ xid
        else t.insertRow fns ⟨vals, 0, 0⟩).1.directory.length = t.directory.length + 1 := by
  have either (row : Row) : ((t.insertRow fns row).1.directory.length = t.directory.length ∧
      (t.insertRow fns row).2 ≠ .ok ()) ∨
      (t.insertRow fns row).1.directory.length = t.directory.length + 1 := by
    rcases t.insertRow_dir fns row with ⟨eq, fail⟩ | appended
    · exact .inl ⟨congrArg List.length eq, fail⟩
    · exact .inr (by simp [appended])
  cases vers
  · exact either _
  · exact either _

theorem insert_keeps_length {vers : Bool} {xid n : Nat} (name : String) (vals : List Value) :
    (Op.insert name vals).Keeps fns name vers xid (n ≤ ·.length) := by
  intro _ t enough
  have := insert_length fns vers xid vals t
  omega

theorem insert_stays (quiet : env.NoTriggers) {rest : List (List (Expr Empty))} {count : Nat}
    {db₁ : Database} {out : Except Exn QueryResult} {directory : List (Option Row)}
    (hit : db.slots stmt.table = some directory)
    (handled : Handles fns s (insertStep env stmt t) db exprs db₁)
    (runs : (insertRows env stmt t rest count).Runs fns s db₁ db' out) : ¬ db.SameRows db' := by
  have start : db.Slots stmt.table db.writesVersioned db.reader.1 (directory.length ≤ ·.length) :=
    ⟨⟨directory, hit, le_rfl⟩, rfl, rfl⟩
  obtain ⟨counted, turned⟩ := handled
  obtain ⟨text, eq⟩ | ⟨-, row, db₂, resp, checked, ran, ok⟩ :=
    runs_insertOne quiet (runs_turn_handled turned)
  · cases eq
  · have before := start.body (all_fksOnInsert trivial t row) checked
    have after : db₁.Slots stmt.table db.writesVersioned db.reader.1
        (directory.length + 1 ≤ ·.length) := by
      refine before.perform_ok (f := fun db t =>
        if db.writesVersioned then t.insertRowVersioned fns ⟨row.values, 0, 0⟩ db.reader.1
        else t.insertRow fns ⟨row.values, 0, 0⟩) (fun _ => rfl) ran ok ?_
      intro t enough succeeded
      have := insert_length fns db₂.writesVersioned db₂.reader.1 row.values t
      simp only [succeeded, ne_eq, not_true_eq_false, and_false, false_or] at this
      omega
    have last := after.body (all_insertRows quiet.triggersIn trivial
      (fun vals => insert_keeps_length stmt.table vals) rest count) runs
    exact last.differs hit (by omega)

end Insert

/-! ## UPDATE -/

section Update

variable {env : Env} {fns : Functions} {s : Nat} {db db' : Database} {stmt : UpdateStatement}
  {t : Table} {i : Nat}

variable {cur : Row} {Q : Op → Prop} {rest : List Nat} {count : Nat} {db₁ : Database}
  {out : Except Exn QueryResult} {directory : List (Option Row)} {new : Row}

theorem runs_updateOne (quiet : env.NoTriggers)
    (runs : (updateOne env stmt t i cur new).Runs fns s db db' (.ok res)) :
    res = none ∧ ∃ db₁ resp,
      (validateForeignKeysOnUpdate env t cur new).Runs fns s db db₁ (.ok ()) ∧
        db₁.perform fns s (.update stmt.table i new.values) = some (db', resp) ∧
        resp.outcome = .ok () := by
  obtain ⟨db₁, _, checked, written⟩ := runs_bind_ok runs
  obtain ⟨rfl, resp, ran, ok⟩ := runs_triggers_ok quiet
    (fun rewritten => .update stmt.table i (rewritten.getD new).values) written
  exact ⟨rfl, db₁, resp, checked, ran, ok⟩

theorem runs_updateStep {r : Except Exn (QueryResult ⊕ Nat)}
    (runs : (updateStep env stmt t i).Runs fns s db db' r) :
    (db' = db ∧ (r = .ok (.inr 0) ∨ ∃ e, r = .error e)) ∨
      ∃ now cur new, db.tables.lookup stmt.table = some now ∧ now.getRow i = .ok cur ∧
        (turn "Update failed: " (updateOne env stmt t i cur new)).Runs fns s db db' r := by
  have next := runs_getTable_bind.mp runs
  split at next
  · obtain ⟨rfl, rfl⟩ := runs_throw_iff.mp next
    exact .inl ⟨rfl, .inr ⟨_, rfl⟩⟩
  · rename_i now isNow
    split at next
    · obtain ⟨rfl, rfl⟩ := runs_pure_iff.mp next
      exact .inl ⟨rfl, .inl rfl⟩
    · obtain ⟨db₂, cur, read, andThen⟩ | ⟨e, read, rfl⟩ := runs_bind_iff.mp next
      · obtain ⟨rfl, isCurrent⟩ := runs_lift_iff.mp read
        obtain ⟨db₃, acc, tested, ends⟩ | ⟨e, tested, rfl⟩ := runs_bind_iff.mp andThen
        · obtain ⟨rfl, -⟩ := runs_lift_iff.mp tested
          split at ends
          · obtain ⟨db₄, new, assigned, turned⟩ | ⟨e, assigned, rfl⟩ := runs_bind_iff.mp ends
            · obtain ⟨rfl, -⟩ := runs_lift_iff.mp assigned
              exact .inr ⟨now, cur, new, isNow, isCurrent.symm, turned⟩
            · exact .inl ⟨(runs_lift_iff.mp assigned).1, .inr ⟨e, rfl⟩⟩
          · obtain ⟨rfl, rfl⟩ := runs_pure_iff.mp ends
            exact .inl ⟨rfl, .inl rfl⟩
        · exact .inl ⟨(runs_lift_iff.mp tested).1, .inr ⟨e, rfl⟩⟩
      · exact .inl ⟨(runs_lift_iff.mp read).1, .inr ⟨e, rfl⟩⟩

theorem updateRows_isLoop (quiet : env.NoTriggers) :
    IsLoop fns s (updateStep env stmt t) (updateRows env stmt t) where
  nil := fun count => ⟨_, rfl, rfl⟩
  cons := updateRows_cons env stmt t
  fails := fun db i db' res runs => by
    rcases runs_updateStep runs with ⟨-, eq | ⟨e, eq⟩⟩ | ⟨now, cur, new, -, -, turned⟩
    · cases eq
    · cases eq
    · refine runs_turn_failed (fun db db' res runs => ?_) turned
      cases (runs_updateOne quiet runs).1

theorem handled_update (quiet : env.NoTriggers)
    (handled : Handles fns s (updateStep env stmt t) db i db') :
    db' = db ∨ ∃ now cur new db₁ resp, db.tables.lookup stmt.table = some now ∧
      now.getRow i = .ok cur ∧
      (validateForeignKeysOnUpdate env t cur new).Runs fns s db db₁ (.ok ()) ∧
      db₁.perform fns s (.update stmt.table i new.values) = some (db', resp) ∧
      resp.outcome = .ok () := by
  obtain ⟨counted, runs⟩ := handled
  rcases runs_updateStep runs with ⟨eq, -⟩ | ⟨now, cur, new, isNow, isCurrent, turned⟩
  · exact .inl eq
  · obtain ⟨-, db₁, resp, checked, ran, ok⟩ :=
      runs_updateOne quiet (runs_turn_handled turned)
    exact .inr ⟨now, cur, new, db₁, resp, isNow, isCurrent, checked, ran, ok⟩

theorem all_fksOnUpdate (trigs : env.TriggersIn Q) (acts : ∀ op, op.ActsOnUpdate t.name → Q op)
    (cur new : Row) : (validateForeignKeysOnUpdate env t cur new).All Q :=
  (all_fksOnInsert (acts .look trivial) t new).bind
    (fun _ => all_referentialUpdate trigs acts cur new)

theorem all_updateStep (trigs : env.TriggersIn Q) (acts : ∀ op, op.ActsOnUpdate t.name → Q op)
    (update : ∀ vals, Q (.update stmt.table i vals)) : (updateStep env stmt t i).All Q := by
  refine (all_getTable (acts .look trivial)).bind (fun hit => ?_)
  cases hit with
  | none => exact all_throw _
  | some now =>
    dsimp only
    split
    · exact all_pure _
    · refine (all_lift _).bind (fun cur => ?_)
      refine (all_lift _).bind (fun acc => ?_)
      split
      · refine (all_lift _).bind (fun new => all_turn ?_)
        refine (all_fksOnUpdate trigs acts cur new).bind (fun _ => ?_)
        exact all_triggers trigs (fun _ => update _)
      · exact all_pure _

theorem all_updateRows (trigs : env.TriggersIn Q) (acts : ∀ op, op.ActsOnUpdate t.name → Q op)
    {rows : List Nat} (update : ∀ i ∈ rows, ∀ vals, Q (.update stmt.table i vals)) (count : Nat) :
    (updateRows env stmt t rows count).All Q := by
  induction rows generalizing count with
  | nil => exact all_pure _
  | cons i rest ih =>
    rw [updateRows_cons]
    refine (all_updateStep trigs acts (update i (by simp))).bind (fun turn => ?_)
    cases turn with
    | inl res => exact all_pure _
    | inr counted => exact ih (fun i mem => update i (by simp [mem])) _

/-- The old and new values of a key that stays the same are equal, when values equal themselves. -/
theorem updatedKey_same {parent : Table} (same : new.values = cur.values)
    (selfEqual : ∀ v ∈ cur.values, v.eq v = true) {cols : List String}
    {key : List (Value × Value)} (isKey : updatedKey parent cur new cols = .ok (some key)) :
    key.all (fun p => p.1.eq p.2) = true := by
  induction cols generalizing key with
  | nil =>
    cases isKey
    rfl
  | cons col cols ih =>
    unfold updatedKey at isKey
    cases col : parent.getColumnIndex col with
    | none =>
      simp only [col] at isKey
      cases isKey
    | some j =>
      have sameValue : new.getValue j = cur.getValue j := by
        simp only [Row.getValue, Row.getValue?, same]
      simp only [col, sameValue] at isKey
      obtain ⟨v, isVal, isKey⟩ := Exn.bind_eq_ok isKey
      rw [isVal] at isKey
      obtain ⟨_, ⟨⟩, isKey⟩ := Exn.bind_eq_ok isKey
      split at isKey
      · cases isKey
      · obtain ⟨rest, isRest, isKey⟩ := Exn.bind_eq_ok isKey
        cases rest with
        | none => cases isKey
        | some rest =>
          cases isKey
          have inRow : v ∈ cur.values := by
            unfold Row.getValue at isVal
            split at isVal
            · rename_i stored
              cases isVal
              exact List.mem_of_getElem? stored
            · cases isVal
          rw [List.all_cons, selfEqual v inRow, ih isRest]
          rfl

theorem all_look_of_same (same : new.values = cur.values)
    (selfEqual : ∀ v ∈ cur.values, v.eq v = true) :
    (validateForeignKeysOnUpdate env t cur new).All (· = .look) := by
  refine (all_fksOnInsert (Q := (· = .look)) rfl t new).bind (fun _ => ?_)
  refine (all_perform (Q := (· = .look)) rfl).bind (fun resp => ?_)
  dsimp only
  split
  · exact all_pure _
  · refine all_forEach (fun e _ => all_lift_bind (fun key isKey => ?_))
    cases key with
    | none => exact all_pure _
    | some key =>
      dsimp only
      rw [if_pos (updatedKey_same same selfEqual isKey)]
      exact all_pure _

theorem eq_of_all_look {α : Type} {body : Body α} {r : Except Exn α}
    (all : body.All (· = .look)) (runs : body.Runs fns s db db' r) : db' = db := by
  refine all.keeps (I := (· = db)) (fun db₁ op db₂ resp looks ran eq => ?_) runs rfl
  subst looks
  cases ran
  exact eq

theorem acts_keeps {versioned : Bool} {xid : Nat}
    (named : t.name = stmt.table) {op : Op} (acts : op.ActsOnUpdate t.name) :
    op.Keeps fns stmt.table versioned xid P := by
  rw [named] at acts
  cases op with
  | look => trivial
  | updateInPlace name i vals => exact fun eq => absurd eq acts
  | _ => exact acts.elim

/-- An UPDATE in a transaction that has handled a row has stored one more version. -/
theorem update_stays_versioned (quiet : env.NoTriggers) (named : t.name = stmt.table)
    (vers : db.writesVersioned = true) (hit : db.slots stmt.table = some directory)
    (handled : Handles fns s (updateStep env stmt t) db i db₁) (changed : ¬ db.SameRows db₁)
    (runs : (updateRows env stmt t rest count).Runs fns s db₁ db' out) : ¬ db.SameRows db' := by
  have start : db.Slots stmt.table true db.reader.1 (directory.length ≤ ·.length) :=
    ⟨⟨directory, hit, le_rfl⟩, vers, rfl⟩
  rcases handled_update quiet handled with
    rfl | ⟨now, cur, new, db₂, resp, -, -, checked, ran, ok⟩
  · exact absurd (.refl db₁) changed
  · have before := start.body
      (all_fksOnUpdate quiet.triggersIn (fun op => acts_keeps named) cur new) checked
    have after : db₁.Slots stmt.table true db.reader.1 (directory.length + 1 ≤ ·.length) := by
      refine before.perform_ok (f := fun db t =>
        if db.writesVersioned then t.updateRowVersioned fns i ⟨new.values, 0, 0⟩ db.reader.1
        else t.updateRow fns i ⟨new.values, 0, 0⟩) (fun _ => rfl) ran ok ?_
      intro t enough succeeded
      simp only [before.versioned, if_true] at succeeded ⊢
      have := t.updateVersion_length fns i ⟨new.values, 0, 0⟩ db₂.reader.1
      simp only [succeeded, ne_eq, not_true_eq_false, and_false, false_or] at this
      omega
    have last := after.body (all_updateRows quiet.triggersIn (fun op => acts_keeps named)
      (fun j _ vals => by
        intro _ t enough
        have := t.updateVersion_length fns j ⟨vals, 0, 0⟩ db.reader.1
        simp only [if_true]
        omega) count) runs
    exact last.differs hit (by omega)

theorem updateRow_keeps_slot (p : Option (Option Row) → Prop) {j : Nat} (ne : j ≠ i) (row : Row)
    (u : Table) (holds : p u.directory[i]?) : p (u.updateRow fns j row).1.directory[i]? := by
  rcases u.updateRow_dir fns j row with ⟨eq, -⟩ | ⟨old, -, eq | ⟨eq, -⟩⟩
  · rw [eq]
    exact holds
  · rw [eq, List.getElem?_set_ne ne]
    exact holds
  · rw [eq, List.getElem?_set_ne ne]
    exact holds

/-- The values of the rows at these positions equal themselves: no NaN and no infinity. -/
def SelfEqual (rows : List Nat) (directory : List (Option Row)) : Prop :=
  ∀ i ∈ rows, ∀ row, directory[i]? = some (some row) → ∀ v ∈ row.values, v.eq v = true

/-- The slot of a row that UPDATE outside a transaction has changed stays changed. -/
theorem update_stays_inPlace (quiet : env.NoTriggers) (named : t.name = stmt.table)
    (unversioned : db.writesVersioned = false) (hit : db.slots stmt.table = some directory)
    (selfEqual : SelfEqual (i :: rest) directory) (once : (i :: rest).Nodup)
    (handled : Handles fns s (updateStep env stmt t) db i db₁) (changed : ¬ db.SameRows db₁)
    (runs : (updateRows env stmt t rest count).Runs fns s db₁ db' out) : ¬ db.SameRows db' := by
  have start : db.Slots stmt.table false db.reader.1 (· = directory) :=
    ⟨⟨directory, hit, rfl⟩, unversioned, rfl⟩
  rcases handled_update quiet handled with
    rfl | ⟨now, cur, new, db₂, resp, isNow, isCurrent, checked, ran, ok⟩
  · exact absurd (.refl db₁) changed
  · have stored : directory[i]? = some (some cur) := by
      have := Table.getRow_eq_ok_iff.mp isCurrent
      rw [slots, isNow] at hit
      rwa [← some.inj hit]
    have before := start.body
      (all_fksOnUpdate quiet.triggersIn (fun op => acts_keeps named) cur new) checked
    have after : db₁.Slots stmt.table false db.reader.1
        (· = directory.set i (some ⟨new.values, cur.xmin, cur.xmax⟩)) := by
      refine before.perform_ok (f := fun db t =>
        if db.writesVersioned then t.updateRowVersioned fns i ⟨new.values, 0, 0⟩ db.reader.1
        else t.updateRow fns i ⟨new.values, 0, 0⟩) (fun _ => rfl) ran ok ?_
      intro u isDirectory succeeded
      simp only [before.versioned, Bool.false_eq_true, if_false] at succeeded ⊢
      rcases u.updateRow_dir fns i ⟨new.values, 0, 0⟩ with
        ⟨-, fail⟩ | ⟨old, isOld, eq | ⟨-, fail⟩⟩
      · exact absurd succeeded fail
      · rw [isDirectory, stored] at isOld
        cases isOld
        rw [eq, isDirectory]
      · exact absurd succeeded fail
    by_cases sameValues : new.values = cur.values
    · -- The row was written back as it was, so nothing has changed.
      refine absurd (fun name => ?_) changed
      have unchanged : db₂ = db := eq_of_all_look
        (all_look_of_same sameValues (selfEqual i (by simp) cur stored)) checked
      subst unchanged
      by_cases isTarget : name = stmt.table
      · obtain ⟨final, isFinal, eq⟩ := after.slots
        rw [isTarget, isFinal, eq, hit, sameValues]
        refine congrArg some ?_
        obtain ⟨isIn, isStored⟩ := List.getElem?_eq_some_iff.mp stored
        rw [← isStored, List.set_getElem_self]
      · have eq : (db₂.write stmt.table _).1 = db₁ := congrArg Prod.fst (some.inj ran)
        rw [← eq]
        exact (write_slots _ _ _).trans (if_neg isTarget)
    · have last := (after.mono (fun final eq => by
          rw [eq]
          show ((directory.set i _)[i]? ≠ directory[i]?)
          rw [stored, List.getElem?_set_self (List.getElem?_eq_some_iff.mp stored).1]
          intro equal
          have written := congrArg Row.values (some.inj (some.inj equal))
          exact sameValues written)).body (P := fun final => final[i]? ≠ directory[i]?)
        (all_updateRows quiet.triggersIn (fun op => acts_keeps named) (fun j mem vals => by
          intro _ u holds
          have ne : j ≠ i := fun eq => (List.nodup_cons.mp once).1 (eq ▸ mem)
          exact updateRow_keeps_slot (· ≠ directory[i]?) ne _ u holds) count) runs
      exact last.differs hit (fun differs => differs rfl)

end Update

/-! ## DELETE -/

section Delete

variable {env : Env} {fns : Functions} {s : Nat} {db db' : Database} {stmt : DeleteStatement}
  {t : Table} {inTx : Bool} {i : Nat}

variable {Q : Op → Prop} {rest : List Nat} {count : Nat} {db₁ : Database}
  {out : Except Exn QueryResult} {directory : List (Option Row)}

theorem runs_deleteOne (quiet : env.NoTriggers)
    (runs : (deleteOne env stmt t inTx i).Runs fns s db db' (.ok res)) :
    res = none ∧ ∃ row db₁ resp,
      (validateForeignKeysOnDelete env t row).Runs fns s db db₁ (.ok ()) ∧
        db₁.perform fns s (.delete stmt.table i inTx) = some (db', resp) ∧
        resp.outcome = .ok () := by
  obtain ⟨db₀, row, read, next⟩ := runs_bind_ok runs
  have unchanged : db₀ = db :=
    eq_of_all_look (all_currentRow (Q := (· = .look)) rfl stmt.table i) read
  subst unchanged
  obtain ⟨db₁, _, checked, written⟩ := runs_bind_ok next
  obtain ⟨rfl, resp, ran, ok⟩ := runs_triggers_ok quiet (fun _ => .delete stmt.table i inTx) written
  exact ⟨rfl, row, db₁, resp, checked, ran, ok⟩

theorem deleteRows_isLoop (quiet : env.NoTriggers) :
    IsLoop fns s (deleteStep env stmt t inTx) (deleteRows env stmt t inTx) where
  nil := fun count => ⟨_, rfl, rfl⟩
  cons := deleteRows_cons env stmt t inTx
  fails := fun db i db' res runs => by
    refine runs_turn_failed (fun db db' res runs => ?_) runs
    cases (runs_deleteOne quiet runs).1

theorem all_fksOnDelete (trigs : env.TriggersIn Q) (acts : ∀ op, op.ActsOnDelete t.name → Q op)
    (row : Row) : (validateForeignKeysOnDelete env t row).All Q :=
  (all_perform (acts .look trivial)).bind
    (fun _ => all_referentialDelete trigs acts _ t.name row [] (by simp))

theorem all_deleteStep (trigs : env.TriggersIn Q) (acts : ∀ op, op.ActsOnDelete t.name → Q op)
    (delete : Q (.delete stmt.table i inTx)) : (deleteStep env stmt t inTx i).All Q := by
  refine all_turn ((all_currentRow (acts .look trivial) stmt.table i).bind (fun row => ?_))
  refine (all_fksOnDelete trigs acts row).bind (fun _ => ?_)
  exact all_triggers trigs (fun _ => delete)

theorem all_deleteRows (trigs : env.TriggersIn Q) (acts : ∀ op, op.ActsOnDelete t.name → Q op)
    {rows : List Nat} (delete : ∀ i ∈ rows, Q (.delete stmt.table i inTx)) (count : Nat) :
    (deleteRows env stmt t inTx rows count).All Q := by
  induction rows generalizing count with
  | nil => exact all_pure _
  | cons i rest ih =>
    rw [deleteRows_cons]
    refine (all_deleteStep trigs acts (delete i (by simp))).bind (fun turn => ?_)
    cases turn with
    | inl res => exact all_pure _
    | inr counted => exact ih (fun i mem => delete i (by simp [mem])) _

theorem acts_on_delete_keeps {versioned : Bool} {xid : Nat} (named : t.name = stmt.table)
    (update : ∀ j row, ∀ u : Table, P u.directory → P (u.updateRow fns j row).1.directory)
    {op : Op} (acts : op.ActsOnDelete t.name) : op.Keeps fns stmt.table versioned xid P := by
  rw [named] at acts
  cases op with
  | look => trivial
  | updateInPlace name j vals => exact fun _ u => update j _ u
  | deleteInPlace name j => exact fun eq => absurd eq acts
  | _ => exact acts.elim

theorem updateRow_length (fns : Functions) (u : Table) (j : Nat) (row : Row) :
    (u.updateRow fns j row).1.directory.length = u.directory.length := by
  rcases u.updateRow_dir fns j row with ⟨eq, -⟩ | ⟨old, -, eq | ⟨eq, -⟩⟩ <;> simp [eq]

/-- A DELETE outside a transaction that has handled a row has one slot less. -/
theorem delete_stays_inPlace (quiet : env.NoTriggers) (named : t.name = stmt.table)
    (hit : db.slots stmt.table = some directory)
    (handled : Handles fns s (deleteStep env stmt t false) db i db₁)
    (runs : (deleteRows env stmt t false rest count).Runs fns s db₁ db' out) : ¬ db.SameRows db' := by
  have start : db.Slots stmt.table db.writesVersioned db.reader.1 (·.length ≤ directory.length) :=
    ⟨⟨directory, hit, le_rfl⟩, rfl, rfl⟩
  obtain ⟨counted, turned⟩ := handled
  obtain ⟨-, row, db₂, resp, checked, ran, ok⟩ :=
    runs_deleteOne quiet (runs_turn_handled turned)
  have before := start.body (all_fksOnDelete quiet.triggersIn
    (fun op => acts_on_delete_keeps named (fun j row u holds => by
      rw [updateRow_length]
      exact holds)) row) checked
  have after : db₁.Slots stmt.table db.writesVersioned db.reader.1 (·.length < directory.length) := by
    refine before.perform_ok (f := fun _ t => t.deleteRow i) (fun _ => rfl) ran ok ?_
    intro u enough succeeded
    rcases u.deleteRow_dir i with ⟨-, fail⟩ | ⟨isIn, eq⟩
    · exact absurd succeeded fail
    · rw [eq, List.length_eraseIdx_of_lt isIn]
      omega
  have last := after.body (all_deleteRows quiet.triggersIn
    (fun op => acts_on_delete_keeps named (fun j row u holds => by
      rw [updateRow_length]
      exact holds))
    (fun j _ => by
      intro _ u holds
      rcases u.deleteRow_dir j with ⟨eq, -⟩ | ⟨isIn, eq⟩
      · show (u.deleteRow j).1.directory.length < _
        rw [eq]
        exact holds
      · show (u.deleteRow j).1.directory.length < _
        rw [eq, List.length_eraseIdx_of_lt isIn]
        omega) count) runs
  exact last.differs hit (by omega)

/-- The number of row versions that `xid` has not deleted. -/
def unstamped (xid : Nat) (directory : List (Option Row)) : Nat :=
  directory.countP (fun slot => slot.any (fun row => row.xmax != xid))

/-- The rows at these positions are not deleted by `xid`. -/
def Unstamped (xid : Nat) (rows : List Nat) (directory : List (Option Row)) : Prop :=
  ∀ i ∈ rows, ∀ row, directory[i]? = some (some row) → row.xmax ≠ xid

section Stamps

variable {xid : Nat} {directory : List (Option Row)} {old : Row}

theorem unstamped_set_le (stored : directory[i]? = some (some old)) {slot : Option Row}
    (stamp : slot.any (fun row => row.xmax != xid) = true → old.xmax ≠ xid) :
    unstamped xid (directory.set i slot) ≤ unstamped xid directory := by
  obtain ⟨isIn, isOld⟩ := List.getElem?_eq_some_iff.mp stored
  unfold unstamped
  rw [List.countP_set isIn, isOld]
  by_cases free : old.xmax = xid
  · have stamped : ¬ slot.any (fun row => row.xmax != xid) = true := fun h => stamp h free
    simp [free, stamped]
  · have counted : 0 < directory.countP (fun slot => slot.any (fun row => row.xmax != xid)) := by
      refine List.countP_pos_iff.mpr ⟨some old, List.mem_of_getElem? stored, ?_⟩
      simpa using free
    simp only [any_some, bne_iff_ne, ne_eq, free, not_false_eq_true, if_true]
    split <;> omega

theorem unstamped_set_lt (stored : directory[i]? = some (some old)) (free : old.xmax ≠ xid) :
    unstamped xid (directory.set i (some (old.setXmax xid))) < unstamped xid directory := by
  obtain ⟨isIn, isOld⟩ := List.getElem?_eq_some_iff.mp stored
  have counted : 0 < directory.countP (fun slot => slot.any (fun row => row.xmax != xid)) := by
    refine List.countP_pos_iff.mpr ⟨some old, List.mem_of_getElem? stored, ?_⟩
    simpa using free
  unfold unstamped
  rw [List.countP_set isIn, isOld]
  simp only [any_some, bne_iff_ne, ne_eq, free, not_false_eq_true, if_true, Row.setXmax,
    not_true_eq_false, if_false]
  omega

variable {rows : List Nat}

theorem Unstamped.set (free : Unstamped xid rows directory) {slot : Option Row}
    (stamp : i ∈ rows → ∀ row, slot = some row → row.xmax ≠ xid) :
    Unstamped xid rows (directory.set i slot) := by
  intro j mem row isRow
  rw [List.getElem?_set] at isRow
  split at isRow
  · rename_i eq
    subst eq
    split at isRow
    · exact stamp mem row (some.inj isRow)
    · cases isRow
  · exact free j mem row isRow

theorem updateRow_unstamped_le (fns : Functions) (u : Table) (j : Nat) (row : Row) :
    unstamped xid (u.updateRow fns j row).1.directory ≤ unstamped xid u.directory := by
  rcases u.updateRow_dir fns j row with ⟨eq, -⟩ | ⟨old, stored, eq | ⟨eq, -⟩⟩
  · rw [eq]
  · rw [eq]
    exact unstamped_set_le stored (fun h => by simpa using h)
  · rw [eq]
    exact unstamped_set_le stored nofun

theorem Unstamped.updateRow {u : Table} (free : Unstamped xid rows u.directory) (fns : Functions)
    (j : Nat) (row : Row) : Unstamped xid rows (u.updateRow fns j row).1.directory := by
  rcases u.updateRow_dir fns j row with ⟨eq, -⟩ | ⟨old, stored, eq | ⟨eq, -⟩⟩
  · rw [eq]
    exact free
  · rw [eq]
    refine free.set (fun mem written isWritten => ?_)
    cases isWritten
    exact free j mem old stored
  · rw [eq]
    exact free.set (fun _ _ => nofun)

theorem deleteVersion_unstamped_le (u : Table) (j : Nat) :
    unstamped xid (u.deleteRowVersioned j xid).1.directory ≤ unstamped xid u.directory := by
  rcases u.deleteVersion_dir j xid with ⟨eq, -⟩ | ⟨old, stored, eq | ⟨eq, -⟩⟩
  · rw [eq]
  · rw [eq]
    exact unstamped_set_le stored (fun h => by simp [Row.setXmax] at h)
  · rw [eq]
    exact unstamped_set_le stored nofun

theorem Unstamped.deleteRowVersioned {u : Table} (free : Unstamped xid rows u.directory) {j : Nat}
    (ne : j ∉ rows) : Unstamped xid rows (u.deleteRowVersioned j xid).1.directory := by
  rcases u.deleteVersion_dir j xid with ⟨eq, -⟩ | ⟨old, -, eq | ⟨eq, -⟩⟩
  · rw [eq]
    exact free
  · rw [eq]
    exact free.set (fun mem => absurd mem ne)
  · rw [eq]
    exact free.set (fun mem => absurd mem ne)

end Stamps

/-- A DELETE in a transaction that has handled a row has stamped one more version. -/
theorem delete_stays_versioned (quiet : env.NoTriggers) (named : t.name = stmt.table)
    (hit : db.slots stmt.table = some directory)
    (free : Unstamped db.reader.1 [i] directory)
    (handled : Handles fns s (deleteStep env stmt t true) db i db₁)
    (runs : (deleteRows env stmt t true rest count).Runs fns s db₁ db' out) : ¬ db.SameRows db' := by
  generalize isXid : db.reader.1 = xid at free
  have start : db.Slots stmt.table db.writesVersioned xid (fun now =>
      unstamped xid now ≤ unstamped xid directory ∧ Unstamped xid [i] now) :=
    ⟨⟨directory, hit, le_rfl, free⟩, rfl, isXid⟩
  obtain ⟨counted, turned⟩ := handled
  obtain ⟨-, row, db₂, resp, checked, ran, ok⟩ :=
    runs_deleteOne quiet (runs_turn_handled turned)
  have before := start.body (all_fksOnDelete quiet.triggersIn
    (fun op => acts_on_delete_keeps named (fun j row u holds =>
      ⟨(updateRow_unstamped_le fns u j row).trans holds.1, holds.2.updateRow fns j row⟩)) row) checked
  have after : db₁.Slots stmt.table db.writesVersioned xid
      (unstamped xid · < unstamped xid directory) := by
    refine before.perform_ok (f := fun db t => t.deleteRowVersioned i db.reader.1) (fun _ => rfl)
      ran ok ?_
    intro u holds succeeded
    simp only [before.reader] at succeeded ⊢
    rcases u.deleteVersion_dir i xid with ⟨-, fail⟩ | ⟨old, stored, eq | ⟨-, fail⟩⟩
    · exact absurd succeeded fail
    · rw [eq]
      exact (unstamped_set_lt stored (holds.2 i (by simp) old stored)).trans_le holds.1
    · exact absurd succeeded fail
  have last := after.body (all_deleteRows quiet.triggersIn
    (fun op => acts_on_delete_keeps named (fun j row u holds =>
      (updateRow_unstamped_le fns u j row).trans_lt holds))
    (fun j _ _ u holds => (deleteVersion_unstamped_le u j).trans_lt holds) count) runs
  exact last.differs hit (by omega)

end Delete

end Executor

end NobugDb
