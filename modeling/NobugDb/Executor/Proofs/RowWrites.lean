import NobugDb.Core.Proofs.Slots
import NobugDb.Executor.Proofs.BodyRuns

/-!
# The row writes of INSERT, UPDATE and DELETE

Which operations the executors and the referential actions perform, when there are no triggers,
and what they leave of the rows of one table.
-/

namespace NobugDb

open Misc (AssocMap)
open Body

variable {P' : List (Option Row) → Prop}

namespace Database

variable {fns : Functions} {s : Nat} {db db' : Database} {target : String}

/-- The slots of a table satisfy `P`; rows are written for the reader `xid`, in versions or not. -/
structure Slots (target : String) (versioned : Bool) (xid : Nat) (P : List (Option Row) → Prop)
    (db : Database) : Prop where
  slots : ∃ directory, db.slots target = some directory ∧ P directory
  versioned : db.writesVersioned = versioned
  reader : db.reader.1 = xid

variable {versioned : Bool} {xid : Nat} {P : List (Option Row) → Prop}
  {f : Table → Table × Except Exn Unit}

theorem Slots.mono (holds : db.Slots target versioned xid P)
    (weaker : ∀ dir, P dir → P' dir) : db.Slots target versioned xid P' := by
  obtain ⟨dir, hit, p⟩ := holds.slots
  exact ⟨⟨dir, hit, weaker dir p⟩, holds.versioned, holds.reader⟩

theorem Slots.differs {before : Database} {dir : List (Option Row)}
    (hit : before.slots target = some dir) (ne : ¬ P dir)
    (holds : db.Slots target versioned xid P) : ¬ before.SameRows db := by
  intro eq
  obtain ⟨now, isNow, p⟩ := holds.slots
  rw [eq, hit] at isNow
  exact ne (Option.some.inj isNow ▸ p)

theorem write_session (name : String) (f : Table → Table × Except Exn Unit) :
    (db.write name f).1.writesVersioned = db.writesVersioned ∧
      (db.write name f).1.reader = db.reader := by
  unfold Database.write
  split <;> exact ⟨rfl, rfl⟩

theorem Slots.write {name : String} (holds : db.Slots target versioned xid P)
    (keeps : name = target → ∀ t, P t.directory → P (f t).1.directory) :
    (db.write name f).1.Slots target versioned xid P := by
  obtain ⟨sameMode, sameReader⟩ := @write_session db name f
  refine ⟨?_, sameMode.trans holds.versioned, (congrArg Prod.fst sameReader).trans holds.reader⟩
  obtain ⟨dir, hit, p⟩ := holds.slots
  rw [write_slots]
  split
  · rename_i eq
    obtain ⟨t, isTab, rfl⟩ := Option.map_eq_some_iff.mp hit
    rw [eq] at isTab
    exact ⟨_, by rw [isTab]; rfl, keeps eq.symm t p⟩
  · exact ⟨dir, hit, p⟩

theorem Slots.write_ok
    (holds : db.Slots target versioned xid P) (ok : (db.write target f).2.outcome = .ok ())
    (gives : ∀ t, P t.directory → (f t).2 = .ok () → P' (f t).1.directory) :
    (db.write target f).1.Slots target versioned xid P' := by
  obtain ⟨dir, hit, p⟩ := holds.slots
  obtain ⟨t, isTab, rfl⟩ := Option.map_eq_some_iff.mp hit
  have succeeded : (f t).2 = .ok () := by
    rw [write_found isTab] at ok
    exact ok
  obtain ⟨sameMode, sameReader⟩ := @write_session db target f
  refine ⟨?_, sameMode.trans holds.versioned, (congrArg Prod.fst sameReader).trans holds.reader⟩
  rw [write_slots, if_pos rfl, isTab]
  exact ⟨_, rfl, gives t p succeeded⟩

end Database

/-- The operation reads, or it writes rows in such a way that the slots of the table still
    satisfy `P`. -/
def Op.Keeps (fns : Functions) (target : String) (versioned : Bool) (xid : Nat)
    (P : List (Option Row) → Prop) : Op → Prop
  | .look | .visible _ => True
  | .insert name values => name = target → ∀ t : Table, P t.directory →
      P (if versioned then t.insertRowVersioned fns ⟨values, 0, 0⟩ xid
        else t.insertRow fns ⟨values, 0, 0⟩).1.directory
  | .update name i values => name = target → ∀ t : Table, P t.directory →
      P (if versioned then t.updateRowVersioned fns i ⟨values, 0, 0⟩ xid
        else t.updateRow fns i ⟨values, 0, 0⟩).1.directory
  | .delete name i inTx => name = target → ∀ t : Table, P t.directory →
      P (if inTx then t.deleteRowVersioned i xid else t.deleteRow i).1.directory
  | .updateInPlace name i values => name = target → ∀ t : Table, P t.directory →
      P (t.updateRow fns i ⟨values, 0, 0⟩).1.directory
  | .deleteInPlace name i => name = target → ∀ t : Table, P t.directory →
      P (t.deleteRow i).1.directory
  | _ => False

namespace Database

variable {fns : Functions} {s : Nat} {db db' : Database} {target : String} {versioned : Bool}
  {xid : Nat} {P : List (Option Row) → Prop} {op : Op} {resp : Response}

theorem Slots.perform (keeps : op.Keeps fns target versioned xid P)
    (ran : db.perform fns s op = some (db', resp))
    (holds : db.Slots target versioned xid P) : db'.Slots target versioned xid P := by
  have state : ∀ {res : Database × Response}, some res = some (db', resp) →
      res.1 = db' := fun h => congrArg Prod.fst (Option.some.inj h)
  cases op with
  | look =>
    rw [← state ran]
    exact holds
  | visible name =>
    simp only [Database.perform] at ran
    split at ran
    · rw [← state ran]
      exact holds
    · split at ran <;> (rw [← state ran]; exact holds)
  | insert name vals | update name i vals =>
    rw [← state ran]
    rw [Op.Keeps, ← holds.versioned, ← holds.reader] at keeps
    exact holds.write keeps
  | delete name i inTx =>
    rw [← state ran]
    rw [Op.Keeps, ← holds.reader] at keeps
    exact holds.write keeps
  | updateInPlace name i vals | deleteInPlace name i =>
    rw [← state ran]
    exact holds.write keeps
  | _ => exact keeps.elim

theorem Slots.perform_ok {f : Database → Table → Table × Except Exn Unit}
    (writes : ∀ db : Database, db.perform fns s op = some (db.write target (f db)))
    (ran : db.perform fns s op = some (db', resp)) (ok : resp.outcome = .ok ())
    (holds : db.Slots target versioned xid P)
    (gives : ∀ t, P t.directory → (f db t).2 = .ok () → P' (f db t).1.directory) :
    db'.Slots target versioned xid P' := by
  have eq : db.write target (f db) = (db', resp) :=
    Option.some.inj ((writes db).symm.trans ran)
  have written := @write_ok P' db target versioned xid P (f db) holds
  rw [eq] at written
  exact written ok gives

theorem Slots.body {α : Type} {body : Body α} {r : Except Exn α}
    (all : body.All (Op.Keeps fns target versioned xid P)) (runs : body.Runs fns s db db' r)
    (holds : db.Slots target versioned xid P) : db'.Slots target versioned xid P :=
  all.keeps (fun _ _ _ _ keeps ran holds => holds.perform keeps ran) runs holds

end Database

/-! ## The operations of foreign keys -/

def Env.NoTriggers (env : Env) : Prop :=
  env.fireTriggers = fun _ _ _ _ new => pure (QueryResult.successResult "OK", new)

/-- The triggers perform no other operations than those of `Q`. -/
def Env.TriggersIn (env : Env) (Q : Op → Prop) : Prop :=
  ∀ timing event name old new, (env.fireTriggers timing event name old new).All Q

theorem Env.NoTriggers.triggersIn {env : Env} {Q : Op → Prop} (quiet : env.NoTriggers) :
    env.TriggersIn Q := by
  intro timing event name old new
  rw [quiet]
  exact all_pure _

namespace Op

/-- The operation looks, or updates rows of another table than `parent` in place. -/
def ActsOnUpdate (parent : String) : Op → Prop
  | .look => True
  | .updateInPlace name _ _ => name ≠ parent
  | _ => False

/-- The operation looks, updates rows in place, or deletes rows of another table than `root`. -/
def ActsOnDelete (root : String) : Op → Prop
  | .look | .updateInPlace _ _ _ => True
  | .deleteInPlace name _ => name ≠ root
  | _ => False

end Op

namespace Database

variable {env : Env} {Q : Op → Prop}

variable {name : String} {i : Nat}

theorem all_fireOrThrow (trigs : env.TriggersIn Q) (timing : TriggerTiming) (event : TriggerEvent)
    (name : String) (old new : Option Row) : (fireOrThrow env timing event name old new).All Q := by
  refine (trigs timing event name old new).bind (fun res => ?_)
  dsimp only
  split
  · exact all_pure _
  · exact all_throw _

theorem all_currentRow (look : Q .look) (name : String) (i : Nat) : (currentRow name i).All Q := by
  refine (all_getTable look).bind (fun hit => ?_)
  cases hit with
  | none => exact all_throw _
  | some t => exact all_lift _

theorem all_updateChild (trigs : env.TriggersIn Q)
    (update : ∀ vals, Q (.updateInPlace name i vals)) (old new : Row) :
    (updateChild env name i old new).All Q := by
  refine (all_fireOrThrow trigs _ _ _ _ _).bind (fun new' => ?_)
  refine (all_perform (update _)).bind (fun _ => ?_)
  exact (all_fireOrThrow trigs _ _ _ _ _).bind (fun _ => all_pure _)

theorem all_setNullOnChild (trigs : env.TriggersIn Q) (look : Q .look)
    (update : ∀ vals, Q (.updateInPlace name i vals)) (child : Table) (fk : ForeignKey) :
    (setNullOnChild env name child fk i).All Q := by
  refine (all_currentRow look name i).bind (fun old => ?_)
  exact (all_lift _).bind (fun new => all_updateChild trigs update old new)

theorem all_setDefault (look : Q .look) (update : ∀ vals, Q (.updateInPlace name i vals))
    (child : Table) (fk : ForeignKey) : (applySetDefaultOnChild name child fk i).All Q := by
  refine (all_currentRow look name i).bind (fun old => ?_)
  refine (all_lift _).bind (fun new => ?_)
  exact (all_perform (update _)).bind (fun _ => all_pure _)

theorem all_fksOnInsert (look : Q .look) (t : Table) (row : Row) :
    (validateForeignKeysOnInsert t row).All Q := by
  refine all_forEach (fun fk _ => ?_)
  refine (all_lift _).bind (fun key => ?_)
  cases key with
  | none => exact all_pure _
  | some vals =>
    refine (all_perform look).bind (fun resp => ?_)
    refine (all_lift _).bind (fun hit => ?_)
    split
    · exact all_throw _
    · exact all_pure _

theorem all_updateReferencing (trigs : env.TriggersIn Q) (look : Q .look)
    (update : ∀ i vals, Q (.updateInPlace name i vals)) (child : Table) (fk : ForeignKey)
    (key : List (Value × Value)) : (updateReferencing env name child fk key).All Q := by
  refine (all_perform look).bind (fun resp => ?_)
  refine (all_lift _).bind (fun rows => ?_)
  split
  · exact all_pure _
  · split
    · exact all_throw _
    · exact all_forEach (fun i _ => all_setNullOnChild trigs look (update i) child fk)
    · exact all_forEach (fun i _ => all_setDefault look (update i) child fk)
    · refine all_forEach (fun i _ => ?_)
      refine (all_currentRow look name i).bind (fun old => ?_)
      exact (all_lift _).bind (fun new => all_updateChild trigs (update i) old new)

theorem ne_of_mem_referencing {tables : AssocMap String Table} {parent : String}
    {e : String × Table × ForeignKey} (mem : e ∈ referencing tables parent) : e.1 ≠ parent := by
  simp only [referencing, List.mem_flatMap, List.mem_filter, List.mem_map] at mem
  obtain ⟨entry, ⟨-, ne⟩, fk, -, rfl⟩ := mem
  simpa using ne

theorem all_referentialUpdate (trigs : env.TriggersIn Q) {parent : String}
    (acts : ∀ op, op.ActsOnUpdate parent → Q op) (old new : Row) :
    (applyReferentialUpdate env parent old new).All Q := by
  refine (all_perform (acts .look trivial)).bind (fun resp => ?_)
  dsimp only
  split
  · exact all_pure _
  · refine all_forEach (fun e mem => ?_)
    refine (all_lift _).bind (fun key => ?_)
    cases key with
    | none => exact all_pure _
    | some key =>
      dsimp only
      split
      · exact all_pure _
      · exact all_updateReferencing trigs (acts .look trivial)
          (fun i vals => acts (.updateInPlace e.1 i vals) (ne_of_mem_referencing mem)) _ _ _

theorem all_deleteReferencing (trigs : env.TriggersIn Q) (look : Q .look)
    {deleteBelow : Row → Body Unit} (update : ∀ i vals, Q (.updateInPlace name i vals))
    (cascade : ∀ row i, (deleteBelow row >>= fun _ => do
      let _ ← fireOrThrow env .before .delete name (some row) none
      let _ ← Body.perform (.deleteInPlace name i)
      let _ ← fireOrThrow env .after .delete name (some row) none : Body Unit).All Q) (child : Table)
    (fk : ForeignKey) (vals : List Value) :
    (deleteReferencing env deleteBelow name child fk vals).All Q := by
  refine (all_perform look).bind (fun resp => ?_)
  refine (all_lift _).bind (fun rows => ?_)
  split
  · exact all_pure _
  · split
    · exact all_throw _
    · exact all_forEach (fun i _ => all_setNullOnChild trigs look (update i) child fk)
    · exact all_forEach (fun i _ => all_setDefault look (update i) child fk)
    · refine all_forEach (fun i _ => ?_)
      refine (all_getTable look).bind (fun hit => ?_)
      cases hit with
      | none => exact all_pure _
      | some t =>
        dsimp only
        split
        · exact all_pure _
        · exact (all_lift _).bind (fun row => cascade row i)

/-- A table on the path is not visited again: the cycle is an exception. -/
theorem referentialDelete_visited {visiting : List String} (visited : name ∈ visiting)
    (depth : Nat) (row : Row) :
    applyReferentialDelete env depth name row visiting =
      throw ⟨.constraint, "FOREIGN KEY CASCADE cycle detected"⟩ := by
  cases depth with
  | zero => rfl
  | succ depth =>
    unfold applyReferentialDelete
    rw [if_pos (by simpa using visited)]

/-- The actions of a DELETE delete no rows of the tables on the path. -/
theorem all_referentialDelete (trigs : env.TriggersIn Q) {root : String}
    (acts : ∀ op, op.ActsOnDelete root → Q op) (depth : Nat)
    (parent : String) (row : Row) (visiting : List String) (path : root ∈ parent :: visiting) :
    (applyReferentialDelete env depth parent row visiting).All Q := by
  induction depth generalizing parent row visiting with
  | zero => exact all_throw _
  | succ depth ih =>
    unfold applyReferentialDelete
    split
    · exact all_throw _
    · refine (all_perform (acts .look trivial)).bind (fun resp => ?_)
      dsimp only
      split
      · exact all_pure _
      · refine all_forEach (fun e mem => ?_)
        refine (all_lift _).bind (fun key => ?_)
        cases key with
        | none => exact all_pure _
        | some vals =>
          refine all_deleteReferencing trigs (acts .look trivial) (fun _ _ => acts _ trivial)
            (fun row i => ?_) _ _ _
          -- Rows of the root would be deleted only after its visit, which throws.
          by_cases isRoot : e.1 = root
          · rw [referentialDelete_visited (isRoot ▸ path)]
            exact all_throw _
          · refine (ih e.1 row (parent :: visiting) (List.mem_cons_of_mem _ path)).bind (fun _ => ?_)
            refine (all_fireOrThrow trigs _ _ _ _ _).bind (fun _ => ?_)
            refine (all_perform (acts (.deleteInPlace e.1 i) isRoot)).bind (fun _ => ?_)
            exact (all_fireOrThrow trigs _ _ _ _ _).bind (fun _ => all_pure _)

end Database

end NobugDb
