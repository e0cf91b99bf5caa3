import NobugDb.Executor.Proofs.PartitionPruning
import NobugDb.Executor.Proofs.PartitionedUpdate

/-!
# Rows that an UPDATE meets twice

What an UPDATE on a partitioned table moves into a child that is still to be visited it may find
there again. It updates each matching row once exactly when no row it moves is matched in a
child it visits later.
-/

namespace NobugDb

open Misc (AssocMap Relocation)
open PartitionedTableMetadata
open List (mem_cons_of_mem mem_cons_self mem_toFinset)

/-! ## The children of a statement -/

namespace PartitionedTableMetadata

variable {metadata : PartitionedTableMetadata} {constraints : List PartitionPruneConstraint}

def childNames (metadata : PartitionedTableMetadata) : List String :=
  metadata.partitions.map (·.childTableName)

theorem mem_childNames_of_resolveChild {key : Value} {child : String}
    (res : metadata.resolveChild key = some child) : child ∈ metadata.childNames := by
  unfold resolveChild at res
  split at res
  · cases res
  · obtain ⟨part, hit, rfl⟩ := Option.map_eq_some_iff.mp res
    exact List.mem_map_of_mem (List.mem_of_find?_eq_some hit)

theorem prune_cases : (metadata.prune constraints).Sublist metadata.childNames ∨
    ∃ key, metadata.prune constraints = (metadata.resolveChild key).toList := by
  unfold prune pruneRange pruneHash
  split
  · exact .inl (List.filter_sublist.map _)
  · split
    · exact .inl (List.Sublist.refl _)
    · exact .inr ⟨_, rfl⟩

theorem prune_nodup (once : metadata.childNames.Nodup) : (metadata.prune constraints).Nodup := by
  obtain sub | ⟨key, eq⟩ := @prune_cases metadata constraints
  · exact sub.nodup once
  · rw [eq]
    cases metadata.resolveChild key <;> simp

theorem prune_subset : metadata.prune constraints ⊆ metadata.childNames := by
  obtain sub | ⟨key, eq⟩ := @prune_cases metadata constraints
  · exact sub.subset
  · rw [eq]
    intro child mem
    exact mem_childNames_of_resolveChild (Option.mem_toList.mp mem)

end PartitionedTableMetadata

namespace Executor

variable {fns : Functions} {s : Nat} {db db' : Database} {env : Env}
  {metadata : PartitionedTableMetadata} {parent : Table} {stmt : UpdateStatement}

theorem route_mem {vals : List Value} {tgt : String}
    (routed : route metadata parent vals = some tgt) : tgt ∈ metadata.childNames := by
  obtain ⟨i, -, hit⟩ := Option.bind_eq_some_iff.mp routed
  obtain ⟨key, -, res⟩ := Option.bind_eq_some_iff.mp hit
  exact mem_childNames_of_resolveChild res

/-- The loop over the children, when the statement succeeds, makes the visits of the relocating
    update. -/
theorem runs_eachChild (quiet : env.NoTriggers) {start : Database} {kids : List String}
    (once : kids.Nodup) (sub : kids ⊆ metadata.childNames)
    (steady : ∀ name ∈ kids, ∀ t, start.tables.lookup name = some t → t.SteadyIndexes fns)
    (has : ∀ name ∈ kids, ∀ t, start.tables.lookup name = some t →
      ∃ u, db.tables.lookup name = some u ∧ Table.Inserted fns t u)
    (missing : ∀ name ∈ kids, start.tables.lookup name = none → db.tables.lookup name = none)
    (ids : db.writesVersioned = true → db.reader.1 ≠ 0) (keyless : db.Keyless metadata.childNames)
    {count : Nat} {res : QueryResult}
    (runs : (eachChild
      (fun childName child count => do
        let rows ← collectMatching env childName child stmt.whereCondition
        updateChildRows env metadata parent stmt childName child
          (rows.mergeSort (fun a b => b ≤ a)) count)
      "UPDATE OK" kids count).Runs fns s db db' (.ok res))
    (succeeded : res.success = true) :
    res.affectedRows = count + (relocation env metadata stmt parent start).changes kids
        (view metadata.childNames db) ∧
      view metadata.childNames db' = (relocation env metadata stmt parent start).visitAll kids
        (view metadata.childNames db) := by
  induction kids generalizing db count with
  | nil =>
    obtain ⟨rfl, eq⟩ := Body.runs_pure_iff.mp runs
    cases eq
    exact ⟨rfl, rfl⟩
  | cons c kids ih =>
    obtain ⟨apart, once⟩ := List.nodup_cons.mp once
    have isName := sub mem_cons_self
    have next := Body.runs_getTable_bind.mp runs
    split at next
    · rename_i absent
      -- A child that is not there holds nothing.
      have empty : view metadata.childNames db c = 0 := by
        unfold view Database.seenIn Database.slots
        rw [if_pos isName, absent]
        rfl
      have idle : (relocation env metadata stmt parent start).visit c
          (view metadata.childNames db) = view metadata.childNames db := by
        refine (Relocation.eq_visit_iff.mpr fun key => ?_).symm
        simp [Relocation.selected, empty, Relocation.arrivals]
      obtain ⟨affected, seen⟩ := ih once (fun name mem => sub (mem_cons_of_mem c mem))
        (fun name mem => steady name (mem_cons_of_mem c mem))
        (fun name mem => has name (mem_cons_of_mem c mem))
        (fun name mem => missing name (mem_cons_of_mem c mem)) ids keyless next
      refine ⟨?_, ?_⟩
      · rw [affected, Relocation.changes, idle]
        simp [Relocation.selected, empty]
      · rw [seen, Relocation.visitAll, Relocation.visitAll, List.foldl_cons, idle]
    · rename_i child isChild
      obtain ⟨t, isStart, inserted⟩ : ∃ t, start.tables.lookup c = some t ∧
          Table.Inserted fns t child := by
        cases isStart : start.tables.lookup c with
        | none =>
          rw [missing c mem_cons_self isStart] at isChild
          cases isChild
        | some t =>
          obtain ⟨u, isTab, inserted⟩ := has c mem_cons_self t isStart
          obtain rfl : child = u := Option.some.inj (isChild.symm.trans isTab)
          exact ⟨t, rfl, inserted⟩
      obtain ⟨db₂, out, visited, more⟩ := Body.runs_bind_ok next
      have visits := runs_visit quiet isStart inserted (steady c mem_cons_self t isStart)
        isName (fun _ _ => route_mem) isChild ids keyless visited
      obtain ⟨result', rfl, unsuccessful⟩ | ⟨rfl, progress, seen⟩ := visits
      · obtain ⟨-, eq⟩ := Body.runs_pure_iff.mp more
        cases eq
        rw [succeeded] at unsuccessful
        cases unsuccessful
      · have ne : ∀ name ∈ kids, name ≠ c := fun name mem eq => apart (eq ▸ mem)
        obtain ⟨affected, last⟩ := ih once (fun name mem => sub (mem_cons_of_mem c mem))
          (fun name mem => steady name (mem_cons_of_mem c mem))
          (fun name mem t isStart => by
            obtain ⟨u, isTab, inserted⟩ := has name (mem_cons_of_mem c mem) t isStart
            obtain ⟨v, isLater, moreRows⟩ := progress.others name
              (sub (mem_cons_of_mem c mem)) (ne name mem) u isTab
            exact ⟨v, isLater, inserted.trans moreRows⟩)
          (fun name mem absent => progress.missing name (sub (mem_cons_of_mem c mem))
            (missing name (mem_cons_of_mem c mem) absent))
          (by rw [progress.versioned, progress.reader]; exact ids) progress.keyless more
        rw [seen] at affected last
        refine ⟨?_, last⟩
        rw [affected, Relocation.changes]
        omega

/-! ## Each matching row once -/

open Classical in
/-- The rows the session sees in a child that WHERE accepts. -/
noncomputable def matching (env : Env) (stmt : UpdateStatement) (db : Database) (name : String) :
    Multiset (List Value) :=
  (db.seenIn name).filter (fun values => ∃ t, db.tables.lookup name = some t ∧
    Table.Accepts (t.dmlEvaluator env) stmt.whereCondition ⟨values, 0, 0⟩)

/-- What SET makes of a row of a child, evaluated on the values the row has in `db`. -/
def newForm (env : Env) (stmt : UpdateStatement) (db : Database) (name : String)
    (values : List Value) : List Value :=
  match db.tables.lookup name with
  | none => values
  | some t =>
    match updatedValues env stmt name t values with
    | .error _ => values
    | .ok new => new

/-- The statement changes each matching row once, and no other row, and counts the matching
    rows. -/
structure UpdatesOnce (env : Env) (names : List String) (stmt : UpdateStatement)
    (db db' : Database) (result : QueryResult) : Prop where
  count : result.affectedRows = (names.map (fun name => (matching env stmt db name).card)).sum
  rows : db'.logicalRows names =
    (names.map (fun name => db.seenIn name - matching env stmt db name)).sum +
      (names.map (fun name => (matching env stmt db name).map (newForm env stmt db name))).sum

/-- Nothing but the order of the visits is in the statement's way: the children are distinct and
    without foreign keys, their indexes are correct and stay so when rows are inserted, and the
    pruning and the index paths leave no matching row out. -/
structure Unobstructed (env : Env) (fns : Functions) (metadata : PartitionedTableMetadata)
    (stmt : UpdateStatement) (db : Database) : Prop where
  once : metadata.childNames.Nodup
  ids : db.writesVersioned = true → db.reader.1 ≠ 0
  keyless : db.Keyless metadata.childNames
  steady : ∀ name ∈ metadata.childNames, ∀ t, db.tables.lookup name = some t →
    t.SteadyIndexes fns
  complete : ∀ name ∈ metadata.childNames, ∀ t, db.tables.lookup name = some t →
    ∀ values ∈ db.seenIn name,
      Table.Accepts (t.dmlEvaluator env) stmt.whereCondition ⟨values, 0, 0⟩ →
        name ∈ listPrunedPartitions metadata stmt.whereCondition ∧
          t.Reached t.name stmt.whereCondition ⟨values, 0, 0⟩

theorem place_snd (name : String) (values : List Value) :
    ((relocation env metadata stmt parent db).place name values).2 = newForm env stmt db name values := by
  unfold relocation newForm
  dsimp only
  cases db.tables.lookup name with
  | none => rfl
  | some t =>
    dsimp only
    cases updatedValues env stmt name t values <;> rfl

variable {name : String}

theorem place_mem (isName : name ∈ metadata.childNames) (vals : List Value) :
    ((relocation env metadata stmt parent db).place name vals).1 ∈ metadata.childNames := by
  unfold relocation
  dsimp only
  split
  · exact isName
  · split
    · exact isName
    · rename_i new _
      cases routed : route metadata parent new with
      | none => exact isName
      | some tgt => exact route_mem routed

theorem sum_map_of_subset {M : Type} [AddCommMonoid M] {all visited : List String}
    (once : all.Nodup) (visitedOnce : visited.Nodup) (sub : visited ⊆ all) {f : String → M}
    (nothing : ∀ name ∈ all, name ∉ visited → f name = 0) :
    (all.map f).sum = (visited.map f).sum := by
  rw [← List.sum_toFinset f once, ← List.sum_toFinset f visitedOnce]
  refine (Finset.sum_subset (fun name mem => ?_) (fun name mem apart => ?_)).symm
  · exact mem_toFinset.mpr (sub (mem_toFinset.mp mem))
  · exact nothing name (mem_toFinset.mp mem) (fun visit => apart (mem_toFinset.mpr visit))

namespace Unobstructed

variable (clear : Unobstructed env fns metadata stmt db)

include clear

theorem selected_eq_matching (isName : name ∈ metadata.childNames) :
    (relocation env metadata stmt parent db).selected name (view metadata.childNames db) =
      matching env stmt db name := by
  unfold Relocation.selected matching view
  rw [if_pos isName]
  refine Multiset.filter_congr (fun vals seen => ?_)
  simp only [relocation, decide_eq_true_eq]
  constructor
  · rintro ⟨t, isTab, accepts, -⟩
    exact ⟨t, isTab, accepts⟩
  · rintro ⟨t, isTab, accepts⟩
    exact ⟨t, isTab, accepts, (clear.complete name isName t isTab vals seen accepts).2⟩

theorem matching_of_not_visited (isName : name ∈ metadata.childNames)
    (apart : name ∉ listPrunedPartitions metadata stmt.whereCondition) :
    matching env stmt db name = 0 := by
  unfold matching
  refine Multiset.filter_eq_nil.mpr ?_
  rintro vals seen ⟨t, isTab, accepts⟩
  exact apart (clear.complete name isName t isTab vals seen accepts).1

/-- A sum over the matching rows of the children is one over the selected rows of the visits. -/
theorem sum_matching {M : Type} [AddCommMonoid M] {f : String → Multiset (List Value) → M}
    (nothing : ∀ name, f name 0 = 0) :
    (metadata.childNames.map (fun name => f name (matching env stmt db name))).sum =
      ((listPrunedPartitions metadata stmt.whereCondition).map (fun name => f name
        ((relocation env metadata stmt parent db).selected name (view metadata.childNames db)))).sum := by
  rw [sum_map_of_subset clear.once (prune_nodup clear.once)
    prune_subset (fun name isName apart => by
      rw [clear.matching_of_not_visited isName apart, nothing])]
  refine congrArg List.sum (List.map_congr_left fun name visited => ?_)
  rw [clear.selected_eq_matching (prune_subset visited)]

end Unobstructed

theorem sum_view (names : List String) (db : Database) :
    (names.map (view names db)).sum = db.logicalRows names := by
  refine congrArg List.sum (List.map_congr_left fun name isName => ?_)
  exact if_pos isName

/-- A statement that succeeds makes the visits of the relocating update. -/
theorem runs_partitionedUpdate (quiet : env.NoTriggers)
    (clear : Unobstructed env fns metadata stmt db)
    (isParent : db.tables.lookup stmt.table = some parent) {res : QueryResult}
    (runs : (executePartitionedUpdate env metadata stmt).Runs fns s db db' (.ok res))
    (succeeded : res.success = true) :
    res.affectedRows = (relocation env metadata stmt parent db).changes
        (listPrunedPartitions metadata stmt.whereCondition) (view metadata.childNames db) ∧
      view metadata.childNames db' = (relocation env metadata stmt parent db).visitAll
        (listPrunedPartitions metadata stmt.whereCondition) (view metadata.childNames db) := by
  have loop := Body.runs_getTable_bind.mp runs
  rw [isParent] at loop
  have visits := runs_eachChild quiet (prune_nodup clear.once) prune_subset
    (fun name visited => clear.steady name (prune_subset visited))
    (fun name _ t isTab => ⟨t, isTab, .refl⟩) (fun name _ absent => absent) clear.ids clear.keyless
    loop succeeded
  rw [Nat.zero_add] at visits
  exact visits

section Readings

open Engine (plainEnv)

/-- A table of readings without indexes. -/
def plainReadings (name : String) (rows : List (Int × Int)) : Table :=
  { name := name
    columns := [⟨"hour", .int, false, false, false, none⟩, ⟨"number", .int, false, false, false, none⟩]
    directory := rows.map (fun row => some ⟨[.int row.1, .int row.2], 0, 0⟩) }

/-- The readings at night and by day, in tables without indexes. -/
def plainReadingsOf (night day : List (Int × Int)) : Database :=
  { tables := [("day", plainReadings "day" day), ("night", plainReadings "night" night),
      ("readings", plainReadings "readings" [])] }

theorem plainReadings_steady (fns : Functions) (name : String) (rows : List (Int × Int)) :
    (plainReadings name rows).SteadyIndexes fns := by
  intro u inserted
  have schema := inserted.sameSchema
  have sec : u.secondaryIndexes = [] := schema.secondary
  refine ⟨fun c idx isIndex => ?_, ?_, ?_⟩
  · have none_ : u.columnIndices.contains c = false := schema.indexed c
    rw [AssocMap.contains, isIndex] at none_
    cases none_
  · rw [sec]
    simp
  · rw [sec]
    exact List.nodup_nil

theorem plainReadings_reached {Q : Type} (name aliasName : String) (rows : List (Int × Int))
    (cond : Option (Expr Q)) (row : Row) : (plainReadings name rows).Reached aliasName cond row := by
  intro pred _ isIndexed
  cases isIndexed

theorem plainReadingsOf_unobstructed (night day : List (Int × Int)) (stmt : UpdateStatement)
    (visited : listPrunedPartitions readings stmt.whereCondition = ["night", "day"]) :
    Unobstructed plainEnv plainEnv.functions readings stmt (plainReadingsOf night day) := by
  have tables : ∀ name t, (plainReadingsOf night day).tables.lookup name = some t →
      name ∈ readings.childNames → ∃ rows, t = plainReadings name rows := by
    intro name t isTab isName
    have isChild : name = "night" ∨ name = "day" := by simpa using (show name ∈ ["night", "day"] from isName)
    obtain rfl | rfl := isChild
    · exact ⟨night, (Option.some.inj isTab).symm⟩
    · exact ⟨day, (Option.some.inj isTab).symm⟩
  refine ⟨by decide, nofun, ?_, ?_, ?_⟩
  · intro e mem _
    have each : e = ("day", plainReadings "day" day) ∨ e = ("night", plainReadings "night" night) ∨
        e = ("readings", plainReadings "readings" []) := by
      simpa [plainReadingsOf] using mem
    obtain rfl | rfl | rfl := each <;> rfl
  · intro name isName t isTab
    obtain ⟨rows, rfl⟩ := tables name t isTab isName
    exact plainReadings_steady _ name rows
  · intro name isName t isTab vals _ _
    obtain ⟨rows, rfl⟩ := tables name t isTab isName
    exact ⟨visited ▸ isName, plainReadings_reached name _ rows _ _⟩

end Readings

end Executor

end NobugDb
