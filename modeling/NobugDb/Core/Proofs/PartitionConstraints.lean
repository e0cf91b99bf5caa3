import NobugDb.Core.PartitionDdl
import NobugDb.Core.Proofs.KeyChecks
import NobugDb.Executor.Proofs.CheckBindings

/-!
# The constraints of a partitioned table in its children

A child has the columns of the parent with their flags, and its CHECK constraints. What it
accepts is compared with the constraints that the parent declares, next to the rows stored in
the child. Table-level UNIQUE constraints are not among what a child gets, and a CHECK that names
the parent's table finds no column in the child.
-/

namespace NobugDb

open Misc (AssocMap run)

namespace Table

variable {fns : Functions} {p t u : Table} {row other : Row} {childName : String}

/-! ## What a child does not get -/

/-- The columns flagged PRIMARY KEY. -/
def flaggedKey (t : Table) : List String := (t.columns.filter (·.primaryKey)).map (·.name)

/-- The row satisfies those of the constraints that a child of the name does not have: a PRIMARY
    KEY other than the flagged columns, a UNIQUE constraint other than that of a flagged column,
    and a CHECK that names the table or the child. -/
structure SatisfiesRest (fns : Functions) (t : Table) (childName : String)
    (slots : List (Option Row)) (row : Row) : Prop where
  primary : (¬ ∀ c, c ∈ t.declaredKey ↔ c ∈ t.flaggedKey) → t.declaredKey ≠ [] →
    t.Filled row t.declaredKey ∧ t.KeyFree slots row t.declaredKey
  unique : ∀ uq ∈ t.uniqueConstraints,
    (∀ column ∈ t.columns, column.unique = true → uq.columns ≠ [column.name]) →
      t.KeyFree slots row uq.columns
  checks : ∀ check ∈ t.checks, ∀ predicate, check.predicate = some predicate →
    predicate.names [t.name, childName] = true →
      (t.checkEvaluator fns).evaluateCheckCondition row predicate = .ok true

/-! ## What a child has -/

/-- The columns of a key flagged in `t`, and no other key: what a child has of the definition of
    the parent `p`. -/
structure ChildOf (p : Table) (childName : String) (t : Table) : Prop where
  name : t.name = childName
  columns : t.columns = p.columns
  checks : t.checks = p.checks
  unique : t.uniqueConstraints = []
  primary : t.primaryKeyColumns = p.flaggedKey
  distinct : (p.columns.map (·.name)).Nodup

variable {column : Column}

section

variable (child : ChildOf p childName t)
include child

theorem ChildOf.keyColumns : t.keyColumns = p.flaggedKey := by
  unfold Table.keyColumns
  rw [child.primary]
  split
  · rename_i empty
    rw [List.isEmpty_iff] at empty
    rw [empty, getPrimaryKeyColumn, child.columns]
    have none : p.columns.find? (·.primaryKey) = none := by
      rw [List.find?_eq_none]
      intro column mem isPrimary
      have inKey : column.name ∈ p.flaggedKey :=
        List.mem_map_of_mem (List.mem_filter.mpr ⟨mem, isPrimary⟩)
      rw [empty] at inKey
      cases inKey
    rw [none]
    rfl
  · rfl

theorem ChildOf.getColumnIndex (c : String) : t.getColumnIndex c = p.getColumnIndex c := by
  unfold Table.getColumnIndex
  rw [child.columns]

theorem ChildOf.valueAt : t.valueAt = p.valueAt := by
  funext row c
  unfold Table.valueAt
  rw [child.getColumnIndex]

theorem ChildOf.filled : t.Filled = p.Filled := by
  funext row columns
  unfold Filled
  rw [child.valueAt]

theorem ChildOf.keyFree : t.KeyFree = p.KeyFree := by
  funext slots row columns
  unfold KeyFree Agree
  rw [child.filled, child.valueAt]

end

theorem KeyFree.of_same {slots : List (Option Row)} {cols columns' : List String}
    (free : p.KeyFree slots row cols) (eq : ∀ c, c ∈ columns' ↔ c ∈ cols) :
    p.KeyFree slots row columns' := by
  intro filled other stored live agree
  exact free (fun c mem => filled c ((eq c).mpr mem)) other stored live
    (fun c mem => agree c ((eq c).mpr mem))

section

variable (child : ChildOf p childName t)
include child

theorem ChildOf.position (mem : column ∈ p.columns) :
    ∃ j, t.columns[j]? = some column ∧ t.getColumnIndex column.name = some j := by
  obtain ⟨j, bound, isAt⟩ := List.getElem_of_mem mem
  have here : p.columns[j]? = some column := by rw [List.getElem?_eq_getElem bound, isAt]
  refine ⟨j, child.columns ▸ here, ?_⟩
  rw [child.getColumnIndex, columnIndex_eq_some_iff child.distinct, List.getElem?_map, here]
  rfl

theorem ChildOf.notNull (valid : Validated fns t row none)
    (mem : column ∈ p.columns) (notNullable : column.nullable = false) :
    p.Filled row [column.name] := by
  obtain ⟨j, isAt, isCol⟩ := child.position mem
  intro c isName
  rw [List.mem_singleton.mp isName, ← child.valueAt]
  have bound : j < row.values.length := by
    rw [valid.arity]
    exact (List.getElem?_eq_some_iff.mp isAt).1
  have value : row.values[j]? = some row.values[j] := List.getElem?_eq_getElem bound
  refine ⟨row.values[j], ?_, ?_⟩
  · unfold Table.valueAt
    rw [isCol]
    exact value
  · have inZip : (column, row.values[j]) ∈ t.columns.zip row.values := by
      refine List.mem_of_getElem? (i := j) ?_
      rw [List.getElem?_zip_eq_some]
      exact ⟨isAt, value⟩
    have := List.any_eq_false.mp valid.notNull _ inZip
    simpa [notNullable] using this

theorem ChildOf.uniqueColumn (idxs : t.KeyIndexes)
    (valid : Validated fns t row none) (mem : column ∈ p.columns) (unique : column.unique = true) :
    p.KeyFree t.directory row [column.name] := by
  obtain ⟨j, isAt, isCol⟩ := child.position mem
  obtain ⟨passed, loop, rest⟩ := Exn.bind_eq_ok valid.unique
  cases passed with
  | false => cases rest
  | true =>
    rw [← child.keyFree]
    exact idxs.keyFree_unique child.unique loop isAt isCol unique

theorem ChildOf.primaryKey (idxs : t.KeyIndexes)
    (valid : Validated fns t row none) (notEmpty : p.flaggedKey ≠ []) :
    p.Filled row p.flaggedKey ∧ p.KeyFree t.directory row p.flaggedKey := by
  have isKey := child.keyColumns
  have some : t.keyColumns.isEmpty = false := by
    rw [isKey]
    simpa using notEmpty
  have passed := valid.primary
  unfold validatePrimaryKeyUniqueness at passed
  rw [if_neg (by rw [some]; exact Bool.false_ne_true)] at passed
  obtain ⟨key, built, passed⟩ := Exn.bind_eq_ok passed
  by_cases null : key.hasNull = true
  · rw [if_pos null] at passed
    cases passed
  · rw [if_neg null] at passed
    obtain ⟨shared, looked, passed⟩ := Exn.bind_eq_ok passed
    cases shared with
    | true => cases passed
    | false =>
      have flagged : ∀ c ∈ t.keyColumns,
          ∃ column ∈ t.columns, column.name = c ∧ column.primaryKey = true := by
        rw [isKey, child.columns]
        intro c mem
        obtain ⟨column, isFlagged, isName⟩ := List.mem_map.mp mem
        exact ⟨column, (List.mem_filter.mp isFlagged).1, isName, (List.mem_filter.mp isFlagged).2⟩
      have filled := filled_of_hasNull built ((Bool.not_eq_true _).mp null)
      have free := idxs.keyFree_primary flagged built (by rw [isKey]; exact notEmpty) looked
      rw [isKey, child.filled] at filled
      rw [isKey, child.keyFree] at free
      exact ⟨filled, free⟩

/-- What a child accepts satisfies the constraints of the parent just when it satisfies those that
    the child does not have. -/
theorem ChildOf.satisfies_iff (idxs : t.KeyIndexes) (acc : (t.insertRow fns row).2 = .ok ()) :
    p.Satisfies fns t.directory row ↔ p.SatisfiesRest fns childName t.directory row := by
  have valid := validated_of_validateRow (validateRow_of_checkWrite (checkWrite_of_insertRow acc))
  constructor
  · intro satisfies
    exact ⟨fun _ => satisfies.primary, fun uq mem _ => satisfies.unique uq mem,
      fun check mem predicate isPredicate _ => satisfies.checks check mem predicate isPredicate⟩
  · intro rest
    refine ⟨fun column => child.notNull valid, ?_, fun column => child.uniqueColumn idxs valid, ?_, ?_⟩
    · intro notEmpty
      by_cases eq : ∀ c, c ∈ p.declaredKey ↔ c ∈ p.flaggedKey
      · have flaggedSome : p.flaggedKey ≠ [] := by
          intro empty
          obtain ⟨c, mem⟩ := List.exists_mem_of_ne_nil _ notEmpty
          have := (eq c).mp mem
          rw [empty] at this
          cases this
        obtain ⟨filled, free⟩ := child.primaryKey idxs valid flaggedSome
        exact ⟨fun c mem => filled c ((eq c).mp mem), free.of_same eq⟩
      · exact rest.primary eq notEmpty
    · intro uq mem
      by_cases covered : ∀ column ∈ p.columns, column.unique = true → uq.columns ≠ [column.name]
      · exact rest.unique uq mem covered
      · push Not at covered
        obtain ⟨column, inColumns, unique, eq⟩ := covered
        rw [eq]
        exact child.uniqueColumn idxs valid inColumns unique
    · intro check mem predicate isPredicate
      cases names : predicate.names [p.name, childName] with
      | true => exact rest.checks check mem predicate isPredicate names
      | false =>
        have agrees := @checkEvaluator_agrees p t fns (by rw [child.columns])
        rw [child.name] at agrees
        have holds := checks_of_findViolatedCheck valid.checks (child.checks ▸ mem) isPredicate
        unfold Evaluator.evaluateCheckCondition at holds ⊢
        rwa [Evaluator.evaluateCheckTri_agrees agrees predicate names] at holds

end

/-! ## Children of a parent -/

/-- The constraints that the tables declare are the same. -/
structure SameDeclared (t u : Table) : Prop where
  name : u.name = t.name
  columns : u.columns = t.columns
  checks : u.checks = t.checks
  unique : u.uniqueConstraints = t.uniqueConstraints
  primary : u.primaryKeyColumns = t.primaryKeyColumns

section

variable (child : ChildOf p childName t)
include child

theorem ChildOf.congr (eq : SameDeclared t u) : ChildOf p childName u :=
  ⟨eq.name.trans child.name, eq.columns.trans child.columns, eq.checks.trans child.checks,
    eq.unique.trans child.unique, eq.primary.trans child.primary, child.distinct⟩

theorem ChildOf.frame (frame : SameFrame t u) : ChildOf p childName u :=
  child.congr ⟨frame.congr Table.name, frame.congr Table.columns, frame.congr Table.checks,
    frame.congr Table.uniqueConstraints, frame.congr Table.primaryKeyColumns⟩

theorem ChildOf.mark : ChildOf p childName t.markDirty :=
  child.congr ⟨rfl, rfl, rfl, rfl, rfl⟩

end

theorem buildIndex_sameDeclared (t : Table) (c : String) : SameDeclared t (t.buildIndex c).1 := by
  unfold buildIndex
  split
  · exact ⟨rfl, rfl, rfl, rfl, rfl⟩
  · split <;> exact ⟨rfl, rfl, rfl, rfl, rfl⟩

theorem buildNamed_sameDeclared (t : Table) (idxs : AssocMap String (List String))
    (name : String) : SameDeclared t (t.buildNamedIndex idxs name).1 := by
  unfold buildNamedIndex
  split
  · exact ⟨rfl, rfl, rfl, rfl, rfl⟩
  · split <;> exact ⟨rfl, rfl, rfl, rfl, rfl⟩

theorem ensureMissing_sameDeclared (t : Table) (name : String) (cols : List String) :
    SameDeclared t (t.ensureMissing name cols).1 := by
  unfold ensureMissing ensureConstraintIndex
  split
  · exact ⟨rfl, rfl, rfl, rfl, rfl⟩
  · have built := buildNamed_sameDeclared { t with
      constraintIndexes := AssocMap.assign name cols t.constraintIndexes }
      (AssocMap.assign name cols t.constraintIndexes) name
    exact { built with }

/-- `rebuild_indexes` takes the PRIMARY KEY from the flags if there is none yet. -/
theorem childOf_rebuildIndexes (name : t.name = childName) (cols : t.columns = p.columns)
    (checks : t.checks = p.checks) (unique : t.uniqueConstraints = [])
    (primary : t.primaryKeyColumns = [] ∨ t.primaryKeyColumns = p.flaggedKey)
    (nodup : (p.columns.map (·.name)).Nodup) : ChildOf p childName t.rebuildIndexes.1 := by
  have synced : ChildOf p childName
      (syncKeyMetadata { t with columnIndices := [], namedIndices := [] }) := by
    unfold syncKeyMetadata
    dsimp only
    split
    · refine ⟨name, cols, checks, unique, ?_, nodup⟩
      dsimp only
      rw [cols]
      rfl
    · rename_i notEmpty
      refine ⟨name, cols, checks, unique, primary.resolve_left ?_, nodup⟩
      rintro empty
      exact notEmpty (by rw [empty]; rfl)
  unfold Table.rebuildIndexes
  refine seq_keeps ?_ synced
  intro step mem u child
  simp only [List.mem_append, List.mem_map] at mem
  rcases mem with (((⟨c, -, rfl⟩ | ⟨e, -, rfl⟩) | ⟨e, -, rfl⟩) | mem) | ⟨uq, -, rfl⟩
  · exact child.congr (buildIndex_sameDeclared u c.name)
  · exact child.congr (buildNamed_sameDeclared u _ e.1)
  · exact child.congr (buildNamed_sameDeclared u _ e.1)
  · split at mem
    · cases mem
    · obtain rfl := List.mem_singleton.mp mem
      exact child.congr (ensureMissing_sameDeclared u _ _)
  · exact child.congr (ensureMissing_sameDeclared u _ _)

theorem ChildOf.rebuild (child : ChildOf p childName t) : ChildOf p childName t.rebuildIndexes.1 :=
  childOf_rebuildIndexes child.name child.columns child.checks child.unique (.inr child.primary)
    child.distinct

/-- The call changes rows or secondary indexes, not what the table declares. -/
def Op.keepsDeclared : Op → Bool
  | .insertRow _ | .updateRow _ _ | .updateRowVersioned _ _ _ | .deleteRow _
  | .deleteRowVersioned _ _ | .freezeCommittedVersions _ | .vacuumVersions _ | .rebuildIndexes
  | .createSecondaryIndex _ _ | .dropSecondaryIndex _ => true
  | _ => false

theorem ChildOf.call (child : ChildOf p childName t) (fns : Functions) {op : Op}
    (keeps : op.keepsDeclared = true) : ChildOf p childName (t.call fns op).1 := by
  have rebuilt : ∀ slots, ChildOf p childName (andThen
      (Table.rebuildIndexes { t with directory := slots }) (fun t => (t.markDirty, .ok ()))).1 := by
    intro slots
    refine andThen_keeps ?_ (fun _ child => child.mark)
    exact (child.congr ⟨rfl, rfl, rfl, rfl, rfl⟩ : ChildOf p childName { t with
      directory := slots }).rebuild
  cases op with
  | insertRow row => exact child.frame (insertRow_sameFrame fns t row)
  | updateRow i row => exact child.frame (updateRow_sameFrame fns t i row)
  | updateRowVersioned i row xid => exact child.frame (updateVersion_sameFrame fns t i row xid)
  | deleteRow i => exact child.frame (deleteRow_sameFrame t i)
  | deleteRowVersioned i xid => exact child.frame (deleteVersion_sameFrame t i xid)
  | freezeCommittedVersions xid =>
    simp only [Table.call, Table.freezeCommittedVersions]
    split
    · exact child
    · split
      · exact child
      · split
        · exact rebuilt _
        · exact child
  | vacuumVersions tm =>
    simp only [Table.call, Table.vacuumVersions]
    split
    · exact child
    · exact rebuilt _
  | rebuildIndexes => exact child.rebuild
  | createSecondaryIndex name cols =>
    simp only [Table.call, Table.createSecondaryIndex]
    split
    · exact child
    · split
      · exact child
      · split
        · exact child
        · refine andThen_keeps ?_ (fun _ child => child.mark)
          exact (child.congr ⟨rfl, rfl, rfl, rfl, rfl⟩ : ChildOf p childName { t with
            secondaryIndexes := AssocMap.assign name cols t.secondaryIndexes }).congr
              (buildNamed_sameDeclared _ _ _)
  | dropSecondaryIndex name =>
    simp only [Table.call]
    split
    · unfold Table.dropSecondaryIndex
      refine ChildOf.mark ?_
      dsimp only
      split
      · split <;> exact child.congr ⟨rfl, rfl, rfl, rfl, rfl⟩
      · exact child.congr ⟨rfl, rfl, rfl, rfl, rfl⟩
    · exact child
  | _ => cases keeps

/-- A table under construction: it has these columns, and no rows, keys or CHECKs. -/
structure Blank (childName : String) (made : List Column) (t : Table) : Prop where
  name : t.name = childName
  columns : t.columns = made
  directory : t.directory = []
  unique : t.uniqueConstraints = []
  primary : t.primaryKeyColumns = []
  distinct : (made.map (·.name)).Nodup

theorem Blank.addColumn {columns : List Column} (blank : Blank childName columns t)
    (added : t.addColumn column = (u, .ok ())) : Blank childName (columns ++ [column]) u := by
  have read : t.getAllRows = .ok [] := by
    unfold getAllRows
    rw [blank.directory]
    rfl
  unfold Table.addColumn at added
  rw [read] at added
  split at added
  · cases added
  · rename_i isNew
    split at added
    · cases added
    · have absent : column.name ∉ columns.map (·.name) := by
        intro mem
        obtain ⟨d, isCol, same⟩ := List.mem_map.mp mem
        refine isNew (List.any_eq_true.mpr ⟨d, ?_, beq_iff_eq.mpr same⟩)
        rw [blank.columns]
        exact isCol
      have grown : Blank childName (columns ++ [column])
          { t with columns := t.columns ++ [column], directory := [] } := by
        refine ⟨blank.name, by rw [blank.columns], rfl, blank.unique, blank.primary, ?_⟩
        rw [List.map_append]
        exact blank.distinct.append (List.nodup_singleton _) (by simpa using absent)
      simp only [List.map_nil, reinsert, andThen] at added
      split at added
      · cases added
      · rename_i v built
        cases added
        split at built
        · have same := buildIndex_sameDeclared
            { t with columns := t.columns ++ [column], directory := [] } column.name
          have directory := buildIndex_dir
            { t with columns := t.columns ++ [column], directory := [] } column.name
          rw [built] at same directory
          exact ⟨same.name.trans grown.name, same.columns.trans grown.columns, directory,
            same.unique.trans grown.unique, same.primary.trans grown.primary, grown.distinct⟩
        · cases built
          exact { grown with }

theorem Blank.addColumns {cols rest : List Column} (blank : Blank childName cols t)
    (added : addColumns rest t = (u, .ok ())) : Blank childName (cols ++ rest) u := by
  induction rest generalizing cols t with
  | nil =>
    cases added
    rw [List.append_nil]
    exact blank
  | cons column rest ih =>
    unfold Table.addColumns andThen at added
    split at added
    · cases added
    · rename_i v fst
      have next := ih (blank.addColumn fst) added
      rwa [List.append_assoc] at next

theorem childOf_partitionChild (created : p.partitionChild childName = (t, .ok ())) :
    ChildOf p childName t := by
  unfold partitionChild copyDefinition andThen at created
  split at created
  · cases created
  · rename_i v copied
    split at copied
    · cases copied
    · rename_i w added
      cases copied
      have blank := Blank.addColumns
        (⟨rfl, rfl, rfl, rfl, rfl, List.nodup_nil⟩ : Blank childName [] { name := childName }) added
      rw [List.nil_append] at blank
      have child := @childOf_rebuildIndexes p { w with
        checks := p.checks, secondaryIndexes := p.secondaryIndexes } childName blank.name blank.columns
        rfl blank.unique (.inl blank.primary) blank.distinct
      rwa [created] at child

section Runs

private def plainFunctions : Functions :=
  ⟨fun _ _ err => .ok (.null, err), fun text _ => .ok (.string text)⟩

/-- Orders by region: a number is used once in a region, and amounts are positive. -/
private def orders : Table :=
  run (after plainFunctions) { name := "orders" }
    [.addColumn ⟨"region", .int, false, false, false, none⟩,
      .addColumn ⟨"number", .int, false, false, false, none⟩,
      .addColumn ⟨"amount", .int, true, false, false, none⟩,
      .applyUniqueConstraint ⟨"once", ["region", "number"]⟩,
      .addCheck ⟨"positive",
        some (.binary .gt (.columnRef "orders" "amount") (.literal (.int 0)))⟩]

private def order (region number amount : Int) : Row := ⟨[.int region, .int number, .int amount], 0, 0⟩

private def north : Table := (orders.partitionChild "orders_north").1

/-- The indexes of a child without flagged columns. -/
private theorem keyIndexes_north : (run (after plainFunctions) north [.insertRow (order 1 1 10)]).KeyIndexes := by
  constructor
  · intro c idx hit
    have none : (run (after plainFunctions) north [.insertRow (order 1 1 10)]).columnIndices = [] := by
      decide +kernel
    rw [none] at hit
    cases hit
  · intro idx hit
    have none : (run (after plainFunctions) north [.insertRow (order 1 1 10)]).namedIndices = [] := by
      decide +kernel
    rw [none] at hit
    cases hit
  · decide +kernel

end Runs

end Table

end NobugDb
