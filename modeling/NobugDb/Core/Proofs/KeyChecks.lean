import NobugDb.Core.Proofs.IndexBuilding
import NobugDb.Executor.Proofs.IndexCandidates

/-!
# What the checks of a row find

The constraints that a table declares, in terms of the values of rows, and what `validate_row` has
found of them when it passes. With correct indexes, a key that the checks find free is held by
no live row.
-/

namespace NobugDb.Table

open List (map_cons mem_cons)
open Option (bind_some getD_some some.inj)

variable {fns : Functions} {t : Table} {row other : Row}

/-! ## What a table declares -/

def valueAt (t : Table) (row : Row) (c : String) : Option Value :=
  (t.getColumnIndex c).bind row.getValue?

/-- The row has a value other than NULL in each of the columns. -/
def Filled (t : Table) (row : Row) (columns : List String) : Prop :=
  ∀ c ∈ columns, ∃ v, t.valueAt row c = some v ∧ v.isNull = false

def Agree (t : Table) (row other : Row) (columns : List String) : Prop :=
  ∀ c ∈ columns, ∃ v w, t.valueAt row c = some v ∧ t.valueAt other c = some w ∧ w.eq v = true

/-- No stored row that has not been deleted has the key of the row, unless that has NULL in it. -/
def KeyFree (t : Table) (slots : List (Option Row)) (row : Row) (columns : List String) : Prop :=
  t.Filled row columns → ∀ other, some other ∈ slots → other.xmax = 0 → ¬ t.Agree row other columns

/-- The row satisfies every constraint that the table declares, next to these rows. -/
structure Satisfies (fns : Functions) (t : Table) (slots : List (Option Row)) (row : Row) : Prop where
  notNull : ∀ column ∈ t.columns, column.nullable = false → t.Filled row [column.name]
  primary : t.declaredKey ≠ [] → t.Filled row t.declaredKey ∧ t.KeyFree slots row t.declaredKey
  uniqueColumn : ∀ column ∈ t.columns, column.unique = true → t.KeyFree slots row [column.name]
  unique : ∀ uq ∈ t.uniqueConstraints, t.KeyFree slots row uq.columns
  checks : ∀ check ∈ t.checks, ∀ predicate, check.predicate = some predicate →
    (t.checkEvaluator fns).evaluateCheckCondition row predicate = .ok true

/-! ## Keys of rows -/

variable {v : Value} {ps : List Nat} {i j : Nat} {col : Column}

theorem eq_notNull {w : Value} (equal : w.eq v = true) (notNull : v.isNull = false) :
    w.isNull = false := by
  cases w with
  | null =>
    cases v <;> simp_all [Value.eq, Value.isNull]
  | _ => rfl

theorem buildIndexKey_eq_ok_iff (t : Table) (row : Row) (cols : List String) (key : IndexKey) :
    t.buildIndexKey row cols = .ok key ↔ cols.map (t.valueAt row) = key.map some := by
  unfold buildIndexKey
  rw [Exn.mapM_eq_ok_iff]
  refine iff_of_eq (congrArg (· = key.map some) (List.map_congr_left fun c _ => ?_))
  unfold valueAt
  cases t.getColumnIndex c with
  | none => rfl
  | some i =>
    dsimp only [bind_some]
    cases row.getValue? i <;> rfl

theorem Filled.hasNull {cols : List String} {key : IndexKey} (filled : t.Filled row cols)
    (isKey : t.buildIndexKey row cols = .ok key) : key.hasNull = false := by
  rw [buildIndexKey_eq_ok_iff] at isKey
  unfold IndexKey.hasNull
  rw [List.any_eq_false]
  intro v mem
  have inMap : some v ∈ cols.map (t.valueAt row) := by
    rw [isKey]
    exact List.mem_map_of_mem mem
  obtain ⟨c, isCol, value⟩ := List.mem_map.mp inMap
  obtain ⟨w, isVal, notNull⟩ := filled c isCol
  rw [some.inj (value.symm.trans isVal), notNull]
  exact Bool.false_ne_true

theorem filled_of_hasNull {columns : List String} {key : IndexKey}
    (isKey : t.buildIndexKey row columns = .ok key) (noNull : key.hasNull = false) :
    t.Filled row columns := by
  rw [buildIndexKey_eq_ok_iff] at isKey
  intro c mem
  have inMap : t.valueAt row c ∈ key.map some := by
    rw [← isKey]
    exact List.mem_map_of_mem mem
  obtain ⟨v, inKey, eq⟩ := List.mem_map.mp inMap
  refine ⟨v, eq.symm, ?_⟩
  have := List.any_eq_false.mp noNull v inKey
  simpa using this

theorem Agree.key {cols : List String} {key : IndexKey} (agree : t.Agree row other cols)
    (isKey : t.buildIndexKey row cols = .ok key) :
    ∃ key', t.buildIndexKey other cols = .ok key' ∧ key'.eq key = true := by
  simp only [buildIndexKey_eq_ok_iff] at isKey ⊢
  induction cols generalizing key with
  | nil =>
    cases key with
    | nil => exact ⟨[], rfl, rfl⟩
    | cons v key => cases isKey
  | cons c cols ih =>
    cases key with
    | nil => cases isKey
    | cons v key =>
      rw [map_cons, map_cons, List.cons.injEq] at isKey
      obtain ⟨v', w, here, there, equal⟩ := agree c (by simp)
      obtain ⟨key', isKey', equal'⟩ := ih (fun d mem => agree d (by simp [mem])) isKey.2
      refine ⟨w :: key', ?_, ?_⟩
      · rw [map_cons, map_cons, there, isKey']
      · rw [some.inj (here.symm.trans isKey.1)] at equal
        simp [IndexKey.eq, equal, equal']

theorem Agree.filled {columns : List String} (agree : t.Agree row other columns)
    (filled : t.Filled row columns) : t.Filled other columns := by
  intro c mem
  obtain ⟨v, w, here, there, equal⟩ := agree c mem
  obtain ⟨v', isVal, notNull⟩ := filled c mem
  rw [some.inj (isVal.symm.trans here)] at notNull
  exact ⟨w, there, eq_notNull equal notNull⟩

/-! ## Lookups of a key -/

/-- The indexes that the checks of keys read are correct, and each flagged column has one. -/
structure KeyIndexes (t : Table) : Prop where
  column : ∀ c index, t.columnIndices.lookup c = some index → t.IndexOn (t.columnKey c) index
  primary : ∀ index, t.namedIndices.lookup primaryKeyIndexName = some index →
    t.IndexOn (t.namedKey t.keyColumns) index
  flagged : ∀ column ∈ t.columns, (column.primaryKey || column.unique) = true →
    t.columnIndices.contains column.name = true

theorem anyLive_false (free : t.anyLive none ps = .ok false)
    (mem : i ∈ ps) (stored : t.directory[i]? = some (some other)) : other.xmax ≠ 0 := by
  induction ps with
  | nil => cases mem
  | cons j ps ih =>
    unfold anyLive at free
    rw [if_neg (by simp)] at free
    obtain ⟨hit, read, free⟩ := Exn.bind_eq_ok free
    split at free
    · cases free
    · rename_i deleted
      rcases mem_cons.mp mem with rfl | mem
      · rw [getRow_eq_ok_iff.mpr stored] at read
        cases read
        exact deleted
      · exact ih free mem

theorem scanLive_false {test : Row → Except Exn Bool}
    (free : t.scanLive none test ps = .ok false) (mem : i ∈ ps)
    (stored : t.directory[i]? = some (some other)) (live : other.xmax = 0) :
    test other = .ok false := by
  induction ps with
  | nil => cases mem
  | cons j ps ih =>
    unfold scanLive at free
    rw [if_neg (by simp)] at free
    obtain ⟨hit, read, free⟩ := Exn.bind_eq_ok free
    rcases mem_cons.mp mem with rfl | mem
    · rw [getRow_eq_ok_iff.mpr stored] at read
      cases read
      rw [if_neg (by simpa using live)] at free
      obtain ⟨passed, tested, free⟩ := Exn.bind_eq_ok free
      cases passed with
      | false => exact tested
      | true => cases free
    · split at free
      · exact ih free mem
      · obtain ⟨passed, -, free⟩ := Exn.bind_eq_ok free
        cases passed with
        | false => exact ih free mem
        | true => cases free

theorem exists_position (stored : some other ∈ t.directory) :
    ∃ i, t.directory[i]? = some (some other) ∧ i ∈ List.range t.rowCount := by
  obtain ⟨i, bound, here⟩ := List.getElem_of_mem stored
  exact ⟨i, by rw [List.getElem?_eq_getElem bound, here], List.mem_range.mpr bound⟩

theorem IndexOn.mem_column {c : String} {idx : BTreeIndex} (correct : t.IndexOn (t.columnKey c) idx)
    (hit : t.getColumnIndex c = some j) (stored : t.directory[i]? = some (some other))
    (equal : ((other.getValue? j).getD .null).eq v = true) (notNull : v.isNull = false) :
    i ∈ idx.findEqual [v] := by
  refine (correct.equal [v] i).mpr ⟨other, [(other.getValue? j).getD .null], stored, ?_, ?_, ?_⟩
  · unfold columnKey
    rw [hit]
    rfl
  · simp [IndexKey.indexable, IndexKey.hasNull, eq_notNull equal notNull]
  · simp [IndexKey.eq, equal]

theorem KeyIndexes.mem_findRowsByValue (idxs : t.KeyIndexes)
    (mem : col ∈ t.columns) (flagged : (col.primaryKey || col.unique) = true)
    (hit : t.findRowsByValue col.name v = .ok ps)
    (isCol : t.getColumnIndex col.name = some j) (stored : t.directory[i]? = some (some other))
    (equal : ((other.getValue? j).getD .null).eq v = true) (notNull : v.isNull = false) :
    i ∈ ps := by
  obtain ⟨idx, isIndex⟩ := Option.isSome_iff_exists.mp (idxs.flagged col mem flagged)
  unfold findRowsByValue at hit
  rw [isCol, isIndex] at hit
  rw [← Except.ok.inj hit]
  exact (idxs.column _ _ isIndex).mem_column isCol stored equal notNull

/-- A key that `rows_share_key` finds free over the columns of the PRIMARY KEY is free. -/
theorem KeyIndexes.keyFree_primary (idxs : t.KeyIndexes) {key : IndexKey}
    (flagged : ∀ c ∈ t.keyColumns, ∃ col ∈ t.columns, col.name = c ∧ col.primaryKey = true)
    (isKey : t.buildIndexKey row t.keyColumns = .ok key) (notEmpty : t.keyColumns ≠ [])
    (free : t.rowsShareKey key none primaryKeyIndexName t.keyColumns = .ok false) :
    t.KeyFree t.directory row t.keyColumns := by
  intro filled other stored live agree
  obtain ⟨i, here, inRange⟩ := exists_position stored
  obtain ⟨key', isKey', equal⟩ := agree.key isKey
  have noNull := (agree.filled filled).hasNull isKey'
  have scanned : t.scanLive none (fun row => do return (← t.buildIndexKey row t.keyColumns).eq key)
      (List.range t.rowCount) ≠ .ok false := by
    intro free
    have tested := scanLive_false free inRange here live
    simp only [isKey', bind, Except.bind, pure, Except.pure, equal] at tested
    cases tested
  unfold rowsShareKey at free
  split at free
  · rename_i idx isIndex
    refine anyLive_false free (((idxs.primary idx isIndex).equal key i).mpr ?_) here live
    refine ⟨other, key', here, ?_, ?_, equal⟩
    · unfold namedKey
      rw [isKey']
      rfl
    · have notNil : key' ≠ [] := by
        rintro rfl
        rw [buildIndexKey_eq_ok_iff] at isKey'
        exact notEmpty (List.map_eq_nil_iff.mp isKey')
      simp [IndexKey.indexable, noNull, notNil]
  · split at free
    · rename_i c value single
      split at free
      · -- A single column has the index of its flag.
        obtain ⟨col, mem, rfl, isPrimary⟩ := flagged c (by rw [single]; simp)
        obtain ⟨v, w, hereValue, thereValue, equalValue⟩ := agree col.name (by rw [single]; simp)
        obtain ⟨v', isVal, notNull⟩ := filled col.name (by rw [single]; simp)
        obtain ⟨j, isCol, atJ⟩ := Option.bind_eq_some_iff.mp thereValue
        rw [single, buildIndexKey_eq_ok_iff, map_cons, List.map_nil, map_cons,
          List.map_nil, List.cons.injEq] at isKey
        rw [some.inj (isVal.symm.trans isKey.1)] at notNull
        rw [some.inj (hereValue.symm.trans isKey.1)] at equalValue
        cases hit : t.findRowsByValue col.name value with
        | error e =>
          rw [hit] at free
          cases free
        | ok ps =>
          rw [hit] at free
          refine anyLive_false free ?_ here live
          refine idxs.mem_findRowsByValue mem (by simp [isPrimary]) hit isCol here ?_ notNull
          rw [atJ]
          exact equalValue
      · exact scanned free
    · exact scanned free

/-- The lookup that the loop over the columns makes for the column at position `j`. -/
def valueTaken (t : Table) (row : Row) (column : Column) (j : Nat) : Except Exn Bool :=
  let value := (row.getValue? j).getD .null
  if t.hasIndex column.name then
    (t.findRowsByValue column.name value).bind (t.anyLive none)
  else
    t.scanLive none (fun other => .ok (((other.getValue? j).getD .null).eq value))
      (List.range t.rowCount)

theorem validateUniqueColumns_cons (t : Table) (row : Row) (col : Column) (j : Nat)
    (rest : List (Column × Nat)) :
    t.validateUniqueColumns row none ((col, j) :: rest) =
      if !col.unique || t.coveredByConstraint col.name ||
          ((row.getValue? j).getD .null).isNull then t.validateUniqueColumns row none rest
      else (t.valueTaken row col j).bind (fun taken =>
        if taken then .ok false else t.validateUniqueColumns row none rest) := by
  conv => lhs; unfold validateUniqueColumns
  unfold valueTaken
  dsimp only
  split
  · rfl
  · split
    · cases t.findRowsByValue col.name ((row.getValue? j).getD .null) <;> rfl
    · rfl

theorem validateUniqueColumns_pass {cols : List (Column × Nat)}
    (passed : t.validateUniqueColumns row none cols = .ok true) (mem : (col, j) ∈ cols)
    (checked : (!col.unique || t.coveredByConstraint col.name ||
      ((row.getValue? j).getD .null).isNull) = false) :
    t.valueTaken row col j = .ok false := by
  induction cols with
  | nil => cases mem
  | cons d cols ih =>
    obtain ⟨fst, k⟩ := d
    rw [validateUniqueColumns_cons] at passed
    rcases mem_cons.mp mem with eq | mem
    · cases eq
      rw [if_neg (by rw [checked]; exact Bool.false_ne_true)] at passed
      cases taken : t.valueTaken row col j with
      | error e =>
        rw [taken] at passed
        cases passed
      | ok isTaken =>
        rw [taken] at passed
        cases isTaken with
        | false => rfl
        | true => cases passed
    · split at passed
      · exact ih passed mem
      · cases taken : t.valueTaken row fst k with
        | error e =>
          rw [taken] at passed
          cases passed
        | ok isTaken =>
          rw [taken] at passed
          cases isTaken with
          | false => exact ih passed mem
          | true => cases passed

/-- A column flagged UNIQUE, where the loop over the columns passes. -/
theorem KeyIndexes.keyFree_unique (idxs : t.KeyIndexes) (noConstraints : t.uniqueConstraints = [])
    (passed : t.validateUniqueColumns row none t.columns.zipIdx = .ok true)
    (isAt : t.columns[j]? = some col) (isCol : t.getColumnIndex col.name = some j)
    (unique : col.unique = true) : t.KeyFree t.directory row [col.name] := by
  intro filled other stored live agree
  obtain ⟨i, here, inRange⟩ := exists_position stored
  obtain ⟨v, w, hereValue, thereValue, equal⟩ := agree col.name (by simp)
  obtain ⟨v', isVal, notNull⟩ := filled col.name (by simp)
  rw [some.inj (isVal.symm.trans hereValue)] at notNull
  unfold valueAt at hereValue thereValue
  rw [isCol, bind_some] at hereValue thereValue
  have uncovered : t.coveredByConstraint col.name = false := by
    unfold coveredByConstraint
    rw [noConstraints]
    rfl
  have looked := validateUniqueColumns_pass passed
    (List.mem_zipIdx_iff_getElem?.mpr isAt : (col, j) ∈ t.columns.zipIdx)
    (by simp [unique, uncovered, hereValue, notNull])
  unfold valueTaken at looked
  rw [hereValue, getD_some] at looked
  dsimp only at looked
  split at looked
  · cases hit : t.findRowsByValue col.name v with
    | error e =>
      rw [hit] at looked
      cases looked
    | ok ps =>
      rw [hit] at looked
      refine anyLive_false looked ?_ here live
      refine idxs.mem_findRowsByValue (List.mem_of_getElem? isAt) (by simp [unique]) hit isCol
        here ?_ notNull
      rw [thereValue]
      exact equal
  · have tested := scanLive_false looked inRange here live
    rw [thereValue, getD_some, equal] at tested
    cases tested

/-! ## Acceptance -/

theorem checkWrite_of_insertRow (acc : (t.insertRow fns row).2 = .ok ()) :
    t.checkWrite fns row none "Row does not satisfy table constraints" = .ok () := by
  unfold insertRow at acc
  cases checked : t.checkWrite fns row none "Row does not satisfy table constraints" with
  | error e =>
    rw [checked] at acc
    cases acc
  | ok _ => rfl

theorem validateRow_of_checkWrite {exclude : Option Nat} {text : String}
    (passed : t.checkWrite fns row exclude text = .ok ()) :
    t.validateRow fns row exclude = .ok true := by
  unfold checkWrite at passed
  by_cases arity : row.values.length = t.columns.length
  · simp only [arity, ne_eq, not_true_eq_false, if_false] at passed
    obtain ⟨violated, -, passed⟩ := Exn.bind_eq_ok passed
    cases violated with
    | some name => cases passed
    | none =>
      obtain ⟨valid, validated, passed⟩ := Exn.bind_eq_ok passed
      cases valid with
      | true => exact validated
      | false => cases passed
  · simp only [arity, ne_eq, not_false_eq_true, if_true] at passed
    cases passed

/-- What `validate_row` has found when it returns true. -/
structure Validated (fns : Functions) (t : Table) (row : Row) (exclude : Option Nat) : Prop where
  arity : row.values.length = t.columns.length
  notNull : (t.columns.zip row.values).any (fun p => !p.1.nullable && p.2.isNull) = false
  unique : t.validateUniqueConstraint row exclude = .ok true
  primary : t.validatePrimaryKeyUniqueness row exclude = .ok true
  checks : t.findViolatedCheck fns row t.checks = .ok none

theorem validated_of_validateRow {exclude : Option Nat}
    (passed : t.validateRow fns row exclude = .ok true) : Validated fns t row exclude := by
  unfold validateRow at passed
  by_cases arity : row.values.length = t.columns.length
  · by_cases null : (t.columns.zip row.values).any (fun p => !p.1.nullable && p.2.isNull) = true
    · simp only [arity, null, ne_eq, not_true_eq_false, if_false, if_true] at passed
      cases passed
    · simp only [arity, null, ne_eq, not_true_eq_false, if_false] at passed
      obtain ⟨isUnique, unique, passed⟩ := Exn.bind_eq_ok passed
      cases isUnique with
      | false => cases passed
      | true =>
        obtain ⟨isKey, primary, passed⟩ := Exn.bind_eq_ok passed
        cases isKey with
        | false => cases passed
        | true =>
          obtain ⟨violated, checks, passed⟩ := Exn.bind_eq_ok passed
          cases violated with
          | some name => cases passed
          | none => exact ⟨arity, (Bool.not_eq_true _).mp null, unique, primary, checks⟩
  · simp only [arity, ne_eq, not_false_eq_true, if_true] at passed
    cases passed

theorem checks_of_findViolatedCheck {checks : List CheckConstraint}
    (passed : t.findViolatedCheck fns row checks = .ok none) {check : CheckConstraint}
    (mem : check ∈ checks) {predicate : Expr Empty} (isPredicate : check.predicate = some predicate) :
    (t.checkEvaluator fns).evaluateCheckCondition row predicate = .ok true := by
  induction checks with
  | nil => cases mem
  | cons fst rest ih =>
    unfold findViolatedCheck at passed
    cases isFirst : fst.predicate with
    | none =>
      rw [isFirst] at passed
      rcases mem_cons.mp mem with rfl | mem
      · rw [isFirst] at isPredicate
        cases isPredicate
      · exact ih passed mem
    | some condition =>
      rw [isFirst] at passed
      simp only [bind, Except.bind, pure, Except.pure] at passed
      cases vals : (t.checkEvaluator fns).evaluateCheckCondition row condition with
      | error e =>
        rw [vals] at passed
        cases passed
      | ok holds =>
        rw [vals] at passed
        cases holds with
        | false => cases passed
        | true =>
          rcases mem_cons.mp mem with rfl | mem
          · rw [isFirst] at isPredicate
            rw [← some.inj isPredicate]
            exact vals
          · exact ih passed mem

end NobugDb.Table
