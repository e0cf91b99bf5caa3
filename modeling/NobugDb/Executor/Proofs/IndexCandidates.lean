import NobugDb.Core.Proofs.Rows
import NobugDb.Executor.IndexPath

/-!
# Which rows the index path reaches

With indexes that are correct multimaps over the rows, `collect_candidate_rows` yields exactly
the rows whose values satisfy a condition on the row alone: no NULL in the columns of the
index used, and values that meet the literals.
-/

namespace NobugDb.Table

open Misc (AssocMap)

/-! ## Correct indexes -/

/-- The key of a row in the index of one column. -/
def columnKey (t : Table) (name : String) (row : Row) : Option IndexKey :=
  (t.getColumnIndex name).map (fun i => [(row.getValue? i).getD .null])

/-- The key of a row in a named index. -/
def namedKey (t : Table) (columns : List String) (row : Row) : Option IndexKey :=
  (t.buildIndexKey row columns).toOption

/-- Row `i` of the table has a key in the index that passes the test. -/
def HasKey (t : Table) (keyOf : Row → Option IndexKey) (test : IndexKey → Bool) (i : Nat) : Prop :=
  ∃ row key, t.directory[i]? = some (some row) ∧ keyOf row = some key ∧
    key.indexable = true ∧ test key = true

/-- The index is a correct multimap over the rows: each lookup finds the rows whose key meets
    it, each row once. Rows with a NULL in their key are not in the index. -/
structure IndexOn (t : Table) (keyOf : Row → Option IndexKey) (index : BTreeIndex) : Prop where
  equal : ∀ key i, i ∈ index.findEqual key ↔ t.HasKey keyOf (·.eq key) i
  pre : ∀ key i, key ≠ [] → (i ∈ index.findPrefix key ↔ t.HasKey keyOf (·.startsWith key) i)
  range : ∀ lower lowerInclusive upper upperInclusive i,
    i ∈ index.findRange lower lowerInclusive upper upperInclusive ↔
      t.HasKey keyOf
        (fun k => passesLower k lower lowerInclusive && passesUpper k upper upperInclusive) i
  equalOnce : ∀ key, (index.findEqual key).Nodup
  prefixOnce : ∀ key, (index.findPrefix key).Nodup

/-- Every index of the table is a correct multimap, and every secondary index is built. -/
structure IndexesCorrect (t : Table) : Prop where
  column : ∀ name index, t.columnIndices.lookup name = some index →
    t.IndexOn (t.columnKey name) index
  named : ∀ e ∈ t.secondaryIndexes, ∃ index, t.namedIndices.lookup e.1 = some index ∧
    t.IndexOn (t.namedKey e.2) index
  names : (t.secondaryIndexes.map Prod.fst).Nodup

/-! ## What reaches a row -/

/-- A value meets the bound a predicate gives the index. -/
def within (pred : IndexColumnPredicate) (v : Value) : Bool :=
  match pred.op with
  | .equal => v.eq pred.literal
  | .less => v.lt pred.literal
  | .lessEqual => !pred.literal.lt v
  | .greater => pred.literal.lt v
  | .greaterEqual => !v.lt pred.literal

/-- The columns of the index that serves a predicate: for an equality on a column that has no
    index of its own, those of the first secondary index that starts with it. -/
def servingColumns (t : Table) (pred : IndexColumnPredicate) : List String :=
  if pred.op = .equal ∧ t.columnIndices.contains pred.columnName = false then
    match t.secondaryIndexes.find? (fun e => e.2.head? == some pred.columnName) with
    | some e => e.2
    | none => [pred.columnName]
  else [pred.columnName]

/-- The index path of one predicate reaches the row: it has no NULL in the columns of the
    index, and its value lies within the bound. -/
def ReachedBy (t : Table) (pred : IndexColumnPredicate) (row : Row) : Prop :=
  ∃ key, t.namedKey (t.servingColumns pred) row = some key ∧ key.indexable = true ∧
    key.head?.any (within pred) = true

/-- The index path of WHERE reaches the row. -/
def Reached {Q : Type} (t : Table) (aliasName : String) (cond : Option (Expr Q)) (row : Row) :
    Prop :=
  match t.bestIndex (equalByColumn (t.tablePredicates aliasName cond)) with
  | some (indexName, key) =>
    ∃ columns full, (indexName, columns) ∈ t.secondaryIndexes ∧
      t.namedKey columns row = some full ∧ full.indexable = true ∧ full.startsWith key = true
  | none =>
    ∀ p ∈ t.tablePredicates aliasName cond, t.hasIndex p.columnName = true → t.ReachedBy p row

/-! ## Keys of one column -/

@[simp] theorem lt_single (a b : Value) : IndexKey.lt [a] [b] = a.lt b := by
  simp [IndexKey.lt]

theorem namedKey_single (t : Table) (name : String) (row : Row) (key : IndexKey) :
    (t.namedKey [name] row = some key ∧ key.indexable = true) ↔
      (t.columnKey name row = some key ∧ key.indexable = true) := by
  unfold namedKey columnKey buildIndexKey
  cases hit : t.getColumnIndex name with
  | none => simp [hit, Except.toOption]
  | some i =>
    cases value : row.getValue? i with
    | none =>
      simp [hit, value, Except.toOption]
      rintro rfl
      decide
    | some v => simp [hit, value, Except.toOption]

variable {t : Table} {pred : IndexColumnPredicate} {row : Row} {key : IndexKey} {stored : List Row}

theorem hasKey_iff {i : Nat} (stored : t.directory[i]? = some (some row))
    (keyOf : Row → Option IndexKey) (test : IndexKey → Bool) :
    t.HasKey keyOf test i ↔
      ∃ key, keyOf row = some key ∧ key.indexable = true ∧ test key = true := by
  constructor
  · rintro ⟨ne, key, hit, rest⟩
    rw [stored, Option.some.injEq, Option.some.injEq] at hit
    exact ⟨key, hit ▸ rest⟩
  · rintro ⟨key, rest⟩
    exact ⟨row, key, stored, rest⟩

theorem length_of_namedKey {cols : List String} (hit : t.namedKey cols row = some key) :
    key.length = cols.length := by
  unfold namedKey at hit
  cases built : t.buildIndexKey row cols with
  | error e =>
    rw [built] at hit
    cases hit
  | ok ne =>
    rw [built] at hit
    cases hit
    simpa using (congrArg List.length (Exn.mapM_eq_ok_iff.mp built)).symm

theorem eq_eq_startsWith {other : IndexKey} (lengths : key.length = other.length) :
    key.eq other = key.startsWith other := by
  induction key generalizing other with
  | nil =>
    cases other with
    | nil => rfl
    | cons v vs => simp at lengths
  | cons k ks ih =>
    cases other with
    | nil => simp at lengths
    | cons v vs => simp only [IndexKey.eq, IndexKey.startsWith, ih (by simpa using lengths)]

theorem startsWith_single (key : IndexKey) (v : Value) :
    key.startsWith [v] = key.head?.any (·.eq v) := by
  cases key with
  | nil => rfl
  | cons k ks => simp [IndexKey.startsWith]

theorem IndexesCorrect.firstNamed (correct : t.IndexesCorrect) (test : List String → Bool) :
    (t.firstNamed test = none ∧ t.secondaryIndexes.find? (fun e => test e.2) = none) ∨
    ∃ e idx, t.firstNamed test = some (e.2, idx) ∧
      t.secondaryIndexes.find? (fun e => test e.2) = some e ∧ t.IndexOn (t.namedKey e.2) idx := by
  have built := correct.named
  unfold Table.firstNamed
  generalize t.secondaryIndexes = indexes at built ⊢
  induction indexes with
  | nil => exact Or.inl ⟨rfl, rfl⟩
  | cons e rest ih =>
    by_cases passes : test e.2 = true
    · obtain ⟨idx, hit, on⟩ := built e (by simp)
      exact Or.inr ⟨e, idx, by simp [passes, hit], by simp [passes], on⟩
    · have skipped := ih (fun x mem => built x (by simp [mem]))
      simpa [passes] using skipped

/-! ## One predicate -/

theorem reachedBy_iff_columnKey (single : t.servingColumns pred = [pred.columnName]) :
    t.ReachedBy pred row ↔ ∃ key, t.columnKey pred.columnName row = some key ∧
      key.indexable = true ∧ key.head?.any (within pred) = true := by
  unfold ReachedBy
  rw [single]
  constructor
  · rintro ⟨key, hit, ok, bound⟩
    obtain ⟨hit, ok⟩ := (namedKey_single t _ row key).mp ⟨hit, ok⟩
    exact ⟨key, hit, ok, bound⟩
  · rintro ⟨key, hit, ok, bound⟩
    obtain ⟨hit, ok⟩ := (namedKey_single t _ row key).mpr ⟨hit, ok⟩
    exact ⟨key, hit, ok, bound⟩

theorem single_of_columnKey {name : String} (hit : t.columnKey name row = some key) :
    ∃ v, key = [v] := by
  obtain ⟨i, _, rfl⟩ := Option.map_eq_some_iff.mp hit
  exact ⟨_, rfl⟩

theorem IndexesCorrect.findRowsByValue (correct : t.IndexesCorrect) (isEqual : pred.op = .equal)
    (col : (t.getColumnIndex pred.columnName).isSome = true)
    (idx : t.hasIndex pred.columnName = true) :
    ∃ rows, t.findRowsByValue pred.columnName pred.literal = .ok rows ∧
      ∀ i row, t.directory[i]? = some (some row) → (i ∈ rows ↔ t.ReachedBy pred row) := by
  obtain ⟨pos, isCol⟩ := Option.isSome_iff_exists.mp col
  have bound : ∀ key : IndexKey, key.startsWith [pred.literal] = key.head?.any (within pred) := by
    intro key
    rw [startsWith_single]
    cases key with
    | nil => rfl
    | cons v vs => simp [within, isEqual]
  cases own : t.columnIndices.lookup pred.columnName with
  | some index =>
    have on := correct.column _ index own
    refine ⟨index.findEqual [pred.literal], by simp [Table.findRowsByValue, isCol, own], ?_⟩
    intro i row stored
    have serving : t.servingColumns pred = [pred.columnName] := by
      simp [servingColumns, AssocMap.contains, own]
    rw [on.equal, hasKey_iff stored, reachedBy_iff_columnKey serving]
    refine exists_congr fun key => and_congr_right fun hit => and_congr_right fun _ => ?_
    obtain ⟨v, rfl⟩ := single_of_columnKey hit
    rw [eq_eq_startsWith (by simp), bound]
  | none =>
    have notOwn : t.columnIndices.contains pred.columnName = false := by
      simp [AssocMap.contains, own]
    rcases correct.firstNamed (fun cols => cols.head? == some pred.columnName) with
      ⟨_, absent⟩ | ⟨e, index, fst, hit, on⟩
    · -- an index starts with the column, so there is a first one
      simp only [hasIndex, notOwn, Bool.false_or, List.any_eq_true] at idx
      obtain ⟨e, mem, starts⟩ := idx
      exact absurd starts (List.find?_eq_none.mp absent e mem)
    · have serving : t.servingColumns pred = e.2 := by
        simp only [servingColumns, isEqual, notOwn, true_and, if_true]
        rw [hit]
      refine ⟨_, by simp only [Table.findRowsByValue, isCol, own, fst]; rfl, ?_⟩
      intro i row stored
      by_cases single : e.2.length = 1
      · rw [if_pos single, on.equal, hasKey_iff stored, ReachedBy, serving]
        refine exists_congr fun key => and_congr_right fun named => and_congr_right fun _ => ?_
        rw [eq_eq_startsWith (by rw [length_of_namedKey named, single]; rfl), bound]
      · rw [if_neg single, on.pre _ _ (by simp), hasKey_iff stored, ReachedBy, serving]
        refine exists_congr fun key => and_congr_right fun _ => and_congr_right fun _ => ?_
        rw [bound]

/-- The bounds `lookup_predicate_rows` passes for a predicate. -/
def bounds (pred : IndexColumnPredicate) : Option Value × Bool × Option Value × Bool :=
  match pred.op with
  | .equal => (none, true, none, true)
  | .less => (none, true, some pred.literal, false)
  | .lessEqual => (none, true, some pred.literal, true)
  | .greater => (some pred.literal, false, none, true)
  | .greaterEqual => (some pred.literal, true, none, true)

theorem passes_bounds (isRange : pred.op ≠ .equal) (v : Value) :
    (passesLower [v] ((bounds pred).1.map ([·])) (bounds pred).2.1 &&
      passesUpper [v] ((bounds pred).2.2.1.map ([·])) (bounds pred).2.2.2) = within pred v := by
  unfold bounds within
  cases op : pred.op with
  | equal => exact absurd op isRange
  | _ => simp [passesLower, passesUpper]

theorem mem_pos {test : Row → Bool} {rows : List Row} {i : Nat} :
    i ∈ positions test rows ↔ ∃ row, rows[i]? = some row ∧ test row = true := by
  unfold positions
  rw [List.mem_findIdxs_iff_getElem_sub_pos]
  simp only [Nat.zero_le, Nat.sub_zero, true_and]
  constructor
  · rintro ⟨below, passes⟩
    exact ⟨rows[i], List.getElem?_eq_getElem below, passes⟩
  · rintro ⟨row, hit, passes⟩
    obtain ⟨below, rfl⟩ := List.getElem?_eq_some_iff.mp hit
    exact ⟨below, passes⟩

/-- `find_rows_by_range` finds the rows a range predicate reaches; an index on further columns
    does not serve it, and the table is read instead. -/
theorem IndexesCorrect.findRowsByRange (correct : t.IndexesCorrect) (isRange : pred.op ≠ .equal)
    (readable : t.getAllRows = .ok stored) (col : (t.getColumnIndex pred.columnName).isSome = true) :
    ∃ rows, t.findRowsByRange pred.columnName (bounds pred).1 (bounds pred).2.1 (bounds pred).2.2.1
        (bounds pred).2.2.2 = .ok rows ∧
      ∀ i row, t.directory[i]? = some (some row) → (i ∈ rows ↔ t.ReachedBy pred row) := by
  obtain ⟨pos, isCol⟩ := Option.isSome_iff_exists.mp col
  have serving : t.servingColumns pred = [pred.columnName] := by simp [servingColumns, isRange]
  -- any index that holds the column's values as keys answers alike
  have answers : ∀ idx keyOf, t.IndexOn keyOf idx →
      (∀ row key, keyOf row = some key ∧ key.indexable = true ↔
        t.columnKey pred.columnName row = some key ∧ key.indexable = true) →
      ∀ i row, t.directory[i]? = some (some row) →
        (i ∈ idx.findRange ((bounds pred).1.map ([·])) (bounds pred).2.1
          ((bounds pred).2.2.1.map ([·])) (bounds pred).2.2.2 ↔ t.ReachedBy pred row) := by
    intro idx keyOf on keys i row has
    rw [on.range, hasKey_iff has, reachedBy_iff_columnKey serving]
    refine exists_congr fun key => ?_
    rw [← and_assoc, ← and_assoc, keys row key]
    refine and_congr_right fun hit => ?_
    obtain ⟨v, rfl⟩ := single_of_columnKey hit.1
    rw [passes_bounds isRange]
    simp
  unfold Table.findRowsByRange
  simp only [isCol]
  cases own : t.columnIndices.lookup pred.columnName with
  | some idx =>
    exact ⟨_, rfl, answers idx _ (correct.column _ idx own) fun _ _ => Iff.rfl⟩
  | none =>
    rcases correct.firstNamed (fun cols => cols == [pred.columnName]) with
      ⟨absent, _⟩ | ⟨e, idx, fst, hit, on⟩
    · rw [absent, readable]
      refine ⟨_, rfl, fun i row has => ?_⟩
      rw [dir_of_getAllRows readable, List.getElem?_map] at has
      obtain ⟨ne, hit, eq⟩ := Option.map_eq_some_iff.mp has
      obtain rfl := Option.some.inj eq
      rw [mem_pos, reachedBy_iff_columnKey serving]
      simp only [hit, Option.some.injEq, exists_eq_left', columnKey, isCol, Option.map_some]
      rw [Bool.and_assoc, passes_bounds isRange]
      simp [IndexKey.indexable, IndexKey.hasNull]
    · have cols : e.2 = [pred.columnName] := by
        simpa using List.find?_some hit
      rw [fst]
      rw [cols] at on
      exact ⟨_, rfl, answers idx _ on fun row key => namedKey_single t _ row key⟩

theorem IndexesCorrect.lookupPredicateRows (correct : t.IndexesCorrect)
    (readable : t.getAllRows = .ok stored) (col : (t.getColumnIndex pred.columnName).isSome = true)
    (idx : t.hasIndex pred.columnName = true) :
    ∃ rows, t.lookupPredicateRows pred = .ok rows ∧
      ∀ i row, t.directory[i]? = some (some row) → (i ∈ rows ↔ t.ReachedBy pred row) := by
  by_cases isEqual : pred.op = .equal
  · have byValue := correct.findRowsByValue isEqual col idx
    simpa [Table.lookupPredicateRows, idx, isEqual] using byValue
  · have byRange := correct.findRowsByRange isEqual readable col
    unfold Table.lookupPredicateRows
    unfold bounds at byRange
    cases op : pred.op with
    | equal => exact absurd op isEqual
    | _ => simpa [idx, op] using byRange

theorem IndexesCorrect.intersectRows (correct : t.IndexesCorrect) (readable : t.getAllRows = .ok stored)
    (preds : List IndexColumnPredicate)
    (cols : ∀ p ∈ preds, (t.getColumnIndex p.columnName).isSome = true) (start : Option (Finset Nat)) :
    ∃ res, t.intersectRows preds start = .ok res ∧
      (res = none → start = none ∧ ∀ p ∈ preds, t.hasIndex p.columnName = false) ∧
      ∀ rows, res = some rows → ∀ i row, t.directory[i]? = some (some row) →
        (i ∈ rows ↔ (∀ s, start = some s → i ∈ s) ∧
          ∀ p ∈ preds, t.hasIndex p.columnName = true → t.ReachedBy p row) := by
  induction preds generalizing start with
  | nil =>
    refine ⟨start, rfl, fun none => ⟨none, by simp⟩, ?_⟩
    rintro rows rfl i row _
    simp
  | cons p ps ih =>
    have rest := ih (fun q mem => cols q (by simp [mem]))
    by_cases idx : t.hasIndex p.columnName = true
    · obtain ⟨hit, looked, members⟩ :=
        correct.lookupPredicateRows readable (cols p (by simp)) idx
      obtain ⟨res, computed, isNone, isSome⟩ :=
        rest (some (start.elim hit.toFinset (· ∩ hit.toFinset)))
      refine ⟨res, ?_, fun none => absurd (isNone none).1 (by simp), ?_⟩
      · rw [Table.intersectRows, idx, looked]
        cases start <;> exact computed
      · intro rows isRows i row has
        rw [isSome rows isRows i row has]
        simp only [Option.some.injEq, forall_eq', List.forall_mem_cons, idx, true_implies,
          ← members i row has]
        cases start with
        | none => simp
        | some s => simp [and_assoc]
    · obtain ⟨res, computed, isNone, isSome⟩ := rest start
      have skipped : t.hasIndex p.columnName = false := by simpa using idx
      refine ⟨res, ?_, fun none => ⟨(isNone none).1, ?_⟩, ?_⟩
      · rw [Table.intersectRows, skipped]
        exact computed
      · simpa [skipped] using (isNone none).2
      · intro rows isRows i row has
        rw [isSome rows isRows i row has]
        simp [skipped]

/-! ## The candidates of WHERE -/

theorem length_keyPrefix_le (equals : AssocMap String Value) (cols : List String) :
    (keyPrefix equals cols).length ≤ cols.length := by
  induction cols with
  | nil => simp [keyPrefix]
  | cons c cs ih =>
    unfold keyPrefix
    cases equals.lookup c with
    | none => simp
    | some v => simpa using ih

theorem bestIndex_some {equals : AssocMap String Value} {name : String}
    (chosen : t.bestIndex equals = some (name, key)) :
    ∃ cols, (name, cols) ∈ t.secondaryIndexes ∧ key = keyPrefix equals cols ∧ key ≠ [] := by
  have invariant : ∀ (idxs : AssocMap String (List String)) (best : Option (String × IndexKey)),
      idxs ⊆ t.secondaryIndexes →
      (∀ name key, best = some (name, key) → ∃ cols, (name, cols) ∈ t.secondaryIndexes ∧
        key = keyPrefix equals cols ∧ key ≠ []) →
      ∀ name key, idxs.foldl (fun best e =>
          if (best.map (·.2.length)).getD 0 < (keyPrefix equals e.2).length
          then some (e.1, keyPrefix equals e.2) else best) best = some (name, key) →
        ∃ cols, (name, cols) ∈ t.secondaryIndexes ∧ key = keyPrefix equals cols ∧ key ≠ [] := by
    intro idxs
    induction idxs with
    | nil => exact fun best _ holds => holds
    | cons e rest ih =>
      intro best within holds
      refine ih _ (fun x mem => within (by simp [mem])) ?_
      intro name key chosen
      beta_reduce at chosen
      split at chosen
      · rename_i longer
        cases chosen
        refine ⟨e.2, within (by simp), rfl, ?_⟩
        intro empty
        rw [empty] at longer
        simp at longer
      · exact holds name key chosen
  exact invariant t.secondaryIndexes none (List.Subset.refl _) (by simp) name key chosen

/-- What `collect_candidate_rows` yields: no candidates when no index serves WHERE, and the
    rows reached otherwise, each once. -/
theorem IndexesCorrect.collectCandidateRows {Q : Type} (correct : t.IndexesCorrect)
    (readable : t.getAllRows = .ok stored) (aliasName : String) (cond : Option (Expr Q)) :
    ∃ cands, t.collectCandidateRows aliasName cond = .ok cands ∧
      (cands = none → ∀ row, t.Reached aliasName cond row) ∧
      ∀ rows, cands = some rows → rows.Nodup ∧
        ∀ i row, t.directory[i]? = some (some row) →
          (i ∈ rows ↔ t.Reached aliasName cond row) := by
  unfold Table.collectCandidateRows Reached
  cases chosen : t.bestIndex (equalByColumn (t.tablePredicates aliasName cond)) with
  | some best =>
    obtain ⟨name, key⟩ := best
    obtain ⟨columns, mem, isPrefix, nonempty⟩ := bestIndex_some chosen
    obtain ⟨index, built, on⟩ := correct.named _ mem
    have named : t.secondaryIndexes.lookup name = some columns :=
      (Misc.lookup_eq_some_iff_mem correct.names).mpr mem
    have unique : ∀ other, (name, other) ∈ t.secondaryIndexes → other = columns := by
      intro other has
      have hit := (Misc.lookup_eq_some_iff_mem correct.names).mpr has
      rw [named, Option.some.injEq] at hit
      exact hit.symm
    have short : key.length ≤ columns.length := isPrefix ▸ length_keyPrefix_le _ _
    -- the rows found are those whose full key starts with the literals
    have answers : t.findRowsByIndexKey name key = (if key.length = columns.length
        then index.findEqual key else index.findPrefix key) := by
      simp only [findRowsByIndexKey, built, named]
      split
      · rfl
      · rw [if_pos (by omega)]
    have members : ∀ i row, t.directory[i]? = some (some row) → (i ∈ t.findRowsByIndexKey name key ↔
          ∃ full, t.namedKey columns row = some full ∧ full.indexable = true ∧
            full.startsWith key = true) := by
      intro i row has
      rw [answers]
      split
      · rename_i whole
        rw [on.equal, hasKey_iff has]
        refine exists_congr fun full => and_congr_right fun hit => and_congr_right fun _ => ?_
        rw [eq_eq_startsWith (by rw [length_of_namedKey hit, whole])]
      · rw [on.pre _ _ nonempty, hasKey_iff has]
    refine ⟨some (t.findRowsByIndexKey name key), by simp only [chosen], by simp, ?_⟩
    intro rows isRows
    cases isRows
    refine ⟨?_, fun i row has => ?_⟩
    · rw [answers]
      split
      · exact on.equalOnce key
      · exact on.prefixOnce key
    · rw [members i row has]
      constructor
      · rintro ⟨full, hit⟩
        exact ⟨columns, full, mem, hit⟩
      · rintro ⟨other, full, has, hit⟩
        exact ⟨full, unique other has ▸ hit⟩
  | none =>
    have columns : ∀ p ∈ t.tablePredicates aliasName cond,
        (t.getColumnIndex p.columnName).isSome = true := by
      intro p has
      unfold tablePredicates at has
      cases cond with
      | none => simp at has
      | some e =>
        have passes := (List.mem_filter.mp has).2
        unfold predicateMatches at passes
        rw [Bool.and_eq_true] at passes
        exact passes.2
    obtain ⟨res, computed, isNone, isSome⟩ :=
      correct.intersectRows readable (t.tablePredicates aliasName cond) columns none
    refine ⟨res.map (fun rows => rows.sort (· ≤ ·)), by simp only [chosen, computed]; rfl, ?_, ?_⟩
    · intro none row p has idx
      rw [(isNone (Option.map_eq_none_iff.mp none)).2 p has] at idx
      cases idx
    · intro rows isRows
      obtain ⟨hit, isFound, rfl⟩ := Option.map_eq_some_iff.mp isRows
      refine ⟨Finset.sort_nodup _ _, fun i row has => ?_⟩
      rw [Finset.mem_sort, isSome hit isFound i row has]
      simp

end NobugDb.Table
