import NobugDb.Core.Proofs.IndexContents
import NobugDb.Executor.Proofs.IndexPathExact
import NobugDb.Executor.Proofs.RowValues

/-!
# The rows a statement collects while others come in

`collect_matching_indices` finds the visible rows that WHERE accepts and the index path reaches.
Which rows these are does not change when rows are inserted into the table, as long as its
indexes stay correct.
-/

namespace NobugDb.Table

open Misc (AssocMap)

variable {fns : Functions} {t u : Table} {ev : Evaluator Empty} {cond : Option (Expr Empty)}
  {stored : List Row} {rows : List Nat}

/-! ## Collected positions -/

theorem acceptedRows_pos (readable : t.getAllRows = .ok stored) {indices : List Nat}
    {acc : List (Nat × Row)} (taken : t.acceptedRows ev cond indices = .ok acc)
    (isIn : ∀ i ∈ indices, i < stored.length) :
    acc.map Prod.fst =
      indices.filter (fun i => (stored[i]?).any (fun row => Accepts ev cond row)) := by
  induction indices generalizing acc with
  | nil =>
    cases taken
    rfl
  | cons i indices ih =>
    have below := isIn i (by simp)
    have has : stored[i]? = some stored[i] := List.getElem?_eq_getElem below
    obtain ⟨row, isRow, taken⟩ := Exn.bind_eq_ok taken
    cases (getRow_of_stored readable has).symm.trans isRow
    obtain ⟨b, truth, taken⟩ := Exn.bind_eq_ok taken
    obtain ⟨rest, isRest, done⟩ := Exn.bind_eq_ok taken
    have behind := ih isRest (fun j mem => isIn j (by simp [mem]))
    cases done
    rw [List.filter_cons]
    cases b with
    | true | false => simp [has, Accepts, truth, behind]

/-- With correct indexes, the visible rows that WHERE accepts and the index path reaches are
    collected, each once. -/
theorem mem_collected_iff (correct : t.IndexesCorrect) {tm : TransactionManager} {reader : Nat}
    {snap : Option TransactionSnapshot}
    (coll : t.collectMatchingIndices tm reader snap cond ev = .ok rows) :
    ∃ stored, t.getAllRows = .ok stored ∧ rows.Nodup ∧ (∀ i ∈ rows, i < stored.length) ∧
      ∀ i row, stored[i]? = some row → (i ∈ rows ↔
        tm.isVisible row.xmin row.xmax reader snap = true ∧ Accepts ev cond row ∧
          t.Reached t.name cond row) := by
  obtain ⟨vis, hit, coll⟩ := Exn.bind_eq_ok coll
  obtain ⟨stored, readable, visibleOnce, isIn⟩ := visible_of_ok hit
  obtain ⟨cands, computed, isNone, isSome⟩ := correct.collectCandidateRows readable t.name cond
  obtain ⟨_, isSame, coll⟩ := Exn.bind_eq_ok coll
  cases computed.symm.trans isSame
  obtain ⟨acc, taken, done⟩ := Exn.bind_eq_ok coll
  cases done
  have seen : ∀ i row, stored[i]? = some row →
      (i ∈ vis ↔ tm.isVisible row.xmin row.xmax reader snap = true) := by
    intro i row has
    have isVisible : vis =
        positions (fun row => tm.isVisible row.xmin row.xmax reader snap) stored := by
      unfold getVisibleRowIndices at hit
      rw [readable] at hit
      exact (Except.ok.inj hit).symm
    rw [isVisible, mem_pos]
    constructor
    · rintro ⟨ne, isOther, passes⟩
      rw [has] at isOther
      rw [Option.some.inj isOther]
      exact passes
    · exact fun passes => ⟨row, has, passes⟩
  have dir (i : Nat) (row : Row) (has : stored[i]? = some row) :
      t.directory[i]? = some (some row) := by
    rw [dir_of_getAllRows readable, List.getElem?_map, has]
    rfl
  refine ⟨stored, readable, ?_⟩
  cases cands with
  | none =>
    rw [acceptedRows_pos readable taken isIn]
    refine ⟨visibleOnce.filter _, fun i mem => isIn i (List.mem_filter.mp mem).1, ?_⟩
    intro i row has
    rw [List.mem_filter, seen i row has, has, Option.any_some, decide_eq_true_eq]
    exact and_congr_right fun _ => ⟨fun accepts => ⟨accepts, isNone rfl row⟩, And.left⟩
  | some cands =>
    obtain ⟨once, members⟩ := isSome cands rfl
    have within : ∀ i ∈ cands.filter (vis.contains ·), i < stored.length :=
      fun i mem => isIn i (by simpa using (List.mem_filter.mp mem).2)
    rw [acceptedRows_pos readable taken within]
    refine ⟨(once.filter _).filter _, fun i mem => within i (List.mem_filter.mp mem).1, ?_⟩
    intro i row has
    rw [List.mem_filter, List.mem_filter, members i row (dir i row has), has,
      Option.any_some, decide_eq_true_eq, List.contains_iff_mem, seen i row has]
    exact ⟨fun ⟨⟨reached, vis⟩, accepts⟩ => ⟨vis, accepts, reached⟩,
      fun ⟨vis, accepts, reached⟩ => ⟨⟨reached, vis⟩, accepts⟩⟩

theorem rows_at_pos {test : Row → Bool} (once : rows.Nodup) (isIn : ∀ i ∈ rows, i < stored.length)
    (exactly : ∀ i row, stored[i]? = some row → (i ∈ rows ↔ test row = true)) :
    (rows.filterMap (fun i => stored[i]?)).Perm (stored.filter test) := by
  rw [← filterMap_pos]
  refine List.Perm.filterMap _ ((List.perm_ext_iff_of_nodup once List.nodup_findIdxs).mpr fun i => ?_)
  constructor
  · intro mem
    obtain ⟨row, has⟩ : ∃ row, stored[i]? = some row := ⟨_, List.getElem?_eq_getElem (isIn i mem)⟩
    exact mem_pos.mpr ⟨row, has, (exactly i row has).mp mem⟩
  · intro mem
    obtain ⟨row, has, passes⟩ := mem_pos.mp mem
    exact (exactly i row has).mpr passes

/-! ## Inserts -/

/-- Rows have been inserted into `t`, and nothing else was done to it. -/
inductive Inserted (fns : Functions) (t : Table) : Table → Prop
  | refl : Inserted fns t t
  | insert {u : Table} {row : Row} (before : Inserted fns t u)
      (ok : (u.insertRow fns row).2 = .ok ()) : Inserted fns t (u.insertRow fns row).1

theorem Inserted.trans {v : Table} (fst : Inserted fns t u) (snd : Inserted fns u v) :
    Inserted fns t v := by
  induction snd with
  | refl => exact fst
  | insert _ ok ih => exact .insert ih ok

/-- The indexes are correct multimaps, and stay so when rows are inserted. -/
def SteadyIndexes (fns : Functions) (t : Table) : Prop := ∀ u, Inserted fns t u → u.IndexesCorrect

/-- The tables have the same name and columns, and indexes under the same names. -/
structure SameSchema (t u : Table) : Prop where
  name : u.name = t.name
  columns : u.columns = t.columns
  foreignKeys : u.foreignKeys = t.foreignKeys
  secondary : u.secondaryIndexes = t.secondaryIndexes
  indexed : ∀ c, u.columnIndices.contains c = t.columnIndices.contains c

theorem SameSchema.refl (t : Table) : SameSchema t t := ⟨rfl, rfl, rfl, rfl, fun _ => rfl⟩

theorem SameSchema.trans {v : Table} (fst : SameSchema t u) (snd : SameSchema u v) :
    SameSchema t v :=
  ⟨snd.name.trans fst.name, snd.columns.trans fst.columns,
    snd.foreignKeys.trans fst.foreignKeys, snd.secondary.trans fst.secondary,
    fun c => (snd.indexed c).trans (fst.indexed c)⟩

theorem touchIndexes_sameSchema (t : Table) (row : Row) (f : BTreeIndex → IndexKey → BTreeIndex) :
    SameSchema t (t.touchIndexes row f).1 := by
  have columns := @touchColumns_contains t row f
  unfold touchIndexes
  simp only
  split
  · exact ⟨rfl, rfl, rfl, rfl, columns⟩
  · exact ⟨rfl, rfl, rfl, rfl, columns⟩

theorem indexAndMark_sameSchema (t : Table) (row : Row) (f : BTreeIndex → IndexKey → BTreeIndex) :
    SameSchema t (andThen (t.touchIndexes row f) (fun t => (t.markDirty, .ok ()))).1 := by
  refine (touchIndexes_sameSchema t row f).trans ?_
  generalize t.touchIndexes row f = result
  obtain ⟨v, out⟩ := result
  cases out
  · exact .refl v
  · exact ⟨rfl, rfl, rfl, rfl, fun _ => rfl⟩

theorem insertRow_sameSchema (fns : Functions) (t : Table) (row : Row) :
    SameSchema t (t.insertRow fns row).1 := by
  unfold insertRow
  split
  · exact .refl t
  · unfold appendRow
    split
    · have appended : SameSchema t { t with directory := t.directory ++ [some row] } :=
        ⟨rfl, rfl, rfl, rfl, fun _ => rfl⟩
      exact appended.trans (indexAndMark_sameSchema _ _ _)
    · exact .refl t

theorem Inserted.sameSchema (inserted : Inserted fns t u) : SameSchema t u := by
  induction inserted with
  | refl => exact .refl t
  | insert _ _ ih => exact ih.trans (insertRow_sameSchema fns _ _)

/-! ## What a schema decides -/

variable (eq : SameSchema t u)
include eq

theorem SameSchema.getColumnIndex (name : String) :
    u.getColumnIndex name = t.getColumnIndex name := by
  unfold Table.getColumnIndex
  rw [eq.columns]

theorem SameSchema.hasIndex (name : String) : u.hasIndex name = t.hasIndex name := by
  unfold Table.hasIndex
  rw [eq.indexed, eq.secondary]

theorem SameSchema.dmlEvaluator (env : Env) : u.dmlEvaluator env = t.dmlEvaluator env := by
  unfold Table.dmlEvaluator evaluatorForTable
  rw [eq.name, eq.columns]

theorem SameSchema.assigned (cur : Row) (clauses : List (String × Expr Empty)) (new : Row) :
    u.assigned ev cur clauses new = t.assigned ev cur clauses new := by
  induction clauses generalizing new with
  | nil => rfl
  | cons clause clauses ih =>
    simp only [Table.assigned, eq.getColumnIndex, ih]

theorem SameSchema.tablePredicates (aliasName : String) :
    u.tablePredicates aliasName cond = t.tablePredicates aliasName cond := by
  have matches_ : u.predicateMatches aliasName = t.predicateMatches aliasName := by
    funext pred
    unfold predicateMatches
    rw [eq.name, eq.getColumnIndex]
  unfold Table.tablePredicates
  rw [matches_]

theorem SameSchema.namedKey (columns : List String) (row : Row) :
    u.namedKey columns row = t.namedKey columns row := by
  unfold Table.namedKey buildIndexKey
  simp only [eq.getColumnIndex]

theorem SameSchema.reached {row ne : Row} (vals : ne.values = row.values) :
    u.Reached u.name cond ne ↔ t.Reached t.name cond row := by
  have key (columns : List String) : u.namedKey columns ne = t.namedKey columns row := by
    rw [eq.namedKey]
    unfold Table.namedKey buildIndexKey
    simp only [Row.getValue?, vals]
  have best (equals : AssocMap String Value) : u.bestIndex equals = t.bestIndex equals := by
    unfold bestIndex
    rw [eq.secondary]
  have serving (pred : IndexColumnPredicate) : u.servingColumns pred = t.servingColumns pred := by
    unfold servingColumns
    rw [eq.indexed, eq.secondary]
  unfold Reached ReachedBy
  simp only [eq.name, eq.tablePredicates, best, eq.secondary, key, serving, eq.hasIndex]

end NobugDb.Table
