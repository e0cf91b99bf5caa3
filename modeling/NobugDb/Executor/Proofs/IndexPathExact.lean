import NobugDb.Executor.Proofs.IndexCandidates

/-!
# The index path against the scan

SELECT, UPDATE and DELETE find through `collect_candidate_rows` what a scan of the visible rows
finds exactly when every visible row that WHERE accepts is one the index path reaches.
-/

namespace NobugDb.Table

open List (mem_filter)
open IndexColumnPredicate (columnNameOf columnOnLeft columnOnRight eval_literal extract
  tryComparison)

variable {Q : Type}

/-! ## Conditions that an index can serve do not throw -/

variable {t : Table} {left right : Expr Q} {pred : IndexColumnPredicate} (ev : Evaluator Q)
  (row : Row) {op : BinOp} {tm : TransactionManager}

theorem eval_column {e : Expr Q} {name : String × String}
    (isCol : columnNameOf e = some name) :
    ∃ v, ev.evaluateExpression row e none = .ok (v, none) := by
  cases e with
  | columnRef tab col =>
    refine ⟨(ev.evaluateColumn row tab col none).1, ?_⟩
    rw [Evaluator.evaluateExpression]
    exact congrArg Except.ok (Prod.ext rfl (ev.evaluateColumn_none row tab col))
  | identifier name =>
    refine ⟨(ev.evaluateColumn row "" name none).1, ?_⟩
    rw [Evaluator.evaluateExpression]
    exact congrArg Except.ok (Prod.ext rfl (ev.evaluateColumn_none row "" name))
  | _ => cases isCol

section

variable (cmp : tryComparison (.binary op left right) = some pred)
include cmp

theorem operands_of_tryComparison :
    (∃ v, ev.evaluateExpression row left none = .ok (v, none)) ∧
      ∃ v, ev.evaluateExpression row right none = .ok (v, none) := by
  simp only [tryComparison] at cmp
  split at cmp
  · rename_i col lit
    exact ⟨eval_column ev row col, _, eval_literal lit⟩
  · split at cmp
    · rename_i col lit
      exact ⟨⟨_, eval_literal lit⟩, eval_column ev row col⟩
    · cases cmp

theorem op_of_tryComparison : op = .eq ∨ op = .lt ∨ op = .le ∨ op = .gt ∨ op = .ge := by
  simp only [tryComparison] at cmp
  split at cmp
  · cases op <;> simp [columnOnLeft] at cmp ⊢
  · split at cmp
    · cases op <;> simp [columnOnRight] at cmp ⊢
    · cases cmp

theorem cmp_evaluates :
    ev.evaluateExpression row (.binary op left right) none = .ok (.null, none) ∧
      ∃ b, ev.evaluateCondition row (.binary op left right) = .ok b := by
  obtain ⟨⟨l, isLeft⟩, ⟨r, isRight⟩⟩ := operands_of_tryComparison ev row cmp
  rw [Evaluator.evaluateExpression, Evaluator.evaluateCondition.eq_def]
  simp only [isLeft, isRight, bind, Except.bind]
  rcases op_of_tryComparison cmp with rfl | rfl | rfl | rfl | rfl
  all_goals exact ⟨rfl, _, rfl⟩

end

/-- A condition from which predicates can be extracted has a truth value in every row. -/
theorem extract_evaluates (e : Expr Q) (sargable : (extract e).isSome = true) :
    ev.evaluateExpression row e none = .ok (.null, none) ∧
      ∃ b, ev.evaluateCondition row e = .ok b := by
  induction e using IndexColumnPredicate.extract.induct with
  | case1 left right ihLeft ihRight =>
    rw [extract] at sargable
    cases fst : extract left with
    | none => simp [fst] at sargable
    | some ps =>
      cases snd : extract right with
      | none => simp [fst, snd] at sargable
      | some qs =>
        obtain ⟨leftValue, a, leftTruth⟩ := ihLeft (by simp [fst])
        obtain ⟨rightValue, b, rightTruth⟩ := ihRight (by simp [snd])
        rw [Evaluator.evaluateExpression, Evaluator.evaluateCondition.eq_def]
        simp only [leftValue, rightValue, leftTruth, rightTruth, bind, Except.bind]
        refine ⟨rfl, ?_⟩
        cases a with
        | true => exact ⟨b, rfl⟩
        | false => exact ⟨false, rfl⟩
  | case2 left right => simp [extract] at sargable
  | case3 e notAnd notOr =>
    rw [extract] at sargable
    · cases cmp : IndexColumnPredicate.tryComparison e with
      | none => simp [cmp] at sargable
      | some pred =>
        cases e with
        | binary op left right => exact cmp_evaluates ev row cmp
        | _ => cases cmp
    · exact notAnd
    · exact notOr

theorem sargable_of_candidates {aliasName : String} {cond : Option (Expr Q)} {rows : List Nat}
    (hit : t.collectCandidateRows aliasName cond = .ok (some rows)) :
    ∃ e, cond = some e ∧ (extract e).isSome = true := by
  have empty : t.tablePredicates aliasName cond ≠ [] := by
    intro none
    have noIndex : t.bestIndex [] = Option.none := by
      cases chosen : t.bestIndex [] with
      | none => rfl
      | some best =>
        obtain ⟨cols, _, isPrefix, nonempty⟩ := bestIndex_some chosen
        cases cols <;> exact absurd isPrefix nonempty
    simp only [Table.collectCandidateRows, none, equalByColumn, List.filter_nil, List.foldl_nil,
      noIndex, intersectRows] at hit
    cases hit
  cases cond with
  | none => exact absurd rfl empty
  | some e =>
    refine ⟨e, rfl, ?_⟩
    by_contra notSargable
    apply empty
    rw [Bool.not_eq_true, Option.isSome_eq_false_iff, Option.isNone_iff_eq_none] at notSargable
    simp [tablePredicates, notSargable]

/-! ## The rows WHERE keeps -/

/-- WHERE accepts the row. -/
def Accepts (ev : Evaluator Q) (cond : Option (Expr Q)) (row : Row) : Prop :=
  accepts ev cond row = .ok true

instance (ev : Evaluator Q) (cond : Option (Expr Q)) (row : Row) :
    Decidable (Accepts ev cond row) :=
  match h : accepts ev cond row with
  | .ok true => .isTrue h
  | .ok false => .isFalse (by simp [Accepts, h])
  | .error _ => .isFalse (by simp [Accepts, h])

theorem getRow_of_stored {stored : List Row} (readable : t.getAllRows = .ok stored) {i : Nat}
    {row : Row} (has : stored[i]? = some row) : t.getRow i = .ok row := by
  simp [getRow, dir_of_getAllRows readable, has, readSlot]

/-- Where WHERE throws for no row, the loop keeps the accepted rows among those it reads. -/
theorem acceptedRows_eq {stored : List Row} (readable : t.getAllRows = .ok stored) (ev : Evaluator Q)
    (cond : Option (Expr Q)) (total : ∀ row, ∃ b, accepts ev cond row = .ok b) (indices : List Nat)
    (isIn : ∀ i ∈ indices, i < stored.length) :
    t.acceptedRows ev cond indices = .ok
      ((indices.filter fun i => (stored[i]?).any (fun row => Accepts ev cond row)).map
        fun i => (i, (stored[i]?).getD ⟨[], 0, 0⟩)) := by
  induction indices with
  | nil => rfl
  | cons i is ih =>
    have below := isIn i (by simp)
    have has : stored[i]? = some stored[i] := List.getElem?_eq_getElem below
    obtain ⟨b, truth⟩ := total stored[i]
    rw [acceptedRows, getRow_of_stored readable has]
    simp only [bind, Except.bind, truth, ih (fun j mem => isIn j (by simp [mem]))]
    cases b with
    | true | false => simp [has, Accepts, truth, pure, Except.pure]

/-- Two results are the same rows, in any order, or the same exception. -/
def SameRows {α : Type} : Except Exn (List α) → Except Exn (List α) → Prop
  | .ok rows, .ok others => rows.Perm others
  | .error e, .error f => e = f
  | _, _ => False

theorem perm_map_iff {α β : Type} {part whole : List α} (f : α → β) (once : part.Nodup)
    (within : part ⊆ whole) (wholeOnce : whole.Nodup) :
    (part.map f).Perm (whole.map f) ↔ whole ⊆ part := by
  constructor
  · intro permuted
    have lengths : whole.length ≤ part.length := by
      simpa using permuted.length_eq.ge
    exact ((List.subperm_of_subset once within).perm_of_length_le lengths).symm.subset
  · intro all
    refine List.Perm.map f ((List.perm_ext_iff_of_nodup once wholeOnce).mpr fun a => ?_)
    exact ⟨fun mem => within mem, fun mem => all mem⟩

/-- The visible rows that WHERE accepts are all reached by the index path. -/
def AcceptedReached (t : Table) (tm : TransactionManager) (reader : Nat)
    (snapshot : Option TransactionSnapshot) (aliasName : String) (cond : Option (Expr Q))
    (ev : Evaluator Q) : Prop :=
  ∀ visible i row, t.getVisibleRowIndices tm reader snapshot = .ok visible → i ∈ visible →
    t.directory[i]? = some (some row) → Accepts ev cond row → t.Reached aliasName cond row

theorem visible_of_ok {reader : Nat} {snap : Option TransactionSnapshot}
    {vis : List Nat} (hit : t.getVisibleRowIndices tm reader snap = .ok vis) :
    ∃ stored, t.getAllRows = .ok stored ∧ vis.Nodup ∧ ∀ i ∈ vis, i < stored.length := by
  obtain ⟨stored, readable, listed⟩ := Exn.bind_eq_ok hit
  cases listed
  refine ⟨stored, readable, List.nodup_findIdxs, fun i mem => ?_⟩
  obtain ⟨row, has, _⟩ := mem_pos.mp mem
  exact (List.getElem?_eq_some_iff.mp has).1

/-- Reading only the visible candidates keeps what reading all visible rows keeps exactly when
    the accepted ones are reached. -/
theorem candidates_agree_iff (correct : t.IndexesCorrect) {reader : Nat}
    {snapshot : Option TransactionSnapshot} {vis : List Nat}
    (hit : t.getVisibleRowIndices tm reader snapshot = .ok vis) {aliasName : String}
    {cond : Option (Expr Q)} {ev : Evaluator Q} {rows : List Nat}
    (cands : t.collectCandidateRows aliasName cond = .ok (some rows)) {β : Type}
    (f : Nat × Row → β) :
    SameRows ((t.acceptedRows ev cond (rows.filter (vis.contains ·))).map (·.map f))
      ((t.acceptedRows ev cond vis).map (·.map f)) ↔
    t.AcceptedReached tm reader snapshot aliasName cond ev := by
  obtain ⟨stored, readable, visibleOnce, isIn⟩ := visible_of_ok hit
  obtain ⟨res, computed, _, isSome⟩ := correct.collectCandidateRows readable aliasName cond
  rw [cands, Except.ok.injEq] at computed
  obtain ⟨rowsOnce, members⟩ := isSome rows computed.symm
  -- a condition with candidates throws for no row
  have total : ∀ row, ∃ b, accepts ev cond row = .ok b := by
    intro row
    obtain ⟨e, rfl, sargable⟩ := sargable_of_candidates cands
    exact (extract_evaluates ev row e sargable).2
  have directory := dir_of_getAllRows readable
  rw [acceptedRows_eq readable ev cond total vis isIn,
    acceptedRows_eq readable ev cond total _ fun i mem =>
      isIn i (by simpa using (mem_filter.mp mem).2)]
  simp only [Except.map, SameRows, List.map_map]
  rw [perm_map_iff _ ((rowsOnce.filter _).filter _) _ (visibleOnce.filter _)]
  · constructor
    · intro all visible' i row eq seen has acc
      rw [hit, Except.ok.injEq] at eq
      subst eq
      have isStored : stored[i]? = some row := by
        rw [directory, List.getElem?_map] at has
        simpa using has
      have kept := all (mem_filter.mpr ⟨seen, by simp [isStored, acc]⟩)
      exact (members i row has).mp (mem_filter.mp (mem_filter.mp kept).1).1
    · intro reached i mem
      obtain ⟨seen, passes⟩ := mem_filter.mp mem
      obtain ⟨row, isStored⟩ : ∃ row, stored[i]? = some row :=
        ⟨_, List.getElem?_eq_getElem (isIn i seen)⟩
      have has : t.directory[i]? = some (some row) := by
        rw [directory, List.getElem?_map, isStored]
        rfl
      rw [isStored, Option.any_some, decide_eq_true_eq] at passes
      refine mem_filter.mpr ⟨mem_filter.mpr ⟨?_, by simpa using seen⟩, ?_⟩
      · exact (members i _ has).mpr (reached vis i _ hit seen has passes)
      · simpa [isStored] using passes
  · intro i mem
    obtain ⟨candidate, passes⟩ := mem_filter.mp mem
    have seen := (mem_filter.mp candidate).2
    exact mem_filter.mpr ⟨by simpa using seen, passes⟩

theorem SameRows.refl {α : Type} (result : Except Exn (List α)) : SameRows result result := by
  cases result with
  | error e => rfl
  | ok rows => exact List.Perm.refl rows

/-! ## The statements -/

/-- A table with an index on `(a, b)` and the row `(1, NULL)`, which the index does not hold. -/
def partialRow : Table where
  name := "t"
  columns := [{ name := "a", type := .int }, { name := "b", type := .int }]
  directory := [some { values := [.int 1, .null] }]
  secondaryIndexes := [("ab", ["a", "b"])]
  namedIndices := [("ab", BTreeIndex.null.insert [.int 1, .null] 0)]

/-- The evaluator of an UPDATE or DELETE of the table outside any procedure. -/
def partialRowEvaluator : Evaluator Empty :=
  partialRow.evaluatorForTable "t"
    { functions := ⟨fun _ _ err => .ok (.null, err), fun text _ => .ok (.string text)⟩
      bindings := [] }

/-- `WHERE a = 1`. -/
def whereOne : Option (Expr Empty) := some (.binary .eq (.identifier "a") (.literal (.int 1)))

theorem partialRow_no_key (test : IndexKey → Bool) (i : Nat) :
    ¬ partialRow.HasKey (partialRow.namedKey ["a", "b"]) test i := by
  rintro ⟨row, key, stored, built, indexable, _⟩
  have fst : i = 0 := by
    by_contra other
    obtain ⟨j, rfl⟩ := Nat.exists_eq_succ_of_ne_zero other
    simp [partialRow] at stored
  subst fst
  obtain rfl : row = { values := [.int 1, .null] } := by
    simpa [partialRow] using stored.symm
  obtain rfl : key = [.int 1, .null] := by
    have computed : partialRow.namedKey ["a", "b"] { values := [.int 1, .null] } =
        some [.int 1, .null] := by decide
    rw [computed, Option.some.injEq] at built
    exact built.symm
  revert indexable
  decide

theorem partialRow_correct : partialRow.IndexesCorrect where
  column := by simp [partialRow]
  named := by
    intro e mem
    obtain rfl : e = ("ab", ["a", "b"]) := by simpa [partialRow] using mem
    refine ⟨.null, rfl, ?_⟩
    constructor
    · exact fun key i => iff_of_false (by simp [BTreeIndex.findEqual]) (partialRow_no_key _ i)
    · exact fun key i _ => iff_of_false (by simp [BTreeIndex.findPrefix]) (partialRow_no_key _ i)
    · exact fun _ _ _ _ i => iff_of_false (by simp [BTreeIndex.findRange]) (partialRow_no_key _ i)
    · exact fun key => List.nodup_nil
    · exact fun key => List.nodup_nil
  names := by simp [partialRow]

end NobugDb.Table
