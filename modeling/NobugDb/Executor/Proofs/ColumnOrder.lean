import NobugDb.Core.Proofs.ActiveSession
import NobugDb.Executor.SortOperator
import NobugDb.Misc.Comparison

/-!
# The order of the values of a column

INSERT and UPDATE do not look at the type of a column, so a column can hold integers, strings and
booleans at once. `Value::operator<` compares two integers as numbers and all other pairs by their
printed texts, and on some mixes of values that is no order. Those on which it is one are described
here, and on them the order carries over to index keys and to ORDER BY.
-/

namespace NobugDb

open Misc (Comparison run)
open SortOperator
open Misc.Comparison (lex lexCmp)

/-- A test that is irreflexive, transitive and total up to another one on a set. -/
structure StrictTotalOn {V : Type} (lt eq : V → V → Bool) (S : Set V) : Prop where
  irrefl : ∀ a ∈ S, lt a a = false
  trans : ∀ a ∈ S, ∀ b ∈ S, ∀ c ∈ S, lt a b = true → lt b c = true → lt a c = true
  total : ∀ a ∈ S, ∀ b ∈ S, lt a b = true ∨ eq a b = true ∨ lt b a = true

/-- What `std::stable_sort` asks of the test it is given. -/
structure StrictWeakOn {V : Type} (lt : V → V → Bool) (S : Set V) : Prop where
  irrefl : ∀ a ∈ S, lt a a = false
  trans : ∀ a ∈ S, ∀ b ∈ S, ∀ c ∈ S, lt a b = true → lt b c = true → lt a c = true
  split : ∀ a ∈ S, ∀ b ∈ S, ∀ c ∈ S, lt a c = true → lt a b = true ∨ lt b c = true

namespace Value

/-- A value that is no double. -/
def IsExact : Value → Prop
  | .float _ => False
  | _ => True

/-- A value that is compared by its text with all others. -/
def IsText : Value → Prop
  | .string _ | .bool _ => True
  | _ => False

/-- Values that are ordered by `operator<`. No value has the text of a string or boolean among
    them, and no string or boolean has a text between those of two integers that are the other
    way round as texts. -/
structure Compatible (S : Set Value) : Prop where
  distinct : ∀ a ∈ S, ∀ t ∈ S, a ≠ .null → t.IsText → a.toString = t.toString → a = t
  between : ∀ i j, .int i ∈ S → .int j ∈ S → i < j → ∀ t ∈ S, t.IsText →
    ¬ ((Value.int j).toString < t.toString ∧ t.toString < (Value.int i).toString)

variable {a b c t : Value} {S : Set Value}

theorem isExact_cases (exact : a.IsExact) : a = .null ∨ (∃ i, a = .int i) ∨ a.IsText := by
  cases a with
  | null => exact .inl rfl
  | int i => exact .inr (.inl ⟨i, rfl⟩)
  | float x => exact False.elim exact
  | string s | bool b => exact .inr (.inr trivial)

theorem eq_iff (ha : a.IsExact) (hb : b.IsExact) : a.eq b = true ↔ a = b := by
  cases a <;> cases b <;> first | exact False.elim ha | exact False.elim hb | simp [eq]

theorem lt_null_right (a : Value) : a.lt .null = false := by
  cases a <;> rfl

theorem lt_null_left (has : b ≠ .null) : Value.lt .null b = true := by
  cases b <;> first | rfl | exact absurd rfl has

theorem lt_int_iff {i j : Int} : (Value.int i).lt (.int j) = true ↔ i < j := by
  simp [lt]

theorem lt_text_left_iff (ht : t.IsText) (hb : b.IsExact) (has : b ≠ .null) :
    t.lt b = true ↔ t.toString < b.toString := by
  cases t <;> cases b <;>
    first | exact False.elim ht | exact False.elim hb | exact absurd rfl has | simp [lt, toString]

theorem lt_text_right_iff (ht : t.IsText) (ha : a.IsExact) (has : a ≠ .null) :
    a.lt t = true ↔ a.toString < t.toString := by
  cases t <;> cases a <;>
    first | exact False.elim ht | exact False.elim ha | exact absurd rfl has | simp [lt, toString]

theorem lt_self (exact : a.IsExact) : a.lt a = false := by
  cases a <;> first | exact False.elim exact | simp [lt]

/-! ## When the values are ordered -/

theorem Compatible.trichotomous (compatible : Compatible S) (exact : ∀ v ∈ S, v.IsExact)
    (ha : a ∈ S) (hb : b ∈ S) : a.lt b = true ∨ a = b ∨ b.lt a = true := by
  by_cases nullA : a = .null
  · by_cases nullB : b = .null
    · exact .inr (.inl (nullA.trans nullB.symm))
    · exact .inl (nullA ▸ lt_null_left nullB)
  · by_cases nullB : b = .null
    · exact .inr (.inr (nullB ▸ lt_null_left nullA))
    · obtain null | ⟨i, rfl⟩ | textA := isExact_cases (exact a ha)
      · exact absurd null nullA
      · obtain null | ⟨j, rfl⟩ | textB := isExact_cases (exact b hb)
        · exact absurd null nullB
        · rw [lt_int_iff, lt_int_iff, Value.int.injEq]
          omega
        · rw [lt_text_right_iff textB (exact _ ha) nullA, lt_text_left_iff textB (exact _ ha) nullA]
          obtain less | eq | more := lt_trichotomy (Value.int i).toString b.toString
          · exact .inl less
          · exact .inr (.inl (compatible.distinct _ ha _ hb nullA textB eq))
          · exact .inr (.inr more)
      · rw [lt_text_left_iff textA (exact _ hb) nullB, lt_text_right_iff textA (exact _ hb) nullB]
        obtain less | eq | more := lt_trichotomy a.toString b.toString
        · exact .inl less
        · exact .inr (.inl (compatible.distinct _ hb _ ha nullB textA eq.symm).symm)
        · exact .inr (.inr more)

/-- Two integers and a string or boolean between them: the integers are the same way round as
    numbers and as texts. -/
theorem Compatible.lt_of_between (compatible : Compatible S) {i j : Int} (hi : .int i ∈ S)
    (hj : .int j ∈ S) (ht : t ∈ S) (text : t.IsText) (above : (Value.int i).toString < t.toString)
    (below : t.toString < (Value.int j).toString) : i < j := by
  obtain less | rfl | more := lt_trichotomy i j
  · exact less
  · exact absurd (above.trans below) (lt_irrefl _)
  · exact absurd ⟨above, below⟩ (compatible.between j i hj hi more t ht text)

theorem Compatible.trans (compatible : Compatible S) (exact : ∀ v ∈ S, v.IsExact) (ha : a ∈ S)
    (hb : b ∈ S) (hc : c ∈ S) (less : a.lt b = true) (next : b.lt c = true) : a.lt c = true := by
  have presentB : b ≠ .null := by
    rintro rfl
    rw [lt_null_right] at less
    cases less
  have presentC : c ≠ .null := by
    rintro rfl
    rw [lt_null_right] at next
    cases next
  by_cases presentA : a = .null
  · exact presentA ▸ lt_null_left presentC
  · -- by what is compared as numbers: two integers and a text are the interesting mixes
    obtain null | ⟨i, rfl⟩ | textA := isExact_cases (exact a ha)
    · exact absurd null presentA
    · obtain null | ⟨j, rfl⟩ | textB := isExact_cases (exact b hb)
      · exact absurd null presentB
      · obtain null | ⟨k, rfl⟩ | textC := isExact_cases (exact c hc)
        · exact absurd null presentC
        · rw [lt_int_iff] at *
          exact less.trans next
        · rw [lt_int_iff] at less
          rw [lt_text_right_iff textC (exact _ hb) presentB] at next
          rw [lt_text_right_iff textC (exact _ ha) presentA]
          by_contra no
          obtain eq | below := (not_lt.mp no).eq_or_lt
          · obtain rfl := compatible.distinct _ ha _ hc presentA textC eq.symm
            exact False.elim textC
          · exact absurd (compatible.lt_of_between hb ha hc textC next below) less.asymm
      · rw [lt_text_right_iff textB (exact _ ha) presentA] at less
        rw [lt_text_left_iff textB (exact _ hc) presentC] at next
        obtain null | ⟨k, rfl⟩ | textC := isExact_cases (exact c hc)
        · exact absurd null presentC
        · rw [lt_int_iff]
          exact compatible.lt_of_between ha hc hb textB less next
        · rw [lt_text_right_iff textC (exact _ ha) presentA]
          exact less.trans next
    · rw [lt_text_left_iff textA (exact _ hb) presentB] at less
      rw [lt_text_left_iff textA (exact _ hc) presentC]
      obtain null | ⟨j, rfl⟩ | textB := isExact_cases (exact b hb)
      · exact absurd null presentB
      · obtain null | ⟨k, rfl⟩ | textC := isExact_cases (exact c hc)
        · exact absurd null presentC
        · rw [lt_int_iff] at next
          by_contra no
          obtain eq | below := (not_lt.mp no).eq_or_lt
          · obtain rfl := compatible.distinct _ hc _ ha presentC textA eq
            exact False.elim textA
          · exact absurd (compatible.lt_of_between hc hb ha textA below less) next.asymm
        · rw [lt_text_right_iff textC (exact _ hb) presentB] at next
          exact less.trans next
      · rw [lt_text_left_iff textB (exact _ hc) presentC] at next
        exact less.trans next

/-- An order needs compatible values. -/
theorem compatible_of_strictTotalOn (ord : StrictTotalOn lt eq S) (exact : ∀ v ∈ S, v.IsExact) :
    Compatible S where
  distinct a ha t ht present text same := by
    obtain less | equal | more := ord.total a ha t ht
    · rw [lt_text_right_iff text (exact a ha) present, same] at less
      exact absurd less (lt_irrefl _)
    · exact (eq_iff (exact a ha) (exact t ht)).1 equal
    · rw [lt_text_left_iff text (exact a ha) present, same] at more
      exact absurd more (lt_irrefl _)
  between i j hi hj less t ht text := by
    rintro ⟨above, below⟩
    have fst := (lt_text_right_iff text (exact _ hj) Value.noConfusion).2 above
    have second := (lt_text_left_iff text (exact _ hi) Value.noConfusion).2 below
    have loop := ord.trans _ hj t ht _ hi fst second
    rw [lt_int_iff] at loop
    exact absurd less loop.asymm

end Value

/-! ## Columns -/

/-- The values of a column on which `operator<` is an order. -/
structure OrderedColumn where
  values : Set Value
  exact : ∀ v ∈ values, v.IsExact
  compatible : Value.Compatible values

namespace OrderedColumn

variable {column : OrderedColumn} {a b c : Value}

theorem asymm (ha : a ∈ column.values) (hb : b ∈ column.values) (less : a.lt b = true) :
    b.lt a = false := by
  rw [← Bool.not_eq_true]
  intro back
  have loop := column.compatible.trans column.exact ha hb ha less back
  rw [Value.lt_self (column.exact a ha)] at loop
  cases loop

theorem ne_of_lt (ha : a ∈ column.values) (less : a.lt b = true) : a ≠ b := by
  rintro rfl
  rw [Value.lt_self (column.exact a ha)] at less
  cases less

/-- The comparison by `operator<`. -/
def comparison (column : OrderedColumn) : Comparison Value :=
  .ofLt (· ∈ column.values) Value.lt (fun a ha => Value.lt_self (column.exact a ha))
    (fun _ _ _ ha hb hc => column.compatible.trans column.exact ha hb hc)
    (fun _ _ => column.compatible.trichotomous column.exact)

theorem comparison_lt : column.comparison.cmp a b = .lt ↔ a.lt b = true := Comparison.ofLt_cmp_lt

theorem comparison_eq (ha : a ∈ column.values) (hb : b ∈ column.values) :
    column.comparison.cmp a b = .eq ↔ a = b :=
  Comparison.ofLt_cmp_eq ha hb

/-- `compare_order_values` puts a value before another. -/
def sortsBefore (up : Bool) (a b : Value) : Bool :=
  a ≠ .null && (b = .null || if up then a.lt b else b.lt a)

variable (up : Bool)

section

variable (ha : a ∈ column.values)
include ha

theorem compareOrderValues_eq (hb : b ∈ column.values) :
    compareOrderValues a b up =
      if sortsBefore up a b then .lt else if sortsBefore up b a then .gt else .eq := by
  by_cases nullA : a = .null
  · by_cases nullB : b = .null <;> simp [compareOrderValues, sortsBefore, nullA, nullB]
  · by_cases nullB : b = .null
    · simp [compareOrderValues, sortsBefore, nullA, nullB]
    · obtain less | rfl | more := column.compatible.trichotomous column.exact ha hb
      · have unequal : a.eq b = false := by
          rw [← Bool.not_eq_true, Value.eq_iff (column.exact a ha) (column.exact b hb)]
          exact ne_of_lt ha less
        have back := column.asymm ha hb less
        cases up <;> simp [compareOrderValues, sortsBefore, nullA, nullB, Value.gt,
          Value.le, less, back, unequal]
      · have same := (Value.eq_iff (column.exact a ha) (column.exact a ha)).2 rfl
        simp [compareOrderValues, sortsBefore, nullA, same, Value.lt_self (column.exact a ha)]
      · have unequal : a.eq b = false := by
          rw [← Bool.not_eq_true, Value.eq_iff (column.exact a ha) (column.exact b hb)]
          exact (ne_of_lt hb more).symm
        have back := column.asymm hb ha more
        cases up <;> simp [compareOrderValues, sortsBefore, nullA, nullB, Value.gt,
          Value.le, more, back, unequal]

theorem sortsBefore_self : sortsBefore up a a = false := by
  have irrefl := Value.lt_self (column.exact a ha)
  by_cases null : a = .null <;> simp [sortsBefore, null, irrefl]

theorem sortsBefore_trans (hb : b ∈ column.values) (hc : c ∈ column.values)
    (less : sortsBefore up a b = true) (next : sortsBefore up b c = true) :
    sortsBefore up a c = true := by
  simp only [sortsBefore, ne_eq, decide_not, Bool.and_eq_true, Bool.not_eq_true',
    decide_eq_false_iff_not, Bool.or_eq_true, decide_eq_true_eq] at less next ⊢
  obtain ⟨presentA, less⟩ := less
  obtain ⟨presentB, next⟩ := next
  obtain null | less := less
  · exact absurd null presentB
  · refine ⟨presentA, next.imp id (fun next => ?_)⟩
    cases up with
    | true => exact column.compatible.trans column.exact ha hb hc less next
    | false => exact column.compatible.trans column.exact hc hb ha next less

theorem sortsBefore_total (hb : b ∈ column.values) :
    sortsBefore up a b = true ∨ a = b ∨ sortsBefore up b a = true := by
  by_cases nullA : a = .null
  · by_cases nullB : b = .null
    · exact .inr (.inl (nullA.trans nullB.symm))
    · exact .inr (.inr (by simp [sortsBefore, nullA, nullB]))
  · by_cases nullB : b = .null
    · exact .inl (by simp [sortsBefore, nullA, nullB])
    · obtain less | eq | more := column.compatible.trichotomous column.exact ha hb
      · cases up with
        | true => exact .inl (by simp [sortsBefore, nullA, less])
        | false => exact .inr (.inr (by simp [sortsBefore, nullB, less]))
      · exact .inr (.inl eq)
      · cases up with
        | true => exact .inr (.inr (by simp [sortsBefore, nullB, more]))
        | false => exact .inl (by simp [sortsBefore, nullA, more])

end

/-- The comparison by `compare_order_values`. -/
def sortComparison (column : OrderedColumn) (up : Bool) : Comparison Value :=
  .ofLt (· ∈ column.values) (sortsBefore up) (fun _ => sortsBefore_self up)
    (fun _ _ _ => sortsBefore_trans up) (fun _ _ => sortsBefore_total up)

end OrderedColumn

/-! ## Keys and sort keys -/

/-- The keys with a value of its column at each position, and their prefixes, which bound ranges. -/
def IndexKey.over : List (Set Value) → Set IndexKey
  | _, [] => True
  | [], _ :: _ => False
  | S :: columns, v :: key => v ∈ S ∧ IndexKey.over columns key

/-- The values of as many ORDER BY expressions. -/
def SortOperator.keysOver : List (Set Value) → Set (List Value)
  | [], [] => True
  | S :: columns, v :: key => v ∈ S ∧ SortOperator.keysOver columns key
  | _, _ => False

theorem SortOperator.before_cons_iff {up : Bool} {ascending : List Bool} {v w : Value}
    {key ne : List Value} :
    before (up :: ascending) (v :: key) (w :: ne) = true ↔
      compareOrderValues v w up = .lt ∨
        compareOrderValues v w up = .eq ∧
          before ascending key ne = true := by
  simp only [before]
  cases compareOrderValues v w up <;> simp

namespace OrderedColumn

variable {columns : List OrderedColumn} {a b : List Value}

theorem mem_over_iff :
    a ∈ IndexKey.over (columns.map (·.values)) ↔ Comparison.InDoms (columns.map (·.comparison)) a := by
  induction columns generalizing a with
  | nil => cases a <;> exact Iff.rfl
  | cons column columns ih =>
    cases a with
    | nil => exact Iff.rfl
    | cons v key => exact and_congr Iff.rfl ih

theorem indexKey_iff (ha : a ∈ IndexKey.over (columns.map (·.values)))
    (hb : b ∈ IndexKey.over (columns.map (·.values))) :
    (IndexKey.lt a b = true ↔ lexCmp (columns.map (·.comparison)) a b = .lt) ∧
      (IndexKey.eq a b = true ↔ lexCmp (columns.map (·.comparison)) a b = .eq) := by
  induction columns generalizing a b with
  | nil =>
    cases a with
    | cons v key => exact False.elim ha
    | nil =>
      cases b with
      | cons w key => exact False.elim hb
      | nil => decide
  | cons column columns ih =>
    cases a with
    | nil => cases b <;> simp [IndexKey.lt, IndexKey.eq, lexCmp]
    | cons v key =>
      cases b with
      | nil => simp [IndexKey.lt, IndexKey.eq, lexCmp]
      | cons w key' =>
        obtain ⟨ltIff, eqIff⟩ := ih ha.2 hb.2
        simp only [IndexKey.lt, IndexKey.eq, List.map_cons, lexCmp, Ordering.then_eq_lt,
          Ordering.then_eq_eq, comparison_lt, comparison_eq ha.1 hb.1, Bool.and_eq_true]
        rw [← ltIff, ← eqIff, Value.eq_iff (column.exact v ha.1) (column.exact w hb.1)]
        refine ⟨?_, Iff.rfl⟩
        obtain less | rfl | more := column.compatible.trichotomous column.exact ha.1 hb.1
        · simp [less]
        · simp [Value.lt_self (column.exact v ha.1)]
        · simp [more, column.asymm hb.1 ha.1 more, (ne_of_lt hb.1 more).symm]

theorem indexKey_totalOn (columns : List OrderedColumn) :
    Misc.TotalOn IndexKey.cmp (· ∈ IndexKey.over (columns.map (·.values))) := by
  exact (lex (columns.map OrderedColumn.comparison)).totalOn
    (fun _ ha => mem_over_iff.1 ha) (fun _ _ ha hb => (indexKey_iff ha hb).1)
    (fun _ _ ha hb => (indexKey_iff ha hb).2)

theorem indexKey_strictTotalOn (columns : List OrderedColumn) :
    StrictTotalOn IndexKey.lt IndexKey.eq (IndexKey.over (columns.map (·.values))) where
  irrefl := (indexKey_totalOn columns).irrefl
  trans a ha b hb c hc := (indexKey_totalOn columns).trans a b c ha hb hc
  total a ha b hb := by
    have decided := (indexKey_totalOn columns).eq_iff a b ha hb
    simp only [IndexKey.cmp_lt, IndexKey.cmp_eq] at decided
    cases less : IndexKey.lt a b with
    | true => exact .inl rfl
    | false =>
      cases more : IndexKey.lt b a with
      | true => exact .inr (.inr rfl)
      | false => exact .inr (.inl (decided.2 ⟨less, more⟩))

/-- How a row's sort keys are compared in given directions. -/
def sortComparisons (columns : List OrderedColumn) (ascending : List Bool) :
    List (Comparison Value) :=
  List.zipWith sortComparison columns ascending

variable {ascending : List Bool}

variable (sized : ascending.length = columns.length)
include sized

theorem inDoms_of_mem_keysOver (mem : a ∈ keysOver (columns.map (·.values))) :
    Comparison.InDoms (sortComparisons columns ascending) a := by
  induction columns generalizing a ascending with
  | nil =>
    cases a with
    | nil => trivial
    | cons v key => exact False.elim mem
  | cons column columns ih =>
    cases ascending with
    | nil => cases sized
    | cons up ascending =>
      cases a with
      | nil => trivial
      | cons v key => exact ⟨mem.1, ih (Nat.succ.inj sized) mem.2⟩

theorem before_iff (ha : a ∈ keysOver (columns.map (·.values)))
    (hb : b ∈ keysOver (columns.map (·.values))) :
    before ascending a b = true ↔
      lexCmp (sortComparisons columns ascending) a b = .lt := by
  induction columns generalizing a b ascending with
  | nil =>
    cases a with
    | cons v key => exact False.elim ha
    | nil =>
      cases b with
      | cons w key => exact False.elim hb
      | nil =>
        cases ascending with
        | nil => decide
        | cons up ascending => cases sized
  | cons column columns ih =>
    cases ascending with
    | nil => cases sized
    | cons up ascending =>
      cases a with
      | nil => exact False.elim ha
      | cons v key =>
        cases b with
        | nil => exact False.elim hb
        | cons w ne =>
          rw [before_cons_iff, ih (Nat.succ.inj sized) ha.2 hb.2,
            column.compareOrderValues_eq up ha.1 hb.1]
          exact Ordering.then_eq_lt.symm

theorem before_strictWeakOn :
    StrictWeakOn (before ascending) (keysOver (columns.map (·.values))) := by
  let lawful := lex (sortComparisons columns ascending)
  have total : Misc.TotalOn ⟨before ascending, fun a b => lawful.cmp a b = .eq⟩
      (· ∈ keysOver (columns.map (·.values))) :=
    lawful.totalOn (fun _ ha => inDoms_of_mem_keysOver sized ha)
      (fun _ _ ha hb => before_iff sized ha hb) (fun _ _ _ _ => decide_eq_true_iff)
  exact ⟨total.irrefl, fun a ha b hb c hc => total.trans a b c ha hb hc,
    fun a ha b hb c hc => total.split a b c ha hb hc⟩

end OrderedColumn

/-- For any columns whose values are no doubles: the values of each are ordered by `operator<`, the
    keys over them by `IndexKey::operator<`, and rows by ORDER BY in any directions, exactly when
    each column's values are compatible. -/
theorem IndexKey.ordered_iff_compatible (columns : List (Set Value))
    (exact : ∀ S ∈ columns, ∀ v ∈ S, v.IsExact) :
    ((∀ S ∈ columns, StrictTotalOn Value.lt Value.eq S) ∧
      StrictTotalOn IndexKey.lt IndexKey.eq (IndexKey.over columns) ∧
      ∀ ascending : List Bool, ascending.length = columns.length →
        StrictWeakOn (SortOperator.before ascending) (SortOperator.keysOver columns)) ↔
      ∀ S ∈ columns, Value.Compatible S := by
  constructor
  · rintro ⟨ordered, -, -⟩ S member
    exact Value.compatible_of_strictTotalOn (ordered S member) (exact S member)
  · intro compatible
    obtain ⟨ordered, rfl⟩ : ∃ ordered : List OrderedColumn, ordered.map (·.values) = columns := by
      refine ⟨columns.pmap (fun S (h : (∀ v ∈ S, v.IsExact) ∧ Value.Compatible S) => ⟨S, h.1, h.2⟩)
        (fun S member => ⟨exact S member, compatible S member⟩), ?_⟩
      simp [List.map_pmap]
    refine ⟨fun S member => ?_, OrderedColumn.indexKey_strictTotalOn ordered,
      fun ascending sized => OrderedColumn.before_strictWeakOn (by simpa using sized)⟩
    have good := compatible S member
    have plain := exact S member
    refine ⟨fun a ha => Value.lt_self (plain a ha), fun a ha b hb c hc => good.trans plain ha hb hc,
      fun a ha b hb => ?_⟩
    rw [Value.eq_iff (plain a ha) (plain b hb)]
    exact good.trichotomous plain ha hb

/-- A column of integers and one of strings, both with NULLs. -/
theorem IndexKey.typed_columns_ordered :
    StrictTotalOn IndexKey.lt IndexKey.eq
      (IndexKey.over [{v | v = .null ∨ ∃ i, v = .int i}, {v | v = .null ∨ ∃ s, v = .string s}]) := by
  refine ((IndexKey.ordered_iff_compatible _ ?_).2 ?_).2.1
  · simp only [List.mem_cons, List.not_mem_nil, or_false]
    rintro S (rfl | rfl) v (rfl | ⟨_, rfl⟩) <;> trivial
  · simp only [List.mem_cons, List.not_mem_nil, or_false]
    rintro S (rfl | rfl)
    · refine ⟨?_, ?_⟩
      · rintro a - t (rfl | ⟨_, rfl⟩) - text -
        · exact False.elim text
        · exact False.elim text
      · rintro i j - - - t (rfl | ⟨_, rfl⟩) text
        · exact False.elim text
        · exact False.elim text
    · refine ⟨?_, ?_⟩
      · rintro a (rfl | ⟨s, rfl⟩) t (rfl | ⟨_, rfl⟩) present text same
        · exact absurd rfl present
        · exact absurd rfl present
        · exact False.elim text
        · exact congrArg Value.string same
      · rintro i j (impossible | ⟨_, impossible⟩) <;> cases impossible

namespace Engine

/-- `INSERT INTO account VALUES (9, 0), (10, 0), ('5', 0)`. -/
def insertMixed : Statement :=
  .insert ⟨"account", [], [[.literal (.int 9), .literal (.int 0)],
    [.literal (.int 10), .literal (.int 0)], [.literal (.string "5"), .literal (.int 0)]]⟩

/-- The column `id` is declared INT and comes to hold 9, 10 and '5', which are below each other in
    a circle. -/
theorem mixed_column_circular :
    ((run step { db := { tables := [("account", { account with directory := [] })] } }
      (query 0 insertMixed 5)).db.tables.lookup "account").map
        (fun t => t.directory.filterMap (Option.map (fun row => row.values.head?))) =
      some [some (.int 9), some (.int 10), some (.string "5")] ∧
    Value.lt (.int 9) (.int 10) = true ∧ Value.lt (.int 10) (.string "5") = true ∧
      Value.lt (.string "5") (.int 9) = true ∧
      ¬ StrictTotalOn Value.lt Value.eq {v | v ∈ [.int 9, .int 10, .string "5"]} := by
  have first : Value.lt (.int 9) (.int 10) = true := by decide
  have second : Value.lt (.int 10) (.string "5") = true := by decide
  have third : Value.lt (.string "5") (.int 9) = true := by decide
  refine ⟨by decide +kernel, first, second, third, fun ordered => ?_⟩
  have loop := ordered.trans (.int 9) (by simp) (.int 10) (by simp) (.string "5") (by simp) first second
  have circle := ordered.trans (.int 9) (by simp) (.string "5") (by simp) (.int 9) (by simp) loop third
  rw [ordered.irrefl (.int 9) (by simp)] at circle
  cases circle

end Engine

end NobugDb
