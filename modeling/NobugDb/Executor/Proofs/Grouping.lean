import NobugDb.Executor.GroupAggregateOperator

/-!
# Groups and group keys

A group holds the rows whose key has its text. Two keys have one text exactly when the texts of
their components, cut at the separator, are the same pieces: rows with different keys can fall
into one group.
-/

namespace NobugDb.GroupAggregateOperator

open Misc

variable {Q : Type} {rows : List Row} {groups : Groups}

/-! ## The text of a key -/

/-- The texts of the components of a key, each cut at `'\x1f'`. -/
def pieces (key : List Value) : List (List Char) :=
  key.flatMap (fun v => v.toString.toList.splitOn '\x1f')

theorem splitOn_groupKeyString (v : Value) (key : List Value) :
    (groupKeyString (v :: key)).splitOn '\x1f' = pieces (v :: key) := by
  induction key generalizing v with
  | nil => simp [groupKeyString, pieces]
  | cons w key ih =>
    have step : groupKeyString (v :: w :: key) =
        v.toString.toList ++ '\x1f' :: groupKeyString (w :: key) := by
      simp [groupKeyString, List.intercalate_cons_cons]
    rw [step, List.splitOn_append_cons_self, ih]
    rfl

theorem groupKeyString_eq_iff {a b : List Value} (sameLength : a.length = b.length) :
    groupKeyString a = groupKeyString b ↔ pieces a = pieces b := by
  cases a with
  | nil => rw [List.length_eq_zero_iff.1 sameLength.symm]; simp
  | cons v a =>
    cases b with
    | nil => cases sameLength
    | cons w b =>
      rw [← splitOn_groupKeyString, ← splitOn_groupKeyString]
      refine ⟨fun eq => by rw [eq], fun eq => ?_⟩
      have joined := congrArg (['\x1f'].intercalate ·) eq
      simpa only [List.intercalate_splitOn] using joined

/-! ## The groups of a list of rows -/

/-- The groups of rows under a text of each row. -/
structure ByText (text : Row → List Char) (rows : List Row) (groups : Groups) : Prop where
  distinct : (groups.map Prod.fst).Nodup
  texts (t : List Char) : t ∈ groups.map Prod.fst ↔ t ∈ rows.map text
  members : ∀ g ∈ groups, g.2 = rows.filter (fun row => text row = g.1)

variable {text : Row → List Char}

theorem ByText.place (grouped : ByText text rows groups) (row : Row) :
    ByText text (rows ++ [row]) (place (text row) row groups) := by
  obtain ⟨nodup, texts, members⟩ := grouped
  unfold GroupAggregateOperator.place
  split
  · next has =>
    refine ⟨by rwa [keys_adjust], fun t => ?_, fun g mem => ?_⟩
    · have row' := (texts (text row)).1 has
      rw [keys_adjust, texts]
      grind
    · obtain ⟨h, among, rfl⟩ := List.mem_map.1 mem
      have rest := members h among
      grind
  · next absent =>
    refine ⟨?_, ?_, ?_⟩
    · simp [List.nodup_append, nodup]; grind
    · grind
    · have none : rows.filter (fun ne => text ne = text row) = [] := by
        rw [texts] at absent
        exact List.filter_eq_nil_iff.2 (by simpa using absent)
      grind

theorem placeRows_byText {ev : Evaluator Q} {groupBy : List (Expr Q)} {key : Row → List Value}
    {seen : List Row} (grouped : ByText (groupKeyString ∘ key) seen groups)
    (keys : ∀ row ∈ rows, ev.evaluateValues row groupBy = .ok (key row)) :
    ∃ after, placeRows ev groupBy rows groups = .ok after ∧
      ByText (groupKeyString ∘ key) (seen ++ rows) after := by
  induction rows generalizing seen groups with
  | nil => exact ⟨groups, rfl, by simpa using grouped⟩
  | cons row rows ih =>
    obtain ⟨after, placed, res⟩ :=
      ih (grouped.place row) (fun ne mem => keys ne (by simp [mem]))
    refine ⟨after, ?_, by simpa using res⟩
    rw [placeRows, keys row (by simp)]
    exact placed

theorem ByText.length (grouped : ByText text rows groups) :
    groups.length = (rows.map text).toFinset.card := by
  have eq : (groups.map Prod.fst).toFinset = (rows.map text).toFinset := by
    ext t
    simpa using grouped.texts t
  rw [← eq, List.toFinset_card_of_nodup grouped.distinct, List.length_map]

theorem ByText.home (grouped : ByText text rows groups) {row : Row} (mem : row ∈ rows) :
    ∃ g ∈ groups, g.1 = text row := by
  simpa using (grouped.texts (text row)).2 (List.mem_map_of_mem mem)

/-- What GROUP BY asks of the groups: each has all rows with the key of any of its rows, and they
    are as many as the keys, or one where there is no GROUP BY but aggregates. -/
structure ByKey (key : Row → List Value) (groupBy aggregates : List (Expr Q)) (rows : List Row)
    (groups : Groups) : Prop where
  covers : ∀ row ∈ rows, ∃ g ∈ groups, row ∈ g.2
  alike : ∀ g ∈ groups, ∀ row ∈ g.2, g.2 = rows.filter (fun other => key other = key row)
  count : groupBy ≠ [] → groups.length = (rows.map key).toFinset.card
  single : groupBy = [] → aggregates ≠ [] → groups.length = 1

section Keys

variable {ev : Evaluator Q} {groupBy aggregates : List (Expr Q)} {key : Row → List Value}

theorem length_evalValues {row : Row} {values : List Value}
    (vals : ev.evaluateValues row groupBy = .ok values) : values.length = groupBy.length := by
  induction groupBy generalizing values with
  | nil => cases vals; rfl
  | cons e groupBy ih =>
    rw [Evaluator.evaluateValues] at vals
    cases fst : ev.evaluateExpression row e none with
    | error x => rw [fst] at vals; cases vals
    | ok v =>
      cases rest : ev.evaluateValues row groupBy with
      | error x => rw [fst, rest] at vals; cases vals
      | ok vs => rw [fst, rest] at vals; cases vals; simp [ih rest]

theorem ByKey.same_key (byKey : ByKey key groupBy aggregates rows groups)
    (grouped : ByText (groupKeyString ∘ key) rows groups) {a b : Row} (here : a ∈ rows)
    (there : b ∈ rows) (eq : groupKeyString (key a) = groupKeyString (key b)) : key a = key b := by
  obtain ⟨g, among, text⟩ := grouped.home here
  have both : a ∈ g.2 ∧ b ∈ g.2 := by
    rw [grouped.members g among, text]
    simp [here, there, eq]
  rw [byKey.alike g among a both.1] at both
  simpa [eq_comm, there] using both.2

theorem ByText.byKey (grouped : ByText (groupKeyString ∘ key) rows groups)
    (apart : ∀ a ∈ rows, ∀ b ∈ rows, groupKeyString (key a) = groupKeyString (key b) → key a = key b)
    (single : groupBy = [] → groups.length = 1) : ByKey key groupBy aggregates rows groups := by
  refine ⟨?_, ?_, ?_, fun none _ => single none⟩
  · intro row mem
    obtain ⟨g, among, text⟩ := grouped.home mem
    exact ⟨g, among, by rw [grouped.members g among, text]; simp [mem]⟩
  · intro g among row mem
    rw [grouped.members g among] at mem ⊢
    obtain ⟨here, text⟩ := List.mem_filter.1 mem
    refine List.filter_congr (fun ne there => ?_)
    rw [← of_decide_eq_true text, decide_eq_decide]
    exact ⟨apart ne there row here, fun eq => congrArg groupKeyString eq⟩
  · intro _
    have image : (rows.map (groupKeyString ∘ key)).toFinset =
        (rows.map key).toFinset.image groupKeyString := by ext t; simp
    rw [grouped.length, image, Finset.card_image_of_injOn]
    intro k fst l snd eq
    simp only [List.coe_toFinset, List.mem_map, Set.mem_ofPred_eq] at fst snd
    obtain ⟨a, here, rfl⟩ := fst
    obtain ⟨b, there, rfl⟩ := snd
    exact apart a here b there eq

/-- The groups are those of the keys exactly when different keys of the rows have different pieces
    of text, and an empty input has no GROUP BY or no aggregate. -/
theorem grouped_by_key_iff (aggregates : List (Expr Q))
    (keys : ∀ row ∈ rows, ev.evaluateValues row groupBy = .ok (key row)) :
    (∃ groups, makeGroups ev groupBy aggregates rows = .ok groups ∧
      ByKey key groupBy aggregates rows groups) ↔
      (∀ a ∈ rows, ∀ b ∈ rows, pieces (key a) = pieces (key b) → key a = key b) ∧
        (rows = [] → groupBy = [] ∨ aggregates = []) := by
  obtain ⟨groups, placed, grouped⟩ :=
    placeRows_byText (⟨by simp, by simp, by simp⟩ : ByText (groupKeyString ∘ key) [] []) keys
  have made : makeGroups ev groupBy aggregates rows =
      .ok (if groups.isEmpty && !aggregates.isEmpty then [([], [])] else groups) := by
    rw [makeGroups, placed]
    rfl
  simp only [made, Except.ok.injEq, exists_eq_left']
  rw [List.nil_append] at grouped
  cases rows with
  | nil =>
    obtain rfl : groups = [] := by simpa [List.eq_nil_iff_forall_not_mem] using grouped.texts
    cases aggregates with
    | nil => exact iff_of_true ⟨by simp, by simp, by simp, by simp⟩ (by simp)
    | cons e aggregates =>
      refine ⟨fun byKey => ⟨by simp, fun _ => .inl (by_contra fun some => ?_)⟩, fun h => ?_⟩
      · simpa using byKey.count some
      · obtain rfl : groupBy = [] := by simpa using h.2
        exact ⟨by simp, by simp, by simp, by simp⟩
  | cons row rows =>
    obtain ⟨g, among, -⟩ := grouped.home (List.mem_cons_self)
    have some : groups.isEmpty = false := by cases groups <;> simp_all
    simp only [some, Bool.false_and, Bool.false_eq_true, if_false, List.cons_ne_nil,
      false_imp_iff, and_true]
    have texts : ∀ a ∈ row :: rows, ∀ b ∈ row :: rows,
        (groupKeyString (key a) = groupKeyString (key b) ↔ pieces (key a) = pieces (key b)) := by
      intro a here b there
      apply groupKeyString_eq_iff
      rw [length_evalValues (keys a here), length_evalValues (keys b there)]
    constructor
    · intro byKey a here b there same
      exact byKey.same_key grouped here there ((texts a here b there).2 same)
    · intro apart
      refine grouped.byKey (fun a here b there same =>
        apart a here b there ((texts a here b there).1 same)) ?_
      rintro rfl
      -- Without GROUP BY every row has the empty key.
      have all : ((row :: rows).map (groupKeyString ∘ key)).toFinset = {[]} := by
        have empty : ∀ other ∈ row :: rows, groupKeyString (key other) = [] := by
          intro other member
          rw [List.length_eq_zero_iff.1 (length_evalValues (keys other member))]; rfl
        ext t
        simp [empty]
        grind
      rw [grouped.length, all]; rfl

end Keys

def oneColumn : Evaluator Empty where
  functions := ⟨fun _ _ err => .ok (.null, err), fun _ _ => .ok .null⟩
  bindings := [⟨"", "t", "c"⟩]

/-- `GROUP BY c` without aggregates puts the rows with these values into the groups of the keys. -/
def GroupsColumn (values : List Value) : Prop :=
  ∃ groups, makeGroups oneColumn [.columnRef "" "c"] [] (values.map (⟨[·], 0, 0⟩)) = .ok groups ∧
    ByKey Row.values [.columnRef (Q := Empty) "" "c"] [] (values.map (⟨[·], 0, 0⟩)) groups

theorem grouped_true_and_x : GroupsColumn [.bool true, .string "x", .bool true] :=
  (grouped_by_key_iff [] (by decide)).2 ⟨by decide, by simp⟩

/-- A row with NULL and a row with the string `'NULL'` fall into one group. -/
theorem null_joins_text : ¬ GroupsColumn [.null, .string "NULL"] := by
  rintro ⟨groups, made, byKey⟩
  obtain rfl : [("NULL".toList, [⟨[.null], 0, 0⟩, ⟨[.string "NULL"], 0, 0⟩])] = groups :=
    Except.ok.inj made
  have count := byKey.count (by simp)
  revert count
  decide

end NobugDb.GroupAggregateOperator
