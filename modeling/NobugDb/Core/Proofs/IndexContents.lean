import NobugDb.Core.Proofs.FailedWrites

/-!
# What the indexes of a table hold

An index is exact when it maps each key without NULL to the positions of the rows that have
that key. The index itself is taken to be the multimap it is to be: what counts is the calls
made on it. Building an index makes an exact one, and index maintenance keeps every index of a
table exact while rows are written.
-/

namespace NobugDb

open Misc (AssocMap run)
open List (foldl_cons foldl_nil getElem?_eq_some_iff map_append mem_cons mem_map)
open Misc.AssocMap (adjust contains)

namespace BTreeIndex

def slotHas (key : Row → Except Exn IndexKey) (k : IndexKey) : Option Row → Bool
  | none => false
  | some row =>
    match key row with
    | .ok own => own.eq k
    | .error _ => false

/-- The calls made on the index leave, under each key without NULL, the positions of the slots
    that hold it. -/
def Exact (key : Row → Except Exn IndexKey) (slots : List (Option Row)) (index : BTreeIndex) :
    Prop :=
  ∃ calls : List Op, index = run step null calls ∧
    ∀ k : IndexKey, k.indexable = true →
      (run multimapStep (fun _ => []) calls k).Perm (slots.findIdxs (slotHas key k))

variable {key key' : Row → Except Exn IndexKey} {slots slots' : List (Option Row)}
  {index : BTreeIndex} {row old new : Row} {k kOld kNew : IndexKey} {i : Nat}

theorem exact_null : Exact key [] null := ⟨[], rfl, fun _ _ => .refl _⟩

variable {held : List Nat}

section

variable (exact : Exact key slots index)
include exact

theorem Exact.congr (length : slots'.length = slots.length)
    (eq : ∀ (i : Nat) (slot slot' : Option Row), slots[i]? = some slot → slots'[i]? = some slot' →
      ∀ k, slotHas key' k slot' = slotHas key k slot) : Exact key' slots' index := by
  obtain ⟨calls, isIndex, holds⟩ := exact
  refine ⟨calls, isIndex, fun k indexable => ?_⟩
  have marks : slots'.map (slotHas key' k) = slots.map (slotHas key k) := by
    refine List.ext_getElem (by simp [length]) (fun i left right => ?_)
    rw [List.length_map] at left right
    rw [List.getElem_map, List.getElem_map]
    exact eq i _ _ (List.getElem?_eq_getElem right) (List.getElem?_eq_getElem left) k
  have ps : slots'.findIdxs (id ∘ slotHas key' k) = slots.findIdxs (id ∘ slotHas key k) := by
    rw [← List.findIdxs_map, ← List.findIdxs_map, marks]
  simp only [Function.id_comp] at ps
  rw [ps]
  exact holds k indexable

theorem Exact.append (isKey : key row = .ok k) :
    Exact key (slots ++ [some row]) (index.insert k slots.length) := by
  obtain ⟨calls, rfl, holds⟩ := exact
  refine ⟨calls ++ [.insert k slots.length], by simp [run, step], fun j indexable => ?_⟩
  have before := holds j indexable
  simp only [run, List.foldl_append, foldl_cons, foldl_nil, multimapStep] at before ⊢
  rw [List.findIdxs_append, List.findIdxs_cons, List.findIdxs_nil]
  simp only [slotHas, isKey, Nat.zero_add]
  split
  · exact before.append_right _
  · simpa using before

theorem Exact.restamp (stored : slots[i]? = some (some old))
    (eq : key new = key old) : Exact key (slots.set i (some new)) index := by
  refine exact.congr (by simp) (fun j slot slot' before now k => ?_)
  by_cases here : i = j
  · subst here
    rw [stored] at before
    rw [List.getElem?_set_self (List.getElem?_eq_some_iff.mp stored).1] at now
    rw [← Option.some.inj before, ← Option.some.inj now]
    simp only [slotHas, eq]
  · rw [List.getElem?_set_ne here, before] at now
    rw [Option.some.inj now]

end

theorem Exact.nodup (eq : held.Perm (slots.findIdxs (slotHas key k))) : held.Nodup :=
  eq.nodup_iff.mpr List.nodup_findIdxs

theorem mem_holders (eq : held.Perm (slots.findIdxs (slotHas key k))) {j : Nat} :
    j ∈ held ↔ ∃ slot, slots[j]? = some slot ∧ slotHas key k slot = true := by
  rw [eq.mem_iff, List.mem_findIdxs_iff_exists_getElem_pos]
  simp only [getElem?_eq_some_iff]
  constructor
  · rintro ⟨bound, has⟩
    exact ⟨_, ⟨bound, rfl⟩, has⟩
  · rintro ⟨slot, ⟨bound, rfl⟩, has⟩
    exact ⟨bound, has⟩

theorem perm_holders_set {slot : Option Row} (bound : i < slots.length) (nodup : held.Nodup)
    (here : i ∈ held ↔ slotHas key k slot = true)
    (elsewhere : ∀ j, j ≠ i → (j ∈ held ↔ ∃ slot, slots[j]? = some slot ∧ slotHas key k slot = true)) :
    held.Perm ((slots.set i slot).findIdxs (slotHas key k)) := by
  refine (List.perm_ext_iff_of_nodup nodup List.nodup_findIdxs).mpr (fun j => ?_)
  rw [mem_holders (List.Perm.refl _)]
  by_cases eq : j = i
  · subst eq
    rw [List.getElem?_set_self bound, here]
    simp
  · rw [List.getElem?_set_ne (fun equal => eq equal.symm), elsewhere j eq]

theorem Exact.take (exact : Exact key slots index) (stored : slots[i]? = some (some old))
    (isKey : key old = .ok k) : Exact key (slots.set i none) (index.remove k i) := by
  obtain ⟨calls, rfl, holds⟩ := exact
  refine ⟨calls ++ [.remove k i], by simp [run, step], fun j indexable => ?_⟩
  have before := holds j indexable
  have bound := (List.getElem?_eq_some_iff.mp stored).1
  simp only [run, List.foldl_append, List.foldl_cons, List.foldl_nil, multimapStep] at before ⊢
  split
  · refine perm_holders_set bound ((Exact.nodup before).filter _) (by simp [slotHas]) ?_
    intro ne apart
    rw [List.mem_filter, mem_holders before]
    simp [apart]
  · rename_i unequal
    refine perm_holders_set bound (Exact.nodup before) ?_ (fun ne _ => mem_holders before)
    -- The row had another key, so its position is not among those of `j`.
    rw [mem_holders before, stored]
    simp [slotHas, isKey, unequal]

theorem Exact.put (exact : Exact key slots index) (empty : slots[i]? = some none)
    (isKey : key new = .ok k) : Exact key (slots.set i (some new)) (index.insert k i) := by
  obtain ⟨calls, rfl, holds⟩ := exact
  refine ⟨calls ++ [.insert k i], by simp [run, step], fun j indexable => ?_⟩
  have before := holds j indexable
  have bound := (List.getElem?_eq_some_iff.mp empty).1
  simp only [run, List.foldl_append, List.foldl_cons, List.foldl_nil, multimapStep] at before ⊢
  have absent : i ∉ calls.foldl multimapStep (fun _ => []) j := by
    rw [mem_holders before, empty]
    simp [slotHas]
  split
  · rename_i equal
    refine perm_holders_set bound ?_ (by simp [slotHas, isKey, equal]) ?_
    · exact (Exact.nodup before).append (List.nodup_singleton i) (by simpa using absent)
    · intro ne apart
      rw [List.mem_append, mem_holders before]
      simp [apart]
  · rename_i unequal
    refine perm_holders_set bound (Exact.nodup before) ?_ (fun ne _ => mem_holders before)
    simp [absent, slotHas, isKey, unequal]

end BTreeIndex

namespace Table

open BTreeIndex (Exact)

theorem fillIndex_concat (key : Row → Except Exn IndexKey) (rows : List Row) (row : Row) :
    fillIndex key (rows ++ [row]) = (fillIndex key rows).bind (fun index =>
      (key row).map (fun k => index.insert k rows.length)) := by
  unfold fillIndex
  rw [List.zipIdx_append, List.foldlM_append]
  cases rows.zipIdx.foldlM (fun index p => do return index.insert (← key p.1) p.2)
      BTreeIndex.null with
  | error e => rfl
  | ok index =>
    cases isKey : key row with
    | error e => simp [bind, Except.bind, Except.map, isKey]
    | ok k => simp [bind, Except.bind, Except.map, isKey, pure, Except.pure]

variable {index : BTreeIndex}

/-- Filling an index over all rows makes it exact. -/
theorem fillIndex_exact {key : Row → Except Exn IndexKey} {rows : List Row}
    (filled : fillIndex key rows = .ok index) : Exact key (rows.map some) index := by
  induction rows using List.reverseRecOn generalizing index with
  | nil =>
    cases filled
    exact BTreeIndex.exact_null
  | append_singleton rows row ih =>
    rw [fillIndex_concat] at filled
    obtain ⟨earlier, isIndex, filled⟩ := Exn.bind_eq_ok filled
    cases isKey : key row with
    | error e =>
      rw [isKey] at filled
      cases filled
    | ok k =>
      rw [isKey] at filled
      cases filled
      have last := (ih isIndex).append isKey
      rw [List.length_map] at last
      rw [map_append]
      exact last

/-! ## The indexes of a table -/

/-- The key of a row in the index of the column at position `i`. -/
def positionKey (i : Nat) (row : Row) : Except Exn IndexKey := .ok [(row.getValue? i).getD .null]

def indexDefinitions (t : Table) : AssocMap String (List String) :=
  t.secondaryIndexes ++ t.constraintIndexes

/-- Every index is exact and is over columns the table has; every defined index is there, and
    there is no other. -/
structure IndexesExact (t : Table) : Prop where
  columns : ∀ c index, t.columnIndices.lookup c = some index →
    ∃ i, t.getColumnIndex c = some i ∧ index.Exact (positionKey i) t.directory
  known : ∀ e ∈ t.indexDefinitions, t.KnownColumns e.2
  named : ∀ e ∈ t.indexDefinitions, ∃ index, t.namedIndices.lookup e.1 = some index ∧
    index.Exact (fun row => t.buildIndexKey row e.2) t.directory
  defined : ∀ name index, t.namedIndices.lookup name = some index →
    name ∈ t.indexDefinitions.map Prod.fst

/-- The names that the indexes of keys take: `__pk`, and those that start with `__uq`. -/
def reservedName (name : String) : Bool :=
  name == primaryKeyIndexName || "__uq".toList.isPrefixOf name.toList

/-- What index maintenance relies on: a well-formed table with distinct column names and
    distinct names of indexes. -/
structure Maintained (t : Table) : Prop extends WellFormed t where
  distinct : (t.columns.map (·.name)).Nodup
  secondaryOrder : AssocMap.Increasing t.secondaryIndexes
  constraintOrder : AssocMap.Increasing t.constraintIndexes
  free : ∀ e ∈ t.secondaryIndexes, reservedName e.1 = false
  reserved : ∀ e ∈ t.constraintIndexes, reservedName e.1 = true

variable {t u : Table} {row old new : Row} {i : Nat} {defs : AssocMap String (List String)}
  {e : String × List String} {f : BTreeIndex → IndexKey → BTreeIndex}

theorem Maintained.names_nodup (maint : t.Maintained) :
    (t.indexDefinitions.map Prod.fst).Nodup := by
  rw [indexDefinitions, map_append]
  refine maint.secondaryOrder.nodup.append maint.constraintOrder.nodup ?_
  intro name inSecondary inConstraint
  obtain ⟨e, isSecondary, rfl⟩ := mem_map.mp inSecondary
  obtain ⟨d, isConstraint, eq⟩ := mem_map.mp inConstraint
  have taken := maint.reserved d isConstraint
  rw [eq, maint.free e isSecondary] at taken
  cases taken

/-! ## Index maintenance -/

theorem lookup_adjustAll_absent {α V : Type} (name : α → String) (g : α → V → V) {l : List α}
    {c : String} (absent : c ∉ l.map name) (m : AssocMap String V) :
    (l.foldl (fun m a => adjust (name a) (g a) m) m).lookup c = m.lookup c := by
  induction l generalizing m with
  | nil => rfl
  | cons a l ih =>
    rw [List.map_cons, mem_cons, not_or] at absent
    rw [foldl_cons, ih absent.2, Misc.lookup_adjust, if_neg absent.1]

theorem lookup_adjustAll {α V : Type} (name : α → String) (g : α → V → V) {l : List α}
    (nodup : (l.map name).Nodup) {a : α} (mem : a ∈ l) (m : AssocMap String V) :
    (l.foldl (fun m a => adjust (name a) (g a) m) m).lookup (name a) =
      (m.lookup (name a)).map (g a) := by
  induction l generalizing m with
  | nil => cases mem
  | cons b l ih =>
    obtain ⟨head, tail⟩ := List.nodup_cons.mp nodup
    rw [foldl_cons]
    rcases mem_cons.mp mem with rfl | mem
    · rw [lookup_adjustAll_absent name g head, Misc.lookup_adjust, if_pos rfl]
    · have apart : name a ≠ name b := fun eq => head (eq ▸ List.mem_map_of_mem mem)
      rw [ih tail mem, Misc.lookup_adjust, if_neg apart]

theorem touchColumns_lookup (nodup : (t.columns.map (·.name)).Nodup) (row : Row)
    (f : BTreeIndex → IndexKey → BTreeIndex) {c : String} (hit : t.getColumnIndex c = some i) :
    (t.touchColumnIndices row f).lookup c =
      (t.columnIndices.lookup c).map (fun index => f index [(row.getValue? i).getD .null]) := by
  obtain ⟨bound, isName, -⟩ := List.findIdx?_eq_some_iff_getElem.mp hit
  have named : (t.columns[i]).name = c := beq_iff_eq.mp isName
  have names : t.columns.zipIdx.map (fun d : Column × Nat => d.1.name) = t.columns.map (·.name) := by
    rw [← List.zipIdx_map_fst 0 t.columns, List.map_map, List.zipIdx_map_fst]
    rfl
  have mem : (t.columns[i], i) ∈ t.columns.zipIdx := by
    rw [List.mem_zipIdx_iff_getElem?]
    exact List.getElem?_eq_getElem bound
  have reached := lookup_adjustAll (fun d : Column × Nat => d.1.name)
    (fun d index => f index [(row.getValue? d.2).getD .null]) (names ▸ nodup) mem
    t.columnIndices
  rw [← named]
  exact reached

theorem touchNamed_absent (row : Row) (f : BTreeIndex → IndexKey → BTreeIndex) {name : String}
    (absent : name ∉ defs.map Prod.fst) (named : AssocMap String BTreeIndex) :
    (t.touchNamedIndices row f defs named).1.lookup name = named.lookup name := by
  induction defs generalizing named with
  | nil => rfl
  | cons e defs ih =>
    obtain ⟨ne, cols⟩ := e
    rw [List.map_cons, mem_cons, not_or] at absent
    unfold touchNamedIndices
    split
    · split
      · rfl
      · rw [ih absent.2, Misc.lookup_adjust, if_neg absent.1]
    · exact ih absent.2 named

theorem touchNamed_lookup (arity : row.values.length = t.columns.length)
    (f : BTreeIndex → IndexKey → BTreeIndex)
    (nodup : (defs.map Prod.fst).Nodup) (known : ∀ e ∈ defs, t.KnownColumns e.2)
    (mem : e ∈ defs) {named : AssocMap String BTreeIndex} (hit : named.lookup e.1 = some index) :
    ∃ key, t.buildIndexKey row e.2 = .ok key ∧
      (t.touchNamedIndices row f defs named).1.lookup e.1 = some (f index key) := by
  induction defs generalizing named with
  | nil => cases mem
  | cons d defs ih =>
    obtain ⟨name, cols⟩ := d
    obtain ⟨head, tail⟩ := List.nodup_cons.mp nodup
    have knownRest : ∀ e ∈ defs, t.KnownColumns e.2 :=
      fun e mem => known e (List.mem_cons_of_mem _ mem)
    obtain ⟨key, isKey⟩ := buildIndexKey_ok arity (known (name, cols) (by simp))
    unfold touchNamedIndices
    rcases mem_cons.mp mem with rfl | mem
    · have has : named.contains name = true := by
        unfold contains
        rw [hit]
        rfl
      refine ⟨key, isKey, ?_⟩
      rw [if_pos has, isKey]
      dsimp only
      rw [touchNamed_absent row f head, Misc.lookup_adjust, if_pos rfl, hit]
      rfl
    · have apart : e.1 ≠ name := fun eq => head (mem_map.mpr ⟨e, mem, eq⟩)
      split
      · rw [isKey]
        refine ih tail knownRest mem ?_
        rw [Misc.lookup_adjust, if_neg apart, hit]
      · exact ih tail knownRest mem hit

theorem touchColumns_contains (row : Row) (f : BTreeIndex → IndexKey → BTreeIndex) (c : String) :
    (t.touchColumnIndices row f).contains c = t.columnIndices.contains c := by
  unfold touchColumnIndices
  generalize t.columnIndices = indices
  induction t.columns.zipIdx generalizing indices with
  | nil => rfl
  | cons d cols ih =>
    rw [foldl_cons, ih]
    exact Misc.adjust_contains _ _ _ _

theorem touchNamed_congr (eq : u.columns = t.columns) (row : Row)
    (f : BTreeIndex → IndexKey → BTreeIndex) (defs : AssocMap String (List String))
    (named : AssocMap String BTreeIndex) :
    u.touchNamedIndices row f defs named = t.touchNamedIndices row f defs named := by
  have keys : ∀ columns, u.buildIndexKey row columns = t.buildIndexKey row columns := by
    intro columns
    unfold buildIndexKey getColumnIndex
    rw [eq]
  induction defs generalizing named with
  | nil => rfl
  | cons e defs ih =>
    obtain ⟨name, columns⟩ := e
    unfold touchNamedIndices
    simp only [keys, ih]

def touchAllNamed (t : Table) (row : Row) (f : BTreeIndex → IndexKey → BTreeIndex) :
    AssocMap String BTreeIndex × Except Exn Unit :=
  let first := t.touchNamedIndices row f t.secondaryIndexes t.namedIndices
  match first.2 with
  | .error e => (first.1, .error e)
  | .ok () => t.touchNamedIndices row f t.constraintIndexes first.1

theorem touchIndexes_eq (t : Table) (row : Row) (f : BTreeIndex → IndexKey → BTreeIndex) :
    t.touchIndexes row f =
      ({ t with
          columnIndices := t.touchColumnIndices row f
          namedIndices := (t.touchAllNamed row f).1 }, (t.touchAllNamed row f).2) := by
  have eq : ∀ defs named, touchNamedIndices { t with columnIndices :=
      (t.touchColumnIndices row f) } row f defs named =
      t.touchNamedIndices row f defs named :=
    @touchNamed_congr t { t with columnIndices := t.touchColumnIndices row f } rfl row f
  unfold touchIndexes touchAllNamed
  simp only [eq]
  split
  · rename_i ended
    simp only [ended]
  · rename_i ended
    simp only [ended]

theorem touchIndexes_setDirectory (t : Table) (slots : List (Option Row)) (row : Row)
    (f : BTreeIndex → IndexKey → BTreeIndex) :
    touchIndexes { t with directory := slots } row f =
      ({ (t.touchIndexes row f).1 with directory := slots }, (t.touchIndexes row f).2) := by
  have eq : touchAllNamed { t with directory := slots } row f = t.touchAllNamed row f := by
    unfold touchAllNamed
    simp only [@touchNamed_congr t { t with directory := slots } rfl]
  rw [touchIndexes_eq, touchIndexes_eq, eq]
  rfl

theorem touchAllNamed_lookup (names : (t.indexDefinitions.map Prod.fst).Nodup)
    (known : ∀ e ∈ t.indexDefinitions, t.KnownColumns e.2)
    (arity : row.values.length = t.columns.length) (f : BTreeIndex → IndexKey → BTreeIndex)
    (mem : e ∈ t.indexDefinitions) (hit : t.namedIndices.lookup e.1 = some index) :
    ∃ key, t.buildIndexKey row e.2 = .ok key ∧
      (t.touchAllNamed row f).1.lookup e.1 = some (f index key) := by
  rw [indexDefinitions, map_append, List.nodup_append'] at names
  obtain ⟨sec, constr, apart⟩ := names
  have knownSecondary : ∀ e ∈ t.secondaryIndexes, t.KnownColumns e.2 :=
    fun e mem => known e (List.mem_append_left _ mem)
  have knownConstraint : ∀ e ∈ t.constraintIndexes, t.KnownColumns e.2 :=
    fun e mem => known e (List.mem_append_right _ mem)
  have first := touchNamed_ok arity f knownSecondary t.namedIndices
  unfold touchAllNamed
  simp only [first]
  rcases List.mem_append.mp mem with mem | mem
  · obtain ⟨key, isKey, reached⟩ :=
      touchNamed_lookup arity f sec knownSecondary mem hit
    refine ⟨key, isKey, ?_⟩
    rw [touchNamed_absent row f (apart (List.mem_map_of_mem mem)), reached]
  · refine touchNamed_lookup arity f constr knownConstraint mem ?_
    rw [touchNamed_absent row f (fun ne => apart ne (List.mem_map_of_mem mem)), hit]

theorem touchAllNamed_contains (row : Row) (f : BTreeIndex → IndexKey → BTreeIndex) (name : String) :
    (t.touchAllNamed row f).1.contains name = t.namedIndices.contains name := by
  unfold touchAllNamed
  dsimp only
  split
  · exact touchNamed_contains _ _ _ _ _ _
  · exact (touchNamed_contains _ _ _ _ _ _).trans (touchNamed_contains _ _ _ _ _ _)

/-- Index maintenance makes of exact indexes ones that are exact for the directory that the
    write leaves, if it does so for each index. -/
theorem IndexesExact.touch (exact : t.IndexesExact) (nodup : (t.columns.map (·.name)).Nodup)
    (names : (t.indexDefinitions.map Prod.fst).Nodup) (arity : row.values.length = t.columns.length)
    {slots : List (Option Row)}
    (each : ∀ (key : Row → Except Exn IndexKey) (index : BTreeIndex) (k : IndexKey),
      index.Exact key t.directory → key row = .ok k → (f index k).Exact key slots) :
    (touchIndexes { t with directory := slots } row f).1.IndexesExact := by
  rw [touchIndexes_setDirectory, touchIndexes_eq]
  constructor
  · intro c touched isTouched
    have was : (t.columnIndices.lookup c).isSome = true := by
      rw [← contains, ← touchColumns_contains row f, contains]
      exact Option.isSome_of_eq_some isTouched
    obtain ⟨index, hit⟩ := Option.isSome_iff_exists.mp was
    obtain ⟨i, isCol, exactly⟩ := exact.columns c index hit
    refine ⟨i, isCol, ?_⟩
    have reached := touchColumns_lookup nodup row f isCol
    rw [hit] at reached
    rw [← Option.some.inj (reached.symm.trans isTouched)]
    exact each _ _ _ exactly rfl
  · exact exact.known
  · intro e mem
    obtain ⟨index, hit, exactly⟩ := exact.named e mem
    obtain ⟨key, isKey, reached⟩ := touchAllNamed_lookup names exact.known arity f mem hit
    exact ⟨_, reached, each _ _ _ exactly isKey⟩
  · intro name touched isTouched
    have was : (t.namedIndices.lookup name).isSome = true := by
      rw [← contains, ← touchAllNamed_contains row f, contains]
      exact Option.isSome_of_eq_some isTouched
    obtain ⟨index, hit⟩ := Option.isSome_iff_exists.mp was
    exact exact.defined name index hit

/-! ## Row writes -/

/-- The invariant: exact indexes that the row writes keep so. -/
structure Indexed (t : Table) : Prop where
  maintained : t.Maintained
  exact : t.IndexesExact

theorem Maintained.of_same (maint : t.Maintained) (same : SameDefinitions t u)
    (rows : ∀ slot ∈ u.directory, ∃ row, slot = some row ∧ t.RowOk row) : u.Maintained where
  toWellFormed := maint.toWellFormed.of_same same rows
  distinct := by
    rw [same.columns]
    exact maint.distinct
  secondaryOrder := by
    rw [same.secondary]
    exact maint.secondaryOrder
  constraintOrder := by
    rw [same.constraint]
    exact maint.constraintOrder
  free := by
    rw [same.secondary]
    exact maint.free
  reserved := by
    rw [same.constraint]
    exact maint.reserved

variable (idx : t.Indexed)
include idx

theorem Indexed.mark : t.markDirty.Indexed :=
  ⟨idx.maintained.of_same ⟨rfl, rfl, rfl, rfl, rfl⟩ idx.maintained.rows,
    idx.exact.columns, idx.exact.known, idx.exact.named, idx.exact.defined⟩

theorem Indexed.touch (ok : t.RowOk row) {slots : List (Option Row)}
    (rows : ∀ slot ∈ slots, ∃ row, slot = some row ∧ t.RowOk row)
    (each : ∀ (key : Row → Except Exn IndexKey) (index : BTreeIndex) (k : IndexKey),
      index.Exact key t.directory → key row = .ok k → (f index k).Exact key slots) :
    (touchIndexes { t with directory := slots } row f).1.Indexed := by
  refine ⟨?_, idx.exact.touch idx.maintained.distinct idx.maintained.names_nodup ok.arity each⟩
  rw [touchIndexes_eq]
  exact idx.maintained.of_same ⟨rfl, rfl, rfl, rfl, rfl⟩ rows

theorem Indexed.appendIndexed (arity : row.values.length = t.columns.length) :
    (t.appendIndexed row).1.Indexed := by
  unfold Table.appendIndexed appendRow
  split
  · rename_i small
    dsimp only [andThen]
    refine andThen_keeps ?_ (fun _ idx => idx.mark)
    refine idx.touch ⟨arity, small⟩ ((idx.maintained.append ⟨arity, small⟩).rowsAs rfl) ?_
    intro key index k exactly isKey
    have appended := exactly.append isKey
    simpa [rowCount] using appended
  · exact idx

theorem Indexed.restamp (stored : t.directory[i]? = some (some old))
    (eq : new.values = old.values) : (t.replaceRow i new).1.Indexed := by
  have newOk := (idx.maintained.rowOk stored).of_values eq
  rw [replaceRow_ok i newOk.small]
  refine ⟨idx.maintained.of_same ⟨rfl, rfl, rfl, rfl, rfl⟩
    ((idx.maintained.set i newOk).rowsAs rfl), ?_, idx.exact.known, ?_, idx.exact.defined⟩
  · intro c index hit
    obtain ⟨j, isCol, exactly⟩ := idx.exact.columns c index hit
    refine ⟨j, isCol, exactly.restamp stored ?_⟩
    simp only [positionKey, Row.getValue?, eq]
  · intro e mem
    obtain ⟨index, hit, exactly⟩ := idx.exact.named e mem
    refine ⟨index, hit, exactly.restamp stored ?_⟩
    simp only [buildIndexKey, Row.getValue?, eq]

theorem Indexed.insertRow (fns : Functions) (row : Row) : (t.insertRow fns row).1.Indexed := by
  unfold Table.insertRow
  cases checked : t.checkWrite fns row none "Row does not satisfy table constraints" with
  | error exn => exact idx
  | ok _ => exact idx.appendIndexed (checkWrite_arity checked)

theorem Indexed.updateRowVersioned (fns : Functions) (i : Nat) (row : Row)
    (xid : Nat) : (t.updateRowVersioned fns i row xid).1.Indexed := by
  unfold Table.updateRowVersioned
  cases checked : t.checkUpdate fns i row with
  | error exn => exact idx
  | ok old =>
    obtain ⟨arity, stored⟩ := checkUpdate_ok checked
    have small : fits (old.setXmax xid) = true :=
      ((idx.maintained.rowOk stored).of_values rfl).small
    have stamped : (t.replaceRow i (old.setXmax xid)).1.Indexed := idx.restamp stored rfl
    rw [replaceRow_ok i small] at stamped
    dsimp only
    rw [replaceRow_ok i small]
    exact stamped.appendIndexed arity

theorem Indexed.deleteRowVersioned (i xid : Nat) : (t.deleteRowVersioned i xid).1.Indexed := by
  unfold Table.deleteRowVersioned
  cases read : t.getRow i with
  | error exn => exact idx
  | ok old =>
    have stored := getRow_eq_ok_iff.mp read
    exact andThen_keeps (idx.restamp stored rfl) (fun _ idx => idx.mark)

theorem Indexed.updateRow (fns : Functions) (i : Nat) (small : fits row = true) :
    (t.updateRow fns i row).1.Indexed := by
  unfold Table.updateRow
  cases checked : t.checkUpdate fns i row with
  | error exn => exact idx
  | ok old =>
    obtain ⟨arity, stored⟩ := checkUpdate_ok checked
    have bound := (List.getElem?_eq_some_iff.mp stored).1
    have newOk : t.RowOk ⟨row.values, old.xmin, old.xmax⟩ := RowOk.of_values ⟨arity, small⟩ rfl
    obtain ⟨columnIndices, namedIndices, removed⟩ := touchIndexes_ok idx.maintained.toWellFormed
      (idx.maintained.rowOk stored).arity (fun index key => index.remove key i)
    -- Between the two passes the indexes are exact for a directory with the slot emptied.
    have between : IndexesExact { t with
        columnIndices := columnIndices
        namedIndices := namedIndices
        directory := t.directory.set i none } := by
      have touched := idx.exact.touch idx.maintained.distinct
        idx.maintained.names_nodup (idx.maintained.rowOk stored).arity
        (f := fun index key => index.remove key i)
        (fun key index k exactly isKey => exactly.take stored isKey)
      rwa [touchIndexes_setDirectory, removed] at touched
    have emptied : (t.directory.set i none)[i]? = some none := List.getElem?_set_self bound
    have inserted := between.touch idx.maintained.distinct idx.maintained.names_nodup
      newOk.arity (f := fun index key => index.insert key i)
      (fun key index k exactly isKey => exactly.put emptied isKey)
    rw [List.set_set] at inserted
    simp only [removeFromIndexes, removed, andThen]
    rw [replaceRow_ok i newOk.small]
    refine andThen_keeps ⟨?_, inserted⟩ (fun _ idx => idx.mark)
    rw [insertIntoIndexes, touchIndexes_eq]
    exact idx.maintained.of_same ⟨rfl, rfl, rfl, rfl, rfl⟩ ((idx.maintained.set i newOk).rowsAs rfl)

end Table

end NobugDb
