import Mathlib

/-!
# Ordered maps

`std::map` as the list of its entries in increasing key order: `lookup` is `List.lookup`,
`assign` is `m[k] = v` and `erase` is `m.erase(k)`. Iteration is over the list.
-/

namespace NobugDb.Misc

open List (map_cons mem_cons mem_map pairwise_cons)

/-- `std::map<K, V>`. -/
abbrev AssocMap (K V : Type) := List (K × V)

namespace AssocMap

variable {K V : Type} [DecidableEq K]

/-- `m[k] = v`. -/
def assign [LT K] [DecidableLT K] (k : K) (v : V) : AssocMap K V → AssocMap K V
  | [] => [(k, v)]
  | e :: es =>
    if e.1 = k then (k, v) :: es
    else if k < e.1 then (k, v) :: e :: es
    else e :: assign k v es

/-- `m.erase(k)`. -/
def erase (k : K) (m : AssocMap K V) : AssocMap K V := m.filter (fun e => e.1 ≠ k)

/-- `m.count(k) > 0`. -/
def contains (k : K) (m : AssocMap K V) : Bool := (m.lookup k).isSome

/-- `m[k] = f(m[k])` where `k` is present. -/
def adjust (k : K) (f : V → V) (m : AssocMap K V) : AssocMap K V :=
  m.map (fun e => if e.1 = k then (e.1, f e.2) else e)

theorem mem_assign [LT K] [DecidableLT K] {k : K} {v : V} {entries : AssocMap K V} {e : K × V}
    (mem : e ∈ assign k v entries) : e = (k, v) ∨ e ∈ entries := by
  induction entries with
  | nil => simpa [assign] using mem
  | cons d entries ih =>
    unfold assign at mem
    split at mem
    · rcases mem_cons.mp mem with rfl | mem
      · exact .inl rfl
      · exact .inr (List.mem_cons_of_mem _ mem)
    · split at mem
      · rcases mem_cons.mp mem with rfl | mem
        · exact .inl rfl
        · exact .inr mem
      · rcases mem_cons.mp mem with rfl | mem
        · exact .inr (by simp)
        · exact (ih mem).imp id (List.mem_cons_of_mem _)

theorem forall_mem_assign [LT K] [DecidableLT K] {k : K} {v : V} {es : AssocMap K V}
    {P : K × V → Prop} (new : P (k, v)) (old : ∀ e ∈ es, P e) : ∀ e ∈ assign k v es, P e := by
  intro e mem
  rcases mem_assign mem with rfl | mem
  · exact new
  · exact old e mem

end AssocMap

/-! ## Lookups in a list of entries -/

section Lookup

variable {K V : Type} [BEq K] [LawfulBEq K]

theorem lookup_cons_if [DecidableEq K] (e : K × V) (es : List (K × V)) (k : K) :
    (e :: es).lookup k = if k = e.1 then some e.2 else es.lookup k := by
  obtain ⟨head, v⟩ := e
  by_cases eq : k = head
  · simp [eq]
  · have unequal : (k == head) = false := by simpa using eq
    simp [List.lookup_cons, unequal, eq]

theorem mem_of_lookup [DecidableEq K] {entries : List (K × V)} {k : K} {v : V}
    (hit : entries.lookup k = some v) : (k, v) ∈ entries := by
  induction entries with
  | nil => cases hit
  | cons e entries ih =>
    rw [lookup_cons_if] at hit
    split at hit
    · rename_i eq
      cases hit
      simp [eq]
    · exact List.mem_cons_of_mem _ (ih hit)

theorem lookup_eq_none_of_notMem {es : List (K × V)} {k : K}
    (absent : k ∉ es.map Prod.fst) : es.lookup k = none := by
  rw [List.lookup_eq_none_iff]
  intro e mem
  have : e.1 ≠ k := fun equal => absent (equal ▸ List.mem_map_of_mem mem)
  simpa using Ne.symm this

theorem lookup_eq_some_iff_mem [DecidableEq K] {entries : List (K × V)}
    (nodup : (entries.map Prod.fst).Nodup) {k : K} {v : V} :
    entries.lookup k = some v ↔ (k, v) ∈ entries := by
  induction entries with
  | nil => simp
  | cons e entries ih =>
    obtain ⟨head, tail⟩ := List.nodup_cons.mp nodup
    rw [lookup_cons_if, mem_cons, Prod.ext_iff]
    by_cases eq : k = e.1
    · have absent : (k, v) ∉ entries := fun mem =>
        head (mem_map.mpr ⟨_, mem, eq⟩)
      simp only [eq, if_true, true_and]
      rw [← eq, or_iff_left absent, Option.some.injEq, eq_comm]
    · simp [eq, ih tail]

theorem lookup_assign [DecidableEq K] [LT K] [DecidableLT K] (k key : K) (v : V)
    (es : AssocMap K V) :
    (AssocMap.assign k v es).lookup key = if key = k then some v else es.lookup key := by
  induction es with
  | nil => simp [AssocMap.assign, lookup_cons_if]
  | cons e es ih =>
    unfold AssocMap.assign
    by_cases head : e.1 = k
    · rw [if_pos head, lookup_cons_if, lookup_cons_if, head]
      by_cases eq : key = k
      · rw [if_pos eq, if_pos eq]
      · rw [if_neg eq, if_neg eq, if_neg eq]
    · rw [if_neg head]
      split
      · exact lookup_cons_if _ _ _
      · rw [lookup_cons_if, lookup_cons_if, ih]
        by_cases eq : key = e.1
        · have ne : key ≠ k := fun equal => head (eq.symm.trans equal)
          rw [if_pos eq, if_pos eq, if_neg ne]
        · rw [if_neg eq, if_neg eq]

theorem lookup_filter_keys [DecidableEq K] (keep : K → Bool) (key : K) (es : AssocMap K V) :
    (es.filter (fun e => keep e.1)).lookup key = if keep key then es.lookup key else none := by
  induction es with
  | nil => simp
  | cons e es ih =>
    rw [List.filter_cons, lookup_cons_if]
    by_cases eq : key = e.1
    · subst eq
      by_cases kept : keep e.1 = true
      · rw [if_pos kept, lookup_cons_if, if_pos rfl, if_pos rfl, if_pos kept]
      · rw [if_neg kept, ih, if_neg kept, if_neg kept]
    · rw [if_neg eq]
      by_cases kept : keep e.1 = true
      · rw [if_pos kept, lookup_cons_if, if_neg eq, ih]
      · rw [if_neg kept, ih]

theorem lookup_erase [DecidableEq K] (k key : K) (es : AssocMap K V) :
    (AssocMap.erase k es).lookup key = if key = k then none else es.lookup key := by
  refine (lookup_filter_keys (fun ne => decide (ne ≠ k)) key es).trans ?_
  by_cases eq : key = k <;> simp [eq]

end Lookup

/-! ## Changed values -/

section Adjust

variable {K V W : Type} [DecidableEq K]

theorem lookup_adjust [BEq K] [LawfulBEq K] (k key : K) (f : V → V) (es : AssocMap K V) :
    (AssocMap.adjust k f es).lookup key =
      if key = k then (es.lookup key).map f else es.lookup key := by
  induction es with
  | nil => simp [AssocMap.adjust]
  | cons e es ih =>
    have tail : (es.map (fun e => if e.1 = k then (e.1, f e.2) else e)).lookup key =
        if key = k then (es.lookup key).map f else es.lookup key := ih
    simp only [AssocMap.adjust, map_cons, lookup_cons_if, tail]
    by_cases head : e.1 = k
    · by_cases eq : key = k
      · simp [head, eq]
      · simp [head, eq]
    · by_cases eq : key = e.1
      · have : key ≠ k := fun h => head (eq.symm.trans h)
        simp [eq, head]
      · simp [head, eq]

theorem adjust_contains (k name : K) (f : V → V) (es : AssocMap K V) :
    (AssocMap.adjust k f es).contains name = es.contains name := by
  unfold AssocMap.contains
  rw [lookup_adjust]
  split
  · rw [Option.isSome_map]
  · rfl

theorem keys_adjust (k : K) (f : V → V) (es : AssocMap K V) :
    (AssocMap.adjust k f es).map Prod.fst = es.map Prod.fst := by
  rw [AssocMap.adjust, List.map_map]
  refine List.map_congr_left (fun e _ => ?_)
  simp only [Function.comp]
  split <;> rfl

theorem adjust_same {k : K} {v : V} {entries : AssocMap K V} (nodup : (entries.map Prod.fst).Nodup)
    (hit : entries.lookup k = some v) : AssocMap.adjust k (fun _ => v) entries = entries := by
  refine (List.map_congr_left (fun e mem => ?_)).trans (List.map_id entries)
  split
  · rename_i eq
    have here : entries.lookup k = some e.2 :=
      (lookup_eq_some_iff_mem nodup).mpr (eq ▸ mem)
    rw [hit, Option.some.injEq] at here
    rw [here]
    rfl
  · rfl

theorem mem_adjust {k : K} {v : V} {es : AssocMap K V} {e : K × V}
    (mem : e ∈ AssocMap.adjust k (fun _ => v) es) : e ∈ es ∨ e = (k, v) := by
  obtain ⟨old, inEntries, changed⟩ := mem_map.mp mem
  split at changed
  · rename_i eq
    exact .inr (changed.symm.trans (by rw [eq]))
  · exact .inl (changed ▸ inEntries)

omit [DecidableEq K] in
theorem keys_mapValues (f : V → W) (es : AssocMap K V) :
    (es.map (fun e => (e.1, f e.2))).map Prod.fst = es.map Prod.fst := by
  rw [List.map_map]
  rfl

theorem lookup_mapValues (f : V → W) (es : AssocMap K V) (key : K) :
    (es.map (fun e => (e.1, f e.2))).lookup key = (es.lookup key).map f := by
  induction es with
  | nil => rfl
  | cons e es ih =>
    simp only [map_cons, lookup_cons_if, ih]
    split <;> rfl

theorem lookup_mapEntries (f : K → V → W) (es : AssocMap K V) (key : K) :
    (es.map (fun e => (e.1, f e.1 e.2))).lookup key = (es.lookup key).map (f key) := by
  induction es with
  | nil => rfl
  | cons e es ih =>
    simp only [map_cons, lookup_cons_if, ih]
    split
    · next eq => rw [eq]; rfl
    · rfl

theorem lookup_filter {es : AssocMap K V} (nodup : (es.map Prod.fst).Nodup) (keep : K × V → Bool)
    (key : K) : (es.filter keep).lookup key = (es.lookup key).filter (fun v => keep (key, v)) := by
  induction es with
  | nil => rfl
  | cons e es ih =>
    obtain ⟨head, tail⟩ := List.nodup_cons.mp nodup
    rw [lookup_cons_if]
    by_cases eq : key = e.1
    · subst eq
      have later : (es.filter keep).lookup e.1 = none := by
        rw [ih tail, lookup_eq_none_of_notMem head]
        rfl
      rw [if_pos rfl]
      by_cases kept : keep e = true
      · rw [List.filter_cons_of_pos kept, lookup_cons_if, if_pos rfl]
        exact (if_pos kept).symm
      · rw [List.filter_cons_of_neg kept, later]
        exact (if_neg kept).symm
    · rw [if_neg eq, ← ih tail]
      by_cases kept : keep e = true
      · rw [List.filter_cons_of_pos kept, lookup_cons_if, if_neg eq]
      · rw [List.filter_cons_of_neg kept]

end Adjust

/-! ## Keys in order -/

namespace AssocMap

variable {K V : Type} [LinearOrder K]

/-- The entries stand in increasing order of their keys. -/
def Increasing (m : AssocMap K V) : Prop := (m.map Prod.fst).Pairwise (· < ·)

theorem Increasing.nodup {m : AssocMap K V} (increasing : Increasing m) : (m.map Prod.fst).Nodup :=
  increasing.imp ne_of_lt

theorem Increasing.filter {m : AssocMap K V} (increasing : Increasing m) (p : K × V → Bool) :
    Increasing (m.filter p) :=
  increasing.sublist (List.filter_sublist.map _)

theorem Increasing.assign {m : AssocMap K V} (increasing : Increasing m) (k : K) (v : V) :
    Increasing (assign k v m) := by
  induction m with
  | nil => exact List.pairwise_singleton _ _
  | cons e m ih =>
    obtain ⟨above, rest⟩ := pairwise_cons.mp increasing
    unfold AssocMap.assign
    split
    · rename_i eq
      exact pairwise_cons.mpr ⟨eq ▸ above, rest⟩
    · rename_i ne
      split
      · rename_i less
        refine pairwise_cons.mpr ⟨?_, increasing⟩
        intro key mem
        rcases mem_cons.mp mem with rfl | mem
        · exact less
        · exact less.trans (above key mem)
      · rename_i notLess
        refine pairwise_cons.mpr ⟨?_, ih rest⟩
        intro key mem
        obtain ⟨d, isEntry, rfl⟩ := mem_map.mp mem
        rcases mem_assign isEntry with rfl | old
        · exact lt_of_le_of_ne (not_lt.mp notLess) ne
        · exact above _ (List.mem_map_of_mem old)

end AssocMap

end NobugDb.Misc
