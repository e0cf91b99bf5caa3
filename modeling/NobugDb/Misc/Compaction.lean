import Mathlib.Data.List.Basic
import Mathlib.Data.List.Range

/-!
# Positions in a list that is compacted

When elements are taken out of a list the ones behind them move up. `compact` says where the element
at a position goes; it stays where it is exactly when nothing at or before it is taken out.
-/

namespace NobugDb.Misc

variable {α β : Type*} {removed : Nat → Bool} {p q : Nat}

/-- Where the element at a position goes when those at the `removed` positions are taken out. -/
def compact (removed : Nat → Bool) (p : Nat) : Option Nat :=
  if removed p then none else some (p - (List.range p).countP removed)

theorem compact_le (goes : compact removed p = some q) : q ≤ p := by
  unfold compact at goes
  split at goes
  · cases goes
  · cases goes
    exact Nat.sub_le p _

/-- An element stays where it is when nothing at or before it is taken out. -/
theorem compact_eq_self_iff : compact removed p = some p ↔ ∀ j ≤ p, removed j = false := by
  unfold compact
  have fewer : (List.range p).countP removed ≤ p := by
    simpa using List.countP_le_length (l := List.range p) (p := removed)
  cases here : removed p with
  | true =>
    constructor
    · simp
    · intro none
      exact absurd here (by simp [none p le_rfl])
  | false =>
    have counted : (List.range p).countP removed = 0 ↔ ∀ j < p, removed j = false := by
      simp [List.countP_eq_zero]
    constructor
    · intro stays j le
      obtain rfl | lt := le.eq_or_lt
      · exact here
      · have eq : p - (List.range p).countP removed = p := by simpa using stays
        exact counted.mp (by omega) j lt
    · intro none
      have zero := counted.mpr (fun j lt => none j lt.le)
      simp [zero]

theorem compact_none (p : Nat) : compact (fun _ => false) p = some p :=
  compact_eq_self_iff.mpr (fun _ _ => rfl)

theorem compact_succ (removed : Nat → Bool) (p : Nat) :
    compact removed (p + 1) =
      (compact (fun j => removed (j + 1)) p).map (fun q => if removed 0 then q else q + 1) := by
  have fewer : (List.range p).countP (fun j => removed (j + 1)) ≤ p := by
    simpa using List.countP_le_length (l := List.range p) (p := fun j => removed (j + 1))
  have shifted : (List.range (p + 1)).countP removed =
      (List.range p).countP (fun j => removed (j + 1)) + if removed 0 then 1 else 0 := by
    rw [List.range_succ_eq_map, List.countP_cons, List.countP_map]
    rfl
  unfold compact
  rw [shifted]
  cases later : removed (p + 1) with
  | true => simp [later]
  | false =>
    cases fst : removed 0 with
    | true =>
      simp only [later, Bool.false_eq_true, if_false, if_true, Option.map_some]
      congr 1
      omega
    | false =>
      simp only [later, Bool.false_eq_true, if_false, Option.map_some]
      congr 1
      omega

theorem getElem?_filterMap_of_compact (f : α → Option β) (l : List α)
    (goes : compact (fun j => (l[j]?).any (fun a => (f a).isNone)) p = some q) :
    (l.filterMap f)[q]? = (l[p]?).bind f := by
  induction l generalizing p q with
  | nil => simp
  | cons a l ih =>
    cases p with
    | zero =>
      unfold compact at goes
      cases kept : f a with
      | none => simp [kept] at goes
      | some b =>
        obtain rfl : 0 = q := by simpa [kept] using goes
        simp [kept]
    | succ p =>
      rw [compact_succ] at goes
      obtain ⟨r, rest, rfl⟩ := Option.map_eq_some_iff.mp goes
      have tail := ih rest
      cases kept : f a with
      | none | some b => simpa [kept] using tail

theorem getElem?_eraseIdx_of_compact (l : List α) {i : Nat}
    (goes : compact (fun j => j == i) p = some q) : (l.eraseIdx i)[q]? = l[p]? := by
  have once : (List.range p).countP (fun j => j == i) = if i < p then 1 else 0 := by
    have counted := List.nodup_range.count (a := i) (l := List.range p)
    simpa [List.count] using counted
  unfold compact at goes
  rw [once] at goes
  rw [List.getElem?_eraseIdx]
  obtain before | rfl | after := Nat.lt_trichotomy p i
  · obtain rfl : p = q := by simpa [before.ne, not_lt.mpr before.le] using goes
    rw [if_pos before]
  · simp at goes
  · obtain rfl : p - 1 = q := by simpa [after.ne', after] using goes
    rw [if_neg (by omega), Nat.sub_add_cancel (by omega)]

/-! ## Several passes -/

/-- Where the element at a position goes in several passes. -/
def compactAll (passes : List (Nat → Bool)) (p : Nat) : Option Nat :=
  passes.foldlM (fun p removed => compact removed p) p

theorem compactAll_cons (removed : Nat → Bool) (passes : List (Nat → Bool)) (p : Nat) :
    compactAll (removed :: passes) p = (compact removed p).bind (compactAll passes) := rfl

variable {passes : List (Nat → Bool)}

theorem compactAll_le (goes : compactAll passes p = some q) : q ≤ p := by
  induction passes generalizing p with
  | nil =>
    cases goes
    exact le_rfl
  | cons removed passes ih =>
    obtain ⟨r, fst, rest⟩ := Option.bind_eq_some_iff.mp goes
    exact (ih rest).trans (compact_le fst)

/-- An element that has moved up does not come back. -/
theorem compactAll_eq_self_iff :
    compactAll passes p = some p ↔ ∀ removed ∈ passes, ∀ j ≤ p, removed j = false := by
  induction passes with
  | nil => simp [compactAll]
  | cons removed passes ih =>
    rw [compactAll_cons, List.forall_mem_cons, ← compact_eq_self_iff, ← ih]
    constructor
    · intro stays
      obtain ⟨r, fst, rest⟩ := Option.bind_eq_some_iff.mp stays
      obtain rfl : r = p := le_antisymm (compact_le fst) (compactAll_le rest)
      exact ⟨fst, rest⟩
    · rintro ⟨fst, rest⟩
      rw [fst]
      exact rest

end NobugDb.Misc
