import Mathlib

/-!
# Relocating updates of buckets

Elements are spread over buckets. An update visits buckets one after another; in each it takes
the elements selected there, changes each of them and puts it into the bucket the changed element
belongs to. A bucket that is still to be visited may get elements that way, so an element may be
changed more than once. The number of changes tells: it is the number of elements selected at
the start exactly when no changed element is selected again.
-/

namespace NobugDb.Misc

open List (map_congr_left map_cons nodup_cons sum_cons sum_map_add)

/-- Which elements an update selects in a bucket, and where it puts what it makes of them. -/
structure Relocation (ι V : Type) where
  selects : ι → V → Bool
  place : ι → V → ι × V

namespace Relocation

variable {ι V : Type} [DecidableEq ι] (r : Relocation ι V)

/-- The elements selected in a bucket. -/
def selected (b : ι) (s : ι → Multiset V) : Multiset V := (s b).filter (fun v => r.selects b v = true)

/-- What comes into bucket `c` when these elements of bucket `b` are changed. -/
def arrivals (b : ι) (taken : Multiset V) (c : ι) : Multiset V :=
  ((taken.map (r.place b)).filter (fun p => p.1 = c)).map Prod.snd

/-- A visit of a bucket. -/
def visit (b : ι) (s : ι → Multiset V) (c : ι) : Multiset V :=
  (if c = b then (s b).filter (fun v => ¬ r.selects b v = true) else s c) +
    r.arrivals b (r.selected b s) c

def visitAll (buckets : List ι) (s : ι → Multiset V) : ι → Multiset V :=
  buckets.foldl (fun s b => r.visit b s) s

/-- How many changes the visits make. -/
def changes : List ι → (ι → Multiset V) → Nat
  | [], _ => 0
  | b :: bs, s => (r.selected b s).card + changes bs (r.visit b s)

/-- No changed element is selected in a bucket that is visited later. -/
def Settles (buckets : List ι) (s : ι → Multiset V) : Prop :=
  buckets.Pairwise (fun b c => ∀ v ∈ r.selected b s, (r.place b v).1 = c →
    r.selects c (r.place b v).2 = false)

variable {r} {b c : ι} {s s' : ι → Multiset V} {taken : Multiset V}

theorem eq_visit_iff :
    s' = r.visit b s ↔ ∀ c, s' c + (if c = b then r.selected b s else 0) =
      s c + r.arrivals b (r.selected b s) c := by
  have balance (c : ι) : r.visit b s c + (if c = b then r.selected b s else 0) =
      s c + r.arrivals b (r.selected b s) c := by
    unfold visit
    by_cases here : c = b
    · rw [if_pos here, if_pos here, here]
      have parts := Multiset.filter_add_not (fun v => r.selects b v = true) (s b)
      rw [add_right_comm]
      congr 1
      rw [add_comm]
      exact parts
    · rw [if_neg here, if_neg here, add_zero]
  constructor
  · rintro rfl
    exact balance
  · intro eq
    funext c
    exact add_right_cancel ((eq c).trans (balance c).symm)

theorem arrivals_add (b : ι) (fst second : Multiset V) (c : ι) :
    r.arrivals b (fst + second) c = r.arrivals b fst c + r.arrivals b second c := by
  simp [arrivals]

theorem arrivals_single (b : ι) (v : V) (c : ι) :
    r.arrivals b {v} c = if c = (r.place b v).1 then {(r.place b v).2} else 0 := by
  unfold arrivals
  rw [Multiset.map_singleton, Multiset.filter_singleton]
  by_cases here : c = (r.place b v).1
  · rw [if_pos here.symm, if_pos here]
    rfl
  · rw [if_neg (fun eq => here eq.symm), if_neg here]
    rfl

theorem mem_arrivals {w : V} : w ∈ r.arrivals b taken c ↔ ∃ v ∈ taken, r.place b v = (c, w) := by
  simp only [arrivals, Multiset.mem_map, Multiset.mem_filter, Prod.exists]
  constructor
  · rintro ⟨tgt, w', ⟨⟨v, mem, placed⟩, rfl⟩, rfl⟩
    exact ⟨v, mem, placed⟩
  · rintro ⟨v, mem, placed⟩
    exact ⟨c, w, ⟨⟨v, mem, placed⟩, rfl⟩, rfl⟩

/-! ## Buckets still to be visited -/

theorem visit_of_ne (ne : c ≠ b) : r.visit b s c = s c + r.arrivals b (r.selected b s) c := by
  unfold visit
  rw [if_neg ne]

theorem selected_visit (ne : c ≠ b) :
    r.selected c (r.visit b s) =
      r.selected c s + (r.arrivals b (r.selected b s) c).filter (fun v => r.selects c v = true) := by
  unfold selected
  rw [visit_of_ne ne, Multiset.filter_add]
  rfl

theorem reselected_eq_zero_iff :
    (r.arrivals b taken c).filter (fun v => r.selects c v = true) = 0 ↔
      ∀ v ∈ taken, (r.place b v).1 = c → r.selects c (r.place b v).2 = false := by
  rw [Multiset.filter_eq_nil]
  constructor
  · intro none v mem here
    have arrives : (r.place b v).2 ∈ r.arrivals b taken c := mem_arrivals.mpr ⟨v, mem, by rw [← here]⟩
    simpa using none _ arrives
  · intro none w arrives
    obtain ⟨v, mem, placed⟩ := mem_arrivals.mp arrives
    have unselected := none v mem (by rw [placed])
    rw [placed] at unselected
    simp [unselected]

variable {buckets all : List ι}

theorem le_changes (once : buckets.Nodup) (s : ι → Multiset V) :
    (buckets.map (fun b => (r.selected b s).card)).sum ≤ r.changes buckets s := by
  induction buckets generalizing s with
  | nil => rfl
  | cons b bs ih =>
    obtain ⟨apart, once⟩ := nodup_cons.mp once
    rw [map_cons, sum_cons, changes]
    refine Nat.add_le_add_left (le_trans (List.sum_le_sum fun c mem => ?_) (ih once _)) _
    rw [selected_visit (ne_of_mem_of_not_mem mem apart)]
    exact Multiset.card_le_card (Multiset.le_add_right _ _)

theorem sum_card_selected_visit {buckets : List ι} (apart : b ∉ buckets) :
    (buckets.map (fun c => (r.selected c (r.visit b s)).card)).sum =
      (buckets.map (fun c => (r.selected c s).card)).sum +
        (buckets.map (fun c => ((r.arrivals b (r.selected b s) c).filter
          (fun v => r.selects c v = true)).card)).sum := by
  rw [← sum_map_add]
  refine congrArg List.sum (map_congr_left fun c mem => ?_)
  rw [selected_visit (ne_of_mem_of_not_mem mem apart), Multiset.card_add]

/-- Buckets in which nothing new is selected settle as they did before the visit. -/
theorem settles_visit (eq : ∀ c ∈ buckets, r.selected c (r.visit b s) = r.selected c s) :
    r.Settles buckets (r.visit b s) ↔ r.Settles buckets s := by
  unfold Settles
  refine List.Pairwise.iff_of_mem fun {c d} first _ => ?_
  rw [eq c first]

/-- **The number of changes.** It is that of the elements selected at the start exactly when no
    changed element is selected again. -/
theorem changes_eq_iff (once : buckets.Nodup) (s : ι → Multiset V) :
    r.changes buckets s = (buckets.map (fun b => (r.selected b s).card)).sum ↔
      r.Settles buckets s := by
  induction buckets generalizing s with
  | nil => simp [changes, Settles]
  | cons b bs ih =>
    obtain ⟨apart, once⟩ := nodup_cons.mp once
    have atLeast := r.le_changes once (r.visit b s)
    have parts := @sum_card_selected_visit ι V _ r b s bs apart
    have head : (∀ c ∈ bs, ((r.arrivals b (r.selected b s) c).filter
          (fun v => r.selects c v = true)).card = 0) ↔
        ∀ c ∈ bs, ∀ v ∈ r.selected b s, (r.place b v).1 = c →
          r.selects c (r.place b v).2 = false := by
      refine forall₂_congr fun c _ => ?_
      rw [Multiset.card_eq_zero]
      exact reselected_eq_zero_iff
    -- Nothing comes in that is selected, and the other visits make no further change.
    rw [changes, map_cons, sum_cons, Nat.add_left_cancel_iff, Settles, List.pairwise_cons, ← head]
    constructor
    · intro eq
      have none : ∀ c ∈ bs, ((r.arrivals b (r.selected b s) c).filter
          (fun v => r.selects c v = true)).card = 0 := by
        have zero : (bs.map (fun c => ((r.arrivals b (r.selected b s) c).filter
            (fun v => r.selects c v = true)).card)).sum = 0 := by omega
        rw [List.sum_eq_zero_iff] at zero
        exact fun c mem => zero _ (List.mem_map_of_mem mem)
      have unchanged : ∀ c ∈ bs, r.selected c (r.visit b s) = r.selected c s := by
        intro c mem
        rw [selected_visit (ne_of_mem_of_not_mem mem apart),
          Multiset.card_eq_zero.mp (none c mem), add_zero]
      refine ⟨none, (settles_visit unchanged).mp ((ih once _).mp ?_)⟩
      omega
    · rintro ⟨none, settles⟩
      have unchanged : ∀ c ∈ bs, r.selected c (r.visit b s) = r.selected c s := by
        intro c mem
        rw [selected_visit (ne_of_mem_of_not_mem mem apart),
          Multiset.card_eq_zero.mp (none c mem), add_zero]
      rw [(ih once _).mpr ((settles_visit unchanged).mpr settles)]
      exact congrArg List.sum (map_congr_left fun c mem => by rw [unchanged c mem])

/-! ## All elements -/

variable (once : all.Nodup)
include once

theorem sum_at (mem : b ∈ all) (taken : Multiset V) :
    (all.map (fun c => if c = b then taken else 0)).sum = taken := by
  induction all with
  | nil => exact absurd mem List.not_mem_nil
  | cons a all ih =>
    obtain ⟨apart, once⟩ := nodup_cons.mp once
    rw [map_cons, sum_cons]
    rcases List.mem_cons.mp mem with rfl | mem
    · have others : (all.map (fun c => if c = b then taken else 0)).sum = 0 := by
        rw [map_congr_left (fun c mem => if_neg (ne_of_mem_of_not_mem mem apart))]
        simp
      rw [if_pos rfl, others, add_zero]
    · rw [if_neg (ne_of_mem_of_not_mem mem apart).symm, zero_add, ih once mem]

theorem sum_arrivals (isIn : ∀ v ∈ taken, (r.place b v).1 ∈ all) :
    (all.map (r.arrivals b taken)).sum = taken.map (fun v => (r.place b v).2) := by
  induction taken using Multiset.induction with
  | empty =>
    have none : all.map (r.arrivals b 0) = all.map (fun _ => 0) := rfl
    rw [none]
    simp
  | cons v taken ih =>
    have rest := ih (fun w mem => isIn w (Multiset.mem_cons_of_mem mem))
    have split : (all.map (r.arrivals b (v ::ₘ taken))).sum =
        (all.map (r.arrivals b {v})).sum + (all.map (r.arrivals b taken)).sum := by
      rw [← sum_map_add]
      refine congrArg List.sum (map_congr_left fun c _ => ?_)
      rw [← Multiset.singleton_add, arrivals_add]
    have single : (all.map (r.arrivals b {v})).sum = {(r.place b v).2} := by
      rw [map_congr_left (fun c _ => arrivals_single b v c)]
      exact sum_at once (isIn v (Multiset.mem_cons_self v taken)) _
    rw [split, single, rest, Multiset.map_cons, Multiset.singleton_add]

theorem sum_visit (mem : b ∈ all) (isIn : ∀ v ∈ r.selected b s, (r.place b v).1 ∈ all) :
    (all.map (r.visit b s)).sum + r.selected b s =
      (all.map s).sum + (r.selected b s).map (fun v => (r.place b v).2) := by
  have balance := eq_visit_iff.mp (rfl : r.visit b s = r.visit b s)
  have leaves := sum_at once mem (r.selected b s)
  calc (all.map (r.visit b s)).sum + r.selected b s
      = (all.map (fun c => r.visit b s c + if c = b then r.selected b s else 0)).sum := by
        rw [sum_map_add, leaves]
    _ = (all.map (fun c => s c + r.arrivals b (r.selected b s) c)).sum :=
        congrArg List.sum (map_congr_left fun c _ => balance c)
    _ = _ := by rw [sum_map_add, sum_arrivals once isIn]

/-- **One change each.** When no changed element is selected again, the visits exchange the
    elements selected at the start for what becomes of them. -/
theorem sum_visitAll (visitedOnce : buckets.Nodup) (sub : buckets ⊆ all)
    (settles : r.Settles buckets s)
    (isIn : ∀ b ∈ buckets, ∀ v ∈ r.selected b s, (r.place b v).1 ∈ all) :
    (all.map (r.visitAll buckets s)).sum + (buckets.map (fun b => r.selected b s)).sum =
      (all.map s).sum +
        (buckets.map (fun b => (r.selected b s).map (fun v => (r.place b v).2))).sum := by
  induction buckets generalizing s with
  | nil => simp [visitAll]
  | cons b bs ih =>
    obtain ⟨apart, visitedOnce⟩ := nodup_cons.mp visitedOnce
    obtain ⟨head, settles⟩ := List.pairwise_cons.mp settles
    have unchanged : ∀ c ∈ bs, r.selected c (r.visit b s) = r.selected c s := by
      intro c mem
      rw [selected_visit (ne_of_mem_of_not_mem mem apart),
        reselected_eq_zero_iff.mpr (head c mem), add_zero]
    have rest := ih visitedOnce (fun c mem => sub (List.mem_cons_of_mem b mem))
      ((settles_visit unchanged).mpr settles) (fun c mem => by
        rw [unchanged c mem]
        exact isIn c (List.mem_cons_of_mem b mem))
    rw [map_congr_left unchanged, map_congr_left (fun c mem => by
      rw [unchanged c mem] : ∀ c ∈ bs, (r.selected c (r.visit b s)).map (fun v => (r.place c v).2) =
          (r.selected c s).map (fun v => (r.place c v).2))] at rest
    have fst := sum_visit once (sub List.mem_cons_self) (isIn b List.mem_cons_self)
    rw [map_cons, sum_cons, map_cons, sum_cons]
    calc (all.map (r.visitAll (b :: bs) s)).sum +
          (r.selected b s + (bs.map (fun c => r.selected c s)).sum)
        = (all.map (r.visitAll bs (r.visit b s))).sum +
            (bs.map (fun c => r.selected c s)).sum + r.selected b s := by
          rw [add_left_comm, add_comm (r.selected b s)]
          rfl
      _ = ((all.map (r.visit b s)).sum + r.selected b s) +
            (bs.map (fun c => (r.selected c s).map (fun v => (r.place c v).2))).sum := by
          rw [rest, add_right_comm]
      _ = _ := by rw [fst, add_assoc]

end Relocation

end NobugDb.Misc
