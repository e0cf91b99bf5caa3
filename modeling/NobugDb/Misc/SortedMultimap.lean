import Mathlib

/-!
# Sorted multimaps

A multimap kept as a list of bindings `(key, values)` in strictly increasing key order.
Keys are compared by two Boolean tests, `lt` and `eq`, that need to agree with one another
only on the keys in use (`TotalOn`): equal keys need not be the same key. `insert` and
`remove` walk the list to the key's place, and both are cases of `alter`; `find` returns the
values bound there. The lemmas say how these pass over bindings known to lie before or after
the key, which is what a search tree does with the subtrees it does not enter.
-/

namespace NobugDb.Misc

open List (cons_append mem_cons pairwise_cons)

/-- The two tests a search structure applies to its keys. -/
structure KeyCmp (K : Type) where
  lt : K → K → Bool
  eq : K → K → Bool

/-- On the keys in `S` the tests are those of a total order, up to the keys it calls equal. -/
structure TotalOn {K : Type} (c : KeyCmp K) (S : K → Prop) : Prop where
  irrefl : ∀ a, S a → c.lt a a = false
  trans : ∀ a b d, S a → S b → S d → c.lt a b = true → c.lt b d = true → c.lt a d = true
  split : ∀ a b d, S a → S b → S d → c.lt a d = true → c.lt a b = true ∨ c.lt b d = true
  eq_iff : ∀ a b, S a → S b → (c.eq a b = true ↔ c.lt a b = false ∧ c.lt b a = false)

namespace TotalOn

variable {K : Type} {c : KeyCmp K} {S : K → Prop}

variable {a b : K} {d : K}

variable (total : TotalOn c S) (ha : S a) (hb : S b)
include total ha hb

theorem asymm (less : c.lt a b = true) : c.lt b a = false := by
  cases back : c.lt b a with
  | false => rfl
  | true =>
    have loop := total.trans a b a ha hb ha less back
    rw [total.irrefl a ha] at loop
    exact loop.symm

theorem eq_comm : c.eq a b = true ↔ c.eq b a = true := by
  rw [total.eq_iff a b ha hb, total.eq_iff b a hb ha]
  exact And.comm

theorem ne_of_lt (less : c.lt a b = true) : c.eq a b = false := by
  cases same : c.eq a b with
  | false => rfl
  | true =>
    have notLess := ((total.eq_iff a b ha hb).mp same).1
    rw [less] at notLess
    exact notLess

theorem ne_of_gt (less : c.lt a b = true) : c.eq b a = false := by
  cases same : c.eq b a with
  | false => rfl
  | true =>
    have notLess := ((total.eq_iff b a hb ha).mp same).2
    rw [less] at notLess
    exact notLess

theorem lt_of_not (notLess : c.lt a b = false) (notSame : c.eq a b = false) : c.lt b a = true := by
  cases above : c.lt b a with
  | true => rfl
  | false =>
    have := (total.eq_iff a b ha hb).mpr ⟨notLess, above⟩
    rw [notSame] at this
    exact this

theorem lt_of_lt_of_eq (hd : S d)
    (less : c.lt a b = true) (same : c.eq b d = true) : c.lt a d = true := by
  rcases total.split a d b ha hd hb less with below | above
  · exact below
  · rw [((total.eq_iff b d hb hd).mp same).2] at above
    exact absurd above (by simp)

theorem lt_of_eq_of_lt (hd : S d)
    (same : c.eq a b = true) (less : c.lt b d = true) : c.lt a d = true := by
  rcases total.split b a d hb ha hd less with below | above
  · rw [((total.eq_iff a b ha hb).mp same).2] at below
    exact absurd below (by simp)
  · exact above

theorem eq_trans (hd : S d) (same : c.eq a b = true)
    (next : c.eq b d = true) : c.eq a d = true := by
  rw [total.eq_iff a d ha hd]
  refine ⟨?_, ?_⟩
  · cases less : c.lt a d with
    | false => rfl
    | true =>
      have := total.lt_of_lt_of_eq ha hd hb less ((total.eq_comm hb hd).mp next)
      rw [total.ne_of_lt ha hb this] at same
      exact same.symm
  · cases less : c.lt d a with
    | false => rfl
    | true =>
      have := total.lt_of_lt_of_eq hd ha hb less same
      rw [total.ne_of_gt hd hb this] at next
      exact next.symm

theorem eq_congr (hd : S d) (same : c.eq a b = true) : c.eq a d = c.eq b d := by
  rw [Bool.eq_iff_iff]
  refine ⟨fun h => ?_, total.eq_trans ha hb hd same⟩
  exact total.eq_trans hb ha hd ((total.eq_comm ha hb).mp same) h

end TotalOn

variable {K V : Type}

def Sorted (c : KeyCmp K) (l : List (K × List V)) : Prop :=
  l.Pairwise (fun a b => c.lt a.1 b.1 = true)

def KeysIn (S : K → Prop) (l : List (K × List V)) : Prop := ∀ e ∈ l, S e.1

def Below (c : KeyCmp K) (key : K) (l : List (K × List V)) : Prop :=
  ∀ e ∈ l, c.lt e.1 key = true

def Above (c : KeyCmp K) (key : K) (l : List (K × List V)) : Prop :=
  ∀ e ∈ l, c.lt key e.1 = true

/-- The values bound to `key`. -/
def find (c : KeyCmp K) (key : K) : List (K × List V) → List V
  | [] => []
  | e :: es => if c.eq e.1 key then e.2 else find c key es

def insert (c : KeyCmp K) (key : K) (v : V) : List (K × List V) → List (K × List V)
  | [] => [(key, [v])]
  | e :: es =>
    if c.lt e.1 key then e :: insert c key v es
    else if c.eq e.1 key then (e.1, e.2 ++ [v]) :: es
    else (key, [v]) :: e :: es

/-- All copies of one value gone from `key`, and the binding with them when none is left. -/
def remove [DecidableEq V] (c : KeyCmp K) (key : K) (v : V) : List (K × List V) → List (K × List V)
  | [] => []
  | e :: es =>
    if c.lt e.1 key then e :: remove c key v es
    else if c.eq e.1 key then
      if e.2.filter (· ≠ v) = [] then es else (e.1, e.2.filter (· ≠ v)) :: es
    else e :: es

/-- A binding, unless it would have no values. -/
def binding (key : K) (values : List V) : List (K × List V) :=
  if values = [] then [] else [(key, values)]

/-- The values at `key` changed by `f`. -/
def alter (c : KeyCmp K) (key : K) (f : List V → List V) : List (K × List V) → List (K × List V)
  | [] => binding key (f [])
  | e :: es =>
    if c.lt e.1 key then e :: alter c key f es
    else if c.eq e.1 key then binding e.1 (f e.2) ++ es
    else binding key (f []) ++ e :: es

theorem insert_eq_alter (c : KeyCmp K) (key : K) (v : V) (l : List (K × List V)) :
    insert c key v l = alter c key (· ++ [v]) l := by
  induction l with
  | nil => simp [insert, alter, binding]
  | cons e es ih => simp [insert, alter, binding, ih]

theorem remove_eq_alter [DecidableEq V] (c : KeyCmp K) (key : K) (v : V) (l : List (K × List V)) :
    remove c key v l = alter c key (·.filter (· ≠ v)) l := by
  induction l with
  | nil => simp [remove, alter, binding]
  | cons e es ih =>
    simp only [remove, alter, binding, ih, List.filter_nil, if_true, List.nil_append]
    split
    · rfl
    · split
      · split <;> rfl
      · rfl

variable {e : K × List V}

section Append

variable {c : KeyCmp K} {S : K → Prop} {key : K}

variable {l r : List (K × List V)}

section

variable (total : TotalOn c S) (hkey : S key)
include total hkey

theorem Above.not_lt (keys : KeysIn S l) (above : Above c key l) : ∀ e ∈ l, c.lt e.1 key = false :=
  fun e mem => total.asymm hkey (keys e mem) (above e mem)

theorem find_append_below (keys : KeysIn S l)
    (below : Below c key l) : find c key (l ++ r) = find c key r := by
  induction l with
  | nil => rfl
  | cons e es ih =>
    have differ := total.ne_of_lt (keys e (by simp)) hkey (below e (by simp))
    simp only [cons_append, find, differ]
    exact ih (fun x h => keys x (by simp [h])) (fun x h => below x (by simp [h]))

theorem find_above (keys : KeysIn S l) (above : Above c key l) : find c key l = [] := by
  induction l with
  | nil => rfl
  | cons e es ih =>
    have differ := total.ne_of_gt hkey (keys e (by simp)) (above e (by simp))
    simp only [find, differ]
    exact ih (fun x h => keys x (by simp [h])) (fun x h => above x (by simp [h]))

theorem find_append_above (keys : KeysIn S r)
    (above : Above c key r) : find c key (l ++ r) = find c key l := by
  induction l with
  | nil => exact find_above total hkey keys above
  | cons e es ih =>
    simp only [cons_append, find]
    rw [ih]

end

theorem alter_append_below (f : List V → List V) (below : Below c key l) :
    alter c key f (l ++ r) = l ++ alter c key f r := by
  induction l with
  | nil => rfl
  | cons e es ih =>
    simp only [cons_append, alter, below e (by simp), if_true]
    rw [ih (fun x h => below x (by simp [h]))]

theorem alter_append_above (total : TotalOn c S) (hkey : S key) (f : List V → List V)
    (keys : KeysIn S r) (above : Above c key r) :
    alter c key f (l ++ r) = alter c key f l ++ r := by
  induction l with
  | nil =>
    cases r with
    | nil => simp
    | cons e es =>
      have notLess := above.not_lt total hkey keys e (by simp)
      have differ := total.ne_of_gt hkey (keys e (by simp)) (above e (by simp))
      simp [alter, notLess, differ]
  | cons e es ih =>
    simp only [cons_append, alter]
    split
    · rw [ih, cons_append]
    · split <;> simp

theorem alter_between (total : TotalOn c S) (hkey : S key) (f : List V → List V)
    (below : Below c key l) (keys : KeysIn S r) (above : Above c key r) :
    alter c key f (l ++ r) = l ++ (binding key (f []) ++ r) := by
  rw [alter_append_below f below]
  have := alter_append_above total hkey f (l := []) keys above
  simpa [alter] using this

theorem alter_at (total : TotalOn c S) (hkey : S key) (f : List V → List V)
    (he : S e.1) (below : Below c key l) (same : c.eq e.1 key = true) :
    alter c key f (l ++ e :: r) = l ++ (binding e.1 (f e.2) ++ r) := by
  rw [alter_append_below f below]
  have notLess := ((total.eq_iff e.1 key he hkey).mp same).1
  simp [alter, notLess, same]

end Append

section Laws

variable {c : KeyCmp K} {S : K → Prop} {key : K}

variable {l r : List (K × List V)}

theorem Sorted.append :
    Sorted c (l ++ r) ↔ Sorted c l ∧ Sorted c r ∧ ∀ a ∈ l, ∀ b ∈ r, c.lt a.1 b.1 = true :=
  List.pairwise_append

theorem KeysIn.append : KeysIn S (l ++ r) ↔ KeysIn S l ∧ KeysIn S r := by
  simp [KeysIn, or_imp, forall_and]

theorem Sorted.below_of_le (total : TotalOn c S) (hkey : S key)
    (keys : KeysIn S (l ++ e :: r)) (sorted : Sorted c (l ++ e :: r))
    (le : c.lt e.1 key = true ∨ c.eq e.1 key = true) : Below c key l := by
  intro a mem
  have before := (Sorted.append.mp sorted).2.2 a mem e (by simp)
  have ha := keys a (by simp [mem])
  have he := keys e (by simp)
  rcases le with less | same
  · exact total.trans a.1 e.1 key ha he hkey before less
  · exact total.lt_of_lt_of_eq ha he hkey before same

theorem Sorted.above_of_ge (total : TotalOn c S) (hkey : S key)
    (keys : KeysIn S (l ++ e :: r)) (sorted : Sorted c (l ++ e :: r))
    (ge : c.lt key e.1 = true ∨ c.eq key e.1 = true) : Above c key r := by
  intro b mem
  have tail := (Sorted.append.mp sorted).2.1
  have after := (pairwise_cons.mp tail).1 b mem
  have hb := keys b (by simp [mem])
  have he := keys e (by simp)
  rcases ge with less | same
  · exact total.trans key e.1 b.1 hkey he hb less after
  · exact total.lt_of_eq_of_lt hkey he hb same after

theorem mem_binding_append {vals : List V} (mem : e ∈ binding key vals ++ l) :
    e.1 = key ∨ e ∈ l := by
  unfold binding at mem
  split at mem
  · exact .inr mem
  · exact (mem_cons.mp mem).imp (congrArg Prod.fst) id

theorem keysIn_alter (hkey : S key) (f : List V → List V) (keys : KeysIn S l) :
    KeysIn S (alter c key f l) := by
  induction l with
  | nil =>
    intro e mem
    obtain isKey | mem := mem_binding_append (l := []) (by simpa [alter] using mem)
    · exact isKey ▸ hkey
    · cases mem
  | cons x xs ih =>
    have hx : S x.1 := keys x (by simp)
    have hxs : KeysIn S xs := fun y h => keys y (by simp [h])
    intro e mem
    simp only [alter] at mem
    split at mem
    · rcases mem_cons.mp mem with rfl | mem
      · exact hx
      · exact ih hxs e mem
    · split at mem
      · obtain isKey | mem := mem_binding_append mem
        · exact isKey ▸ hx
        · exact hxs e mem
      · obtain isKey | mem := mem_binding_append mem
        · exact isKey ▸ hkey
        · exact keys e mem

theorem sorted_binding_append {vals : List V} (above : Above c key l) (sorted : Sorted c l) :
    Sorted c (binding key vals ++ l) := by
  unfold binding
  split
  · exact sorted
  · exact pairwise_cons.mpr ⟨above, sorted⟩

theorem sorted_alter (total : TotalOn c S) (hkey : S key) (f : List V → List V) (keys : KeysIn S l)
    (sorted : Sorted c l) : Sorted c (alter c key f l) := by
  induction l with
  | nil =>
    have alone : Sorted c (binding key (f []) ++ []) := sorted_binding_append (by simp [Above]) sorted
    simpa [alter] using alone
  | cons x xs ih =>
    have hx : S x.1 := keys x (by simp)
    have hxs : KeysIn S xs := fun y h => keys y (by simp [h])
    obtain ⟨fst, rest⟩ := pairwise_cons.mp sorted
    simp only [alter]
    split
    · rename_i less
      exact pairwise_cons.mpr
        ⟨keysIn_alter (S := fun k => c.lt x.1 k = true) less f fst, ih hxs rest⟩
    · rename_i notLess
      split
      · exact sorted_binding_append fst rest
      · rename_i notSame
        have less := total.lt_of_not hx hkey (by simpa using notLess) (by simpa using notSame)
        refine sorted_binding_append (fun e mem => ?_) sorted
        rcases mem_cons.mp mem with rfl | mem
        · exact less
        · exact total.trans key x.1 e.1 hkey hx (hxs e mem) less (fst e mem)

theorem find_binding_append (k : K) (values : List V) :
    find c k (binding key values ++ l) =
      if c.eq key k = true ∧ values ≠ [] then values else find c k l := by
  unfold binding
  split <;> simp_all [find]

/-- What a lookup sees after a change at `key`. -/
theorem find_alter (total : TotalOn c S) {k : K} (hk : S k) (hkey : S key) (f : List V → List V)
    (keys : KeysIn S l) (sorted : Sorted c l) :
    find c k (alter c key f l) = if c.eq key k then f (find c k l) else find c k l := by
  induction l with
  | nil =>
    rw [alter, ← List.append_nil (binding key (f [])), find_binding_append]
    simp only [find]
    split <;> simp_all
  | cons x xs ih =>
    have hx : S x.1 := keys x (by simp)
    have hxs : KeysIn S xs := fun y h => keys y (by simp [h])
    obtain ⟨fst, rest⟩ := pairwise_cons.mp sorted
    simp only [alter]
    split
    case isTrue less =>
      simp only [find, ih hxs rest]
      cases hit : c.eq x.1 k with
      | false => rfl
      | true =>
        have above := total.lt_of_eq_of_lt hk hx hkey ((total.eq_comm hx hk).mp hit) less
        simp [total.ne_of_gt hk hkey above]
    case isFalse notLess =>
      split
      case isTrue same =>
        rw [find_binding_append, ← total.eq_congr hx hkey hk same]
        cases hit : c.eq x.1 k with
        | false => simp [find, hit]
        | true =>
          have above : Above c k xs := fun e mem =>
            total.lt_of_eq_of_lt hk hx (hxs e mem) ((total.eq_comm hx hk).mp hit) (fst e mem)
          rw [find_above total hk hxs above]
          simp only [find, hit, if_true, true_and]
          split <;> simp_all
      case isFalse notSame =>
        have less := total.lt_of_not hx hkey (by simpa using notLess) (by simpa using notSame)
        rw [find_binding_append]
        cases hit : c.eq key k with
        | false => simp
        | true =>
          -- The key was not bound: everything from here on lies above it.
          have below := total.lt_of_eq_of_lt hk hkey hx ((total.eq_comm hkey hk).mp hit) less
          have above : Above c k (x :: xs) := by
            intro e mem
            rcases mem_cons.mp mem with rfl | mem
            · exact below
            · exact total.trans k x.1 e.1 hk hx (hxs e mem) below (fst e mem)
          rw [find_above total hk keys above]
          simp only [true_and, if_true]
          split <;> simp_all

end Laws

end NobugDb.Misc
