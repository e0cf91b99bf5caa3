import NobugDb.Core.BTreeIndex

/-!
# The shape of a B-tree node

The entries of a tree in the order of its keys (`inorder`), the shape every search relies
on (`WellFormed`: one child more than keys, at every inner node), and what a search finds
at a node: the child it enters lies between entries below the key and entries above it.
-/

namespace NobugDb.Node

open Misc (Sorted KeysIn Below Above TotalOn)
open IndexKey (cmp)

/-- The entries a node holds left of a child: each earlier child, then the key after it. -/
def before (lists : List (List Entry)) (entries : List Entry) : List Entry :=
  (lists.zip entries).flatMap (fun p => p.1 ++ [p.2])

/-- The entries a node holds right of a child: each later key, then the child after it. -/
def after (entries : List Entry) (lists : List (List Entry)) : List Entry :=
  (entries.zip lists).flatMap (fun p => p.1 :: p.2)

/-- The children's entries with the node's own between them. -/
def weave : List (List Entry) → List Entry → List Entry
  | [], entries => entries
  | first :: lists, entries => first ++ after entries lists

/-- All entries of the tree below a node, in key order. -/
def inorder : (h : Nat) → Node (Child h) → List Entry
  | 0, node => node.entries
  | h + 1, node => weave (node.children.map (inorder h)) node.entries

/-- Every inner node has one child more than it has keys. -/
def WellFormed : (h : Nat) → Node (Child h) → Prop
  | 0, _ => True
  | h + 1, node =>
    node.children.length = node.entries.length + 1 ∧ ∀ c ∈ node.children, WellFormed h c

theorem after_cons (e : Entry) (es : List Entry) (c : List Entry) (cs : List (List Entry)) :
    after (e :: es) (c :: cs) = e :: weave (c :: cs) es := by
  simp [after, weave]

variable {es fs : List Entry} {h : Nat}

theorem weave_split {ls rs : List (List Entry)} (c : List Entry) (lengths : ls.length = es.length) :
    weave (ls ++ c :: rs) (es ++ fs) = before ls es ++ c ++ after fs rs := by
  induction ls generalizing es with
  | nil =>
    have : es = [] := by simpa using lengths.symm
    subst this
    simp [weave, before]
  | cons l ls ih =>
    cases es with
    | nil => simp at lengths
    | cons e es =>
      have lengthsTail : ls.length = es.length := by simpa using lengths
      have next := ih lengthsTail
      have step : after (e :: (es ++ fs)) (ls ++ c :: rs) =
          e :: weave (ls ++ c :: rs) (es ++ fs) := by
        cases ls <;> exact after_cons _ _ _ _
      simp only [List.cons_append]
      rw [weave, step, next]
      simp [before]

theorem inorder_split {ls rs : List (Node (Child h))} (c : Node (Child h))
    (lengths : ls.length = es.length) :
    inorder (h + 1) ⟨es ++ fs, ls ++ c :: rs⟩ =
      before (ls.map (inorder h)) es ++ inorder h c ++ after fs (rs.map (inorder h)) := by
  simp only [inorder, List.map_append, List.map_cons]
  exact weave_split _ (by simpa using lengths)

theorem exists_split {α : Type} {l : List α} {i : Nat} (le : i ≤ l.length) :
    ∃ es fs, l = es ++ fs ∧ es.length = i :=
  ⟨l.take i, l.drop i, (List.take_append_drop i l).symm, by simp [le]⟩

theorem WellFormed.split {node : Node (Child (h + 1))} (wf : WellFormed (h + 1) node)
    (cut : node.entries = es ++ fs) :
    ∃ ls c rs, node = ⟨es ++ fs, ls ++ c :: rs⟩ ∧ ls.length = es.length ∧
      rs.length = fs.length := by
  obtain ⟨entries, kids⟩ := node
  simp only at cut
  subst cut
  have lengths := wf.1
  simp only [List.length_append] at lengths
  obtain ⟨ls, rest, rfl, fst⟩ := exists_split (l := kids) (i := es.length) (by omega)
  cases rest with
  | nil => simp at lengths; omega
  | cons c rs =>
    refine ⟨ls, c, rs, rfl, fst, ?_⟩
    simp only [List.length_append, List.length_cons] at lengths
    omega

theorem wellFormed_mk {ls rs : List (Node (Child h))} {c : Node (Child h)}
    (left : ls.length = es.length) (right : rs.length = fs.length) :
    WellFormed (h + 1) ⟨es ++ fs, ls ++ c :: rs⟩ ↔
      (∀ x ∈ ls, WellFormed h x) ∧ WellFormed h c ∧ (∀ x ∈ rs, WellFormed h x) := by
  simp only [WellFormed, List.length_append, List.length_cons, List.mem_append, List.mem_cons]
  constructor
  · rintro ⟨-, all⟩
    exact ⟨fun x m => all x (.inl m), all c (.inr (.inl rfl)), fun x m => all x (.inr (.inr m))⟩
  · rintro ⟨hl, hc, hr⟩
    refine ⟨by omega, ?_⟩
    rintro x (mem | rfl | mem)
    · exact hl x mem
    · exact hc
    · exact hr x mem

/-! ## The scan for a key's place -/

/-- Where the scan stops: all keys passed are below the key, the next one is not. -/
theorem position_split (entries : List Entry) (key : IndexKey) :
    ∃ es fs, entries = es ++ fs ∧ es.length = position entries key ∧
      (∀ e ∈ es, e.1.lt key = true) ∧ (∀ e ∈ fs.head?, e.1.lt key = false) := by
  refine ⟨entries.takeWhile (fun e => e.1.lt key), entries.dropWhile (fun e => e.1.lt key),
    List.takeWhile_append_dropWhile.symm, rfl, ?_, ?_⟩
  · intro e mem
    exact List.mem_takeWhile_imp (p := fun e : Entry => e.1.lt key) mem
  · intro e mem
    have := List.head?_dropWhile_not (fun e : Entry => e.1.lt key) entries
    rw [Option.mem_def] at mem
    simpa [mem] using this

theorem hit_append (es fs : List Entry) (key : IndexKey) :
    hit (es ++ fs) es.length key = (fs.head?).any (fun e => e.1.eq key) := by
  cases fs <;> simp [hit]

section Order

variable {S : IndexKey → Prop} {key : IndexKey}

variable (total : TotalOn cmp S)
include total

/-- What lies left of the child a search enters is below the key. -/
theorem before_below (hkey : S key)
    {ls : List (List Entry)} {es : List Entry} (lengths : ls.length = es.length)
    (keys : KeysIn S (before ls es)) (sorted : Sorted cmp (before ls es))
    (less : ∀ e ∈ es, e.1.lt key = true) : Below cmp key (before ls es) := by
  induction ls generalizing es with
  | nil => simp [before, Below]
  | cons l ls ih =>
    cases es with
    | nil => simp at lengths
    | cons e es =>
      have shape : before (l :: ls) (e :: es) = l ++ e :: before ls es := by
        simp [before]
      rw [shape] at keys sorted ⊢
      have fst := less e (by simp)
      have left := sorted.below_of_le total hkey keys (.inl fst)
      have right := ih (by simpa using lengths) (fun x m => keys x (by simp [m]))
        (List.pairwise_cons.mp (Sorted.append.mp sorted).2.1).2
        (fun x m => less x (by simp [m]))
      intro x mem
      rcases List.mem_append.mp mem with mem | mem
      · exact left x mem
      · rcases List.mem_cons.mp mem with rfl | mem
        · exact fst
        · exact right x mem

/-- What lies right of the child a search enters is above the key, when the next key is. -/
theorem after_above (hkey : S key) {fs : List Entry}
    {rs : List (List Entry)} (keys : KeysIn S (after fs rs))
    (sorted : Sorted cmp (after fs rs)) (greater : ∀ e ∈ fs.head?, key.lt e.1 = true) :
    Above cmp key (after fs rs) := by
  match fs, rs with
  | [], _ => simp [after, Above]
  | _ :: _, [] => simp [after, Above]
  | f :: fs, r :: rs =>
    rw [after_cons] at keys sorted ⊢
    have fst := greater f (by simp)
    have rest := Sorted.above_of_ge (l := []) total hkey keys sorted (.inl fst)
    intro x mem
    rcases List.mem_cons.mp mem with rfl | mem
    · exact fst
    · exact rest x mem

theorem greater_of_miss (hkey : S key) {fs : List Entry}
    (keys : ∀ e ∈ fs.head?, S e.1) (notLess : ∀ e ∈ fs.head?, e.1.lt key = false)
    (miss : (fs.head?).any (fun e => e.1.eq key) = false) : ∀ e ∈ fs.head?, key.lt e.1 = true := by
  intro e mem
  have differ : e.1.eq key = false := by
    rw [Option.mem_def] at mem
    simpa [mem] using miss
  exact total.lt_of_not (keys e mem) hkey (notLess e mem) differ

end Order

end NobugDb.Node
