import NobugDb.Core.Proofs.BTreeShape

/-!
# The B-tree refines a sorted multimap

On a well-formed tree each operation of `BTreeIndex` does to the entries in key order what
the sorted multimap's operation of the same name does, and leaves a well-formed tree. The
one exception is a removal that takes the last row from a key of an inner node: the source
erases the key and keeps both children beside it.
-/

namespace NobugDb.Node

open Misc (Sorted KeysIn Below Above TotalOn alter_at binding insert insert_eq_alter
  remove_eq_alter)
open IndexKey (cmp)

section Lists

variable {α : Type}

variable (l r : List α) {i : Nat}

theorem modify_cut (f : α → α) (l r : List α) (x : α) (at_ : l.length = i) :
    (l ++ x :: r).modify i f = l ++ f x :: r := by
  subst at_
  induction l with
  | nil => rfl
  | cons y l ih => simp [ih]

theorem insertIdx_cut (x : α) (at_ : l.length = i) : (l ++ r).insertIdx i x = l ++ x :: r := by
  subst at_
  induction l with
  | nil => cases r <;> rfl
  | cons y l ih => simp [ih]

theorem eraseIdx_cut (x : α) (at_ : l.length = i) : (l ++ x :: r).eraseIdx i = l ++ r := by
  subst at_
  induction l with
  | nil => rfl
  | cons y l ih => simpa using ih

theorem set_cut (x y : α) (at_ : l.length = i) : (l ++ x :: r).set i y = l ++ y :: r := by
  subst at_
  simp

end Lists

variable {S : IndexKey → Prop} {key : IndexKey}

/-- The entries a search may assume of a tree: in order, with keys in `S`. -/
structure Ordered (S : IndexKey → Prop) (l : List Entry) : Prop where
  keys : KeysIn S l
  sorted : Sorted IndexKey.cmp l

theorem Ordered.append {l r : List Entry} (ord : Ordered S (l ++ r)) : Ordered S l ∧ Ordered S r :=
  ⟨⟨(KeysIn.append.mp ord.keys).1, (Sorted.append.mp ord.sorted).1⟩,
   ⟨(KeysIn.append.mp ord.keys).2, (Sorted.append.mp ord.sorted).2.1⟩⟩

variable {h : Nat} {es fs : List Entry} {ls rs : List (Node (Child h))} {c : Node (Child h)}

/-- Where the scan for `key` stops before the entries `fs`: at an entry with the key, or where the
    key comes before all of `later`. -/
def Stops (key : IndexKey) (entries : List Entry) (i : Nat) (fs later : List Entry) : Prop :=
  (hit entries i key = true ∧ ∃ f rest, fs = f :: rest ∧ f.1.eq key = true) ∨
    (hit entries i key = false ∧ Above IndexKey.cmp key later)

theorem stops_of_miss {later : List Entry}
    (above : (fs.head?).any (fun e => e.1.eq key) = false → Above cmp key later) :
    Stops key (es ++ fs) es.length fs later := by
  unfold Stops
  rw [hit_append]
  cases hit : (fs.head?).any (fun e => e.1.eq key) with
  | false => exact .inr ⟨rfl, above hit⟩
  | true =>
    cases fs with
    | nil => simp at hit
    | cons f fs => exact .inl ⟨rfl, f, fs, rfl, by simpa using hit⟩

theorem leaf_cut (total : TotalOn cmp S) (hkey : S key) {entries : List Entry}
    (ord : Ordered S entries) :
    ∃ es fs, entries = es ++ fs ∧ position entries key = es.length ∧
      Below cmp key es ∧ Stops key entries es.length fs fs := by
  obtain ⟨es, fs, cut, at_, less, notLess⟩ := position_split entries key
  refine ⟨es, fs, cut, at_.symm, less, ?_⟩
  rw [cut] at ord ⊢
  refine stops_of_miss (fun miss => ?_)
  have right := ord.append.2
  cases fs with
  | nil => intro e mem; simp at mem
  | cons f fs =>
    have fst : key.lt f.1 = true :=
      greater_of_miss total hkey (by simpa using right.keys f (by simp)) notLess miss f (by simp)
    have rest := Sorted.above_of_ge (l := []) total hkey right.keys right.sorted (.inl fst)
    intro e mem
    rcases List.mem_cons.mp mem with rfl | mem
    · exact fst
    · exact rest e mem

/-- An inner node as the scan for `key` cuts it: `c` is the child a search enters. -/
theorem inner_cut (total : TotalOn cmp S) (hkey : S key) {node : Node (Child (h + 1))}
    (wf : WellFormed (h + 1) node) (ord : Ordered S (inorder (h + 1) node)) :
    ∃ es fs ls c rs, node = ⟨es ++ fs, ls ++ c :: rs⟩ ∧
      ls.length = es.length ∧ rs.length = fs.length ∧ position (es ++ fs) key = es.length ∧
      Below cmp key (before (ls.map (inorder h)) es) ∧
      Stops key (es ++ fs) es.length fs (after fs (rs.map (inorder h))) := by
  obtain ⟨es, fs, cut, at_, less, notLess⟩ := position_split node.entries key
  obtain ⟨ls, c, rs, rfl, left, right⟩ := wf.split cut
  rw [inorder_split c left] at ord
  obtain ⟨outer, afterOrdered⟩ := ord.append
  obtain ⟨beforeOrdered, -⟩ := outer.append
  refine ⟨es, fs, ls, c, rs, rfl, left, right, at_.symm, ?_, stops_of_miss (fun miss => ?_)⟩
  · exact before_below total hkey (by simpa using left) beforeOrdered.keys
      beforeOrdered.sorted less
  · refine after_above total hkey afterOrdered.keys afterOrdered.sorted ?_
    refine greater_of_miss total hkey ?_ notLess miss
    intro e mem
    cases fs with
    | nil => simp at mem
    | cons f fs =>
      simp only [List.head?_cons, Option.mem_some_iff] at mem
      subst mem
      cases rs with
      | nil => simp at right
      | cons r rs => exact afterOrdered.keys f (by simp [after])

/-! ## Splitting a full child -/

theorem full_split {node : Node (Child h)} (wf : WellFormed h node) (full : node.isFull = true) :
    ∃ mid, node.middle = some mid ∧
      inorder h node = inorder h node.lower ++ mid :: inorder h node.upper ∧
      WellFormed h node.lower ∧ WellFormed h node.upper := by
  have size : node.entries.length = 31 := by simpa [isFull, kMinDegree] using full
  obtain ⟨es, rest, cut, fst⟩ := exists_split (l := node.entries) (i := 15) (by omega)
  cases rest with
  | nil => rw [cut] at size; simp at size; omega
  | cons mid fs =>
    have middleEq : node.middle = some mid := by
      simp [middle, kMinDegree, cut, ← fst]
    have lowerEntries : node.entries.take 15 = es := by simp [cut, ← fst]
    have upperEntries : node.entries.drop 16 = fs := by
      rw [cut, show 16 = es.length + 1 by omega]
      simp
    refine ⟨mid, middleEq, ?_⟩
    cases h with
    | zero =>
      refine ⟨?_, trivial, trivial⟩
      simp only [inorder, lower, upper, kMinDegree, Nat.reduceSub, lowerEntries, upperEntries]
      exact cut
    | succ h =>
      obtain ⟨ls, c, rs, rfl, left, right⟩ := wf.split cut
      cases rs with
      | nil => simp at right
      | cons r rs =>
        obtain ⟨wfLeft, wfChild, wfRight⟩ := (wellFormed_mk left right).mp wf
        have sixteen : 16 = (ls ++ [c]).length := by simp; omega
        have regroup : ls ++ c :: r :: rs = (ls ++ [c]) ++ (r :: rs) := by simp
        have lowerEq : lower ⟨es ++ mid :: fs, ls ++ c :: r :: rs⟩ = ⟨es ++ [], ls ++ c :: []⟩ := by
          simp only at lowerEntries
          simp only [lower, kMinDegree, Nat.reduceSub, lowerEntries, List.append_nil]
          rw [regroup, sixteen, List.take_left]
        have upperEq : upper ⟨es ++ mid :: fs, ls ++ c :: r :: rs⟩ = ⟨[] ++ fs, [] ++ r :: rs⟩ := by
          simp only at upperEntries
          simp only [upper, kMinDegree, upperEntries, List.nil_append]
          rw [regroup, sixteen, List.drop_left]
        rw [lowerEq, upperEq, inorder_split c left, inorder_split c left, inorder_split r (by rfl)]
        refine ⟨?_, ?_, ?_⟩
        · simp [after, before]
        · exact (wellFormed_mk left rfl).mpr ⟨wfLeft, wfChild, by simp⟩
        · refine (wellFormed_mk rfl (by simpa using right)).mpr ⟨by simp, ?_, ?_⟩
          · exact wfRight r (by simp)
          · exact fun x mem => wfRight x (by simp [mem])

theorem splitChild_cut {mid : Entry} (left : ls.length = es.length) (isMiddle : c.middle = some mid) :
    splitChild ⟨es ++ fs, ls ++ c :: rs⟩ es.length =
      ⟨es ++ mid :: fs, ls ++ c.lower :: c.upper :: rs⟩ := by
  have hit : (ls ++ c :: rs)[es.length]? = some c := by simp [← left]
  simp only [splitChild, hit, isMiddle]
  rw [insertIdx_cut es fs mid rfl, set_cut ls rs c c.lower left,
    show ls ++ c.lower :: rs = (ls ++ [c.lower]) ++ rs by simp,
    insertIdx_cut (ls ++ [c.lower]) rs c.upper (by simp [left])]
  simp

/-! ## Insertion -/

theorem inorder_enter {c' : Node (Child h)} {op : List Entry → List Entry}
    (left : ls.length = es.length) (isIn : inorder h c' = op (inorder h c))
    (passes : op (before (ls.map (inorder h)) es ++ inorder h c ++
        after fs (rs.map (inorder h))) =
      before (ls.map (inorder h)) es ++ op (inorder h c) ++ after fs (rs.map (inorder h))) :
    inorder (h + 1) ⟨es ++ fs, ls ++ c' :: rs⟩ =
      op (inorder (h + 1) ⟨es ++ fs, ls ++ c :: rs⟩) := by
  rw [inorder_split c' left, inorder_split c left, isIn, passes]

theorem inorder_entry (fs : List Entry) (c : Node (Child h)) (left : ls.length = es.length)
    (right : rs.length = fs.length + 1) :
    ∃ l r, ∀ f, inorder (h + 1) ⟨es ++ f :: fs, ls ++ c :: rs⟩ = l ++ f :: r := by
  cases rs with
  | nil => simp at right
  | cons r rs =>
    refine ⟨before (ls.map (inorder h)) es ++ inorder h c,
      weave ((r :: rs).map (inorder h)) fs, fun f => ?_⟩
    rw [inorder_split c left, List.map_cons, after_cons]

/-- The key is held at this inner node: `push_back` on its rows. -/
theorem pushRow_refines (total : TotalOn cmp S) (hkey : S key) (row : Nat) {f : Entry}
    (wf : WellFormed (h + 1) ⟨es ++ f :: fs, ls ++ c :: rs⟩) (left : ls.length = es.length)
    (right : rs.length = fs.length + 1)
    (ord : Ordered S (inorder (h + 1) ⟨es ++ f :: fs, ls ++ c :: rs⟩)) (same : f.1.eq key = true) :
    let node : Node (Child (h + 1)) := ⟨es ++ f :: fs, ls ++ c :: rs⟩
    WellFormed (h + 1) (node.pushRow es.length row) ∧
      inorder (h + 1) (node.pushRow es.length row) =
        insert cmp key row (inorder (h + 1) node) := by
  obtain ⟨l, r, shape⟩ := inorder_entry fs c left right
  have pushed : pushRow (C := Node (Child h)) ⟨es ++ f :: fs, ls ++ c :: rs⟩ es.length row =
      ⟨es ++ (f.1, f.2 ++ [row]) :: fs, ls ++ c :: rs⟩ := by
    simp only [pushRow]
    rw [modify_cut _ es fs f rfl]
  simp only [pushed]
  refine ⟨?_, ?_⟩
  · exact (wellFormed_mk left (by simpa using right)).mpr
      ((wellFormed_mk left (by simpa using right)).mp wf)
  · rw [shape] at ord ⊢
    rw [shape]
    have hf : S f.1 := ord.keys f (by simp)
    have below := ord.sorted.below_of_le total hkey ord.keys (.inr same)
    rw [insert_eq_alter, alter_at total hkey _ hf below same]
    simp [binding]

/-- `insert_non_full` on nodes of height `h`. -/
def InsertRefines (S : IndexKey → Prop) (key : IndexKey) (row h : Nat) : Prop :=
  ∀ node : Node (Child h), WellFormed h node → Ordered S (inorder h node) →
    WellFormed h (insertNonFull key row h node) ∧
      inorder h (insertNonFull key row h node) = Misc.insert IndexKey.cmp key row (inorder h node)

section

variable (total : TotalOn cmp S) (hkey : S key)
include total hkey

/-- The key belongs below child `c`: the search goes on there. -/
theorem insert_enter (row : Nat)
    (wf : WellFormed (h + 1) ⟨es ++ fs, ls ++ c :: rs⟩) (left : ls.length = es.length)
    (right : rs.length = fs.length) (ord : Ordered S (inorder (h + 1) ⟨es ++ fs, ls ++ c :: rs⟩))
    (below : Below cmp key (before (ls.map (inorder h)) es))
    (above : Above cmp key (after fs (rs.map (inorder h))))
    (ih : InsertRefines S key row h) : let entered : Node (Child (h + 1)) :=
      ⟨es ++ fs, (ls ++ c :: rs).modify es.length (insertNonFull key row h)⟩
    WellFormed (h + 1) entered ∧ inorder (h + 1) entered =
        insert cmp key row (inorder (h + 1) ⟨es ++ fs, ls ++ c :: rs⟩) := by
  obtain ⟨wfLeft, wfChild, wfRight⟩ := (wellFormed_mk left right).mp wf
  rw [inorder_split c left] at ord
  obtain ⟨wfNew, entries⟩ := ih c wfChild ord.append.1.append.2
  simp only [modify_cut (insertNonFull key row h) ls rs c left]
  refine ⟨(wellFormed_mk left right).mpr ⟨wfLeft, wfNew, wfRight⟩, ?_⟩
  refine inorder_enter left entries ?_
  simp only [insert_eq_alter]
  rw [Misc.alter_append_above total hkey _ ord.append.2.keys above, Misc.alter_append_below _ below]

/-- The full child has been split around `mid`; the key's place is found again. -/
theorem insert_split (row : Nat) {low up : Node (Child h)} {mid : Entry}
    (wf : WellFormed (h + 1) ⟨es ++ mid :: fs, ls ++ low :: up :: rs⟩) (left : ls.length = es.length)
    (right : rs.length = fs.length)
    (ordered : Ordered S (inorder (h + 1) ⟨es ++ mid :: fs, ls ++ low :: up :: rs⟩))
    (below : Below cmp key (before (ls.map (inorder h)) es))
    (above : Above cmp key (after fs (rs.map (inorder h)))) (ih : InsertRefines S key row h) :
    let node : Node (Child (h + 1)) := ⟨es ++ mid :: fs, ls ++ low :: up :: rs⟩
    let result : Node (Child (h + 1)) :=
      if mid.1.lt key then
        ⟨node.entries, node.children.modify (es.length + 1) (insertNonFull key row h)⟩
      else if mid.1.eq key then node.pushRow es.length row
      else ⟨node.entries, node.children.modify es.length (insertNonFull key row h)⟩
    WellFormed (h + 1) result ∧
      inorder (h + 1) result = insert cmp key row (inorder (h + 1) node) := by
  obtain ⟨l, r, shape⟩ := inorder_entry fs low left (show (up :: rs).length = fs.length + 1 by simp [right])
  have hmid : S mid.1 := by
    rw [shape] at ordered
    exact ordered.keys mid (by simp)
  cases less : mid.1.lt key with
  | true =>
    simp only [if_true]
    have entriesEq : es ++ mid :: fs = (es ++ [mid]) ++ fs := by simp
    have childrenEq : ls ++ low :: up :: rs = (ls ++ [low]) ++ up :: rs := by simp
    have lengths : (ls ++ [low]).length = (es ++ [mid]).length := by simp [left]
    have lower : Below cmp key (before ((ls ++ [low]).map (inorder h)) (es ++ [mid])) := by
      rw [entriesEq, childrenEq, inorder_split up lengths] at ordered
      have fst := ordered.append.1.append.1
      refine before_below total hkey (by simpa using left) fst.keys fst.sorted ?_
      intro e mem
      rcases List.mem_append.mp mem with mem | mem
      · obtain ⟨i, bound, rfl⟩ := List.mem_iff_getElem.mp mem
        refine below es[i] ?_
        have inZip : ((ls.map (inorder h)).get ⟨i, by simpa [left] using bound⟩, es[i]) ∈
            (ls.map (inorder h)).zip es :=
          List.mem_iff_getElem.mpr ⟨i, by simpa [left] using bound, by simp⟩
        exact List.mem_flatMap.mpr ⟨_, inZip, by simp⟩
      · simp only [List.mem_singleton] at mem
        subst mem
        exact less
    have place : es.length + 1 = (es ++ [mid]).length := by simp
    rw [entriesEq, childrenEq] at wf ordered ⊢
    rw [place]
    exact insert_enter total hkey row wf lengths right ordered lower above ih
  | false =>
    simp only [Bool.false_eq_true, if_false]
    cases same : mid.1.eq key with
    | true =>
      simp only [if_true]
      exact pushRow_refines total hkey row wf left (by simp [right]) ordered same
    | false =>
      simp only [Bool.false_eq_true, if_false]
      refine insert_enter total hkey row wf left (by simp [right]) ordered below ?_ ih
      rw [inorder_split low left] at ordered
      refine after_above total hkey ordered.append.2.keys ordered.append.2.sorted ?_
      intro e mem
      simp only [List.head?_cons, Option.mem_some_iff] at mem
      subst mem
      exact total.lt_of_not hmid hkey less same

theorem insertNonFull_refines (row h : Nat) : InsertRefines S key row h := by
  induction h with
  | zero =>
    intro node _ ord
    refine ⟨trivial, ?_⟩
    change Ordered S node.entries at ord
    obtain ⟨es, fs, cut, at_, below, stops⟩ := leaf_cut total hkey ord
    rw [cut] at ord
    obtain ⟨isHit, f, fs, rfl, eq⟩ | ⟨isHit, above⟩ := stops
    · simp only [inorder, insertNonFull, at_, isHit, if_true]
      rw [pushRow, cut, modify_cut _ es fs f rfl]
      rw [insert_eq_alter, alter_at total hkey _ (ord.keys f (by simp)) below eq]
      simp [binding]
    · simp only [inorder, insertNonFull, at_, isHit, Bool.false_eq_true, if_false]
      rw [cut, insertIdx_cut es fs _ rfl]
      rw [insert_eq_alter, Misc.alter_between total hkey _ below ord.append.2.keys above]
      rfl
  | succ h ih =>
    intro node wf ord
    obtain ⟨es, fs, ls, c, rs, rfl, left, right, at_, below, stops⟩ :=
      inner_cut total hkey wf ord
    obtain ⟨isHit, f, fs, rfl, eq⟩ | ⟨isHit, above⟩ := stops
    · simp only [insertNonFull, at_, isHit, if_true]
      exact pushRow_refines total hkey row wf left right ord eq
    · have child : (ls ++ c :: rs)[es.length]? = some c := by simp [← left]
      simp only [insertNonFull, at_, isHit, Bool.false_eq_true, if_false, child, Option.any_some]
      cases full : c.isFull with
      | false =>
        simp only [Bool.false_eq_true, if_false]
        exact insert_enter total hkey row wf left right ord below above ih
      | true =>
        obtain ⟨wfLeft, wfChild, wfRight⟩ := (wellFormed_mk left right).mp wf
        obtain ⟨mid, isMiddle, parts, wfLower, wfUpper⟩ := full_split wfChild full
        have kept : inorder (h + 1) ⟨es ++ fs, ls ++ c :: rs⟩ =
            inorder (h + 1) ⟨es ++ mid :: fs, ls ++ c.lower :: c.upper :: rs⟩ := by
          rw [inorder_split c left, inorder_split c.lower left, parts]
          simp [after]
        have wfSplit : WellFormed (h + 1) ⟨es ++ mid :: fs, ls ++ c.lower :: c.upper :: rs⟩ := by
          refine (wellFormed_mk left (by simp [right])).mpr ⟨wfLeft, wfLower, ?_⟩
          intro x mem
          rcases List.mem_cons.mp mem with rfl | mem
          · exact wfUpper
          · exact wfRight x mem
        have middleAt : (es ++ mid :: fs)[es.length]? = some mid := by simp
        simp only [if_true, splitChild_cut left isMiddle, middleAt]
        rw [kept] at ord ⊢
        exact insert_split total hkey row wfSplit left right ord below above ih

/-! ## Lookup -/

theorem collectEqual_refines :
    ∀ (h : Nat) (node : Node (Child h)), WellFormed h node → Ordered S (inorder h node) →
      collectEqual key h node = Misc.find cmp key (inorder h node) := by
  intro h
  induction h with
  | zero =>
    intro node _ ord
    change Ordered S node.entries at ord
    obtain ⟨es, fs, cut, at_, below, stops⟩ := leaf_cut total hkey ord
    simp only [inorder, collectEqual, at_]
    rw [cut] at ord stops ⊢
    rw [Misc.find_append_below total hkey ord.append.1.keys below]
    obtain ⟨isHit, f, fs, rfl, eq⟩ | ⟨isHit, above⟩ := stops
    · simp [isHit, rowsAt, Misc.find, eq]
    · simp [isHit, Misc.find_above total hkey ord.append.2.keys above]
  | succ h ih =>
    intro node wf ord
    obtain ⟨es, fs, ls, c, rs, rfl, left, right, at_, below, stops⟩ :=
      inner_cut total hkey wf ord
    simp only [collectEqual, at_]
    obtain ⟨isHit, f, fs, rfl, eq⟩ | ⟨isHit, above⟩ := stops
    · obtain ⟨l, r, shape⟩ := inorder_entry fs c left right
      rw [shape] at ord ⊢
      have belowAll := ord.sorted.below_of_le total hkey ord.keys (.inr eq)
      rw [Misc.find_append_below total hkey ord.append.1.keys belowAll]
      simp [isHit, rowsAt, Misc.find, eq]
    · have child : (ls ++ c :: rs)[es.length]? = some c := by simp [← left]
      obtain ⟨-, wfChild, -⟩ := (wellFormed_mk left right).mp wf
      rw [inorder_split c left] at ord ⊢
      obtain ⟨outer, afterOrdered⟩ := ord.append
      simp only [isHit, Bool.false_eq_true, if_false, child]
      rw [Misc.find_append_above total hkey afterOrdered.keys above,
        Misc.find_append_below total hkey outer.append.1.keys below]
      exact ih c wfChild outer.append.2

end

/-! ## Removal -/

/-- The removal takes the last row from a key that an inner node holds. -/
def erasesInner (key : IndexKey) (row : Nat) : (h : Nat) → Node (Child h) → Bool
  | 0, _ => false
  | h + 1, node =>
    let i := position node.entries key
    if hit node.entries i key then (rowsAt node.entries i).filter (· ≠ row) == []
    else
      match node.children[i]? with
      | some child => erasesInner key row h child
      | none => false

theorem eraseRow_cut {C : Type} (row : Nat) (es fs : List Entry) (f : Entry)
    (kids : List C) :
    eraseRow ⟨es ++ f :: fs, kids⟩ es.length row =
      if f.2.filter (· ≠ row) = [] then ⟨es ++ fs, kids⟩
      else ⟨es ++ (f.1, f.2.filter (· ≠ row)) :: fs, kids⟩ := by
  have hit : (es ++ f :: fs)[es.length]? = some f := by simp
  simp only [eraseRow, hit]
  rw [eraseIdx_cut es fs f rfl, set_cut es fs f _ rfl]

theorem removeFromNode_refines (total : TotalOn cmp S) (hkey : S key) (row : Nat) :
    ∀ (h : Nat) (node : Node (Child h)), WellFormed h node → Ordered S (inorder h node) →
      erasesInner key row h node = false →
      WellFormed h (removeFromNode key row h node) ∧
        inorder h (removeFromNode key row h node) =
          Misc.remove cmp key row (inorder h node) := by
  intro h
  induction h with
  | zero =>
    intro node _ ord _
    refine ⟨trivial, ?_⟩
    change Ordered S node.entries at ord
    obtain ⟨es, fs, cut, at_, below, stops⟩ := leaf_cut total hkey ord
    obtain ⟨entries, kids⟩ := node
    simp only at cut at_ stops ord
    simp only [inorder, removeFromNode, at_]
    rw [cut] at ord stops ⊢
    obtain ⟨isHit, f, fs, rfl, eq⟩ | ⟨isHit, above⟩ := stops
    · simp only [isHit, if_true]
      rw [eraseRow_cut, remove_eq_alter,
        alter_at total hkey _ (ord.keys f (by simp)) below eq, binding]
      split <;> rfl
    · simp only [isHit, Bool.false_eq_true, if_false]
      rw [remove_eq_alter, Misc.alter_between total hkey _ below ord.append.2.keys above]
      rfl
  | succ h ih =>
    intro node wf ord keeps
    obtain ⟨es, fs, ls, c, rs, rfl, left, right, at_, below, stops⟩ :=
      inner_cut total hkey wf ord
    simp only [erasesInner, at_] at keeps
    simp only [removeFromNode, at_]
    obtain ⟨isHit, f, fs, rfl, eq⟩ | ⟨isHit, above⟩ := stops
    · have left_ : f.2.filter (· ≠ row) ≠ [] := by simpa [isHit, rowsAt] using keeps
      simp only [isHit, if_true]
      rw [eraseRow_cut, if_neg left_]
      obtain ⟨l, r, shape⟩ := inorder_entry fs c left right
      refine ⟨?_, ?_⟩
      · exact (wellFormed_mk left (by simpa using right)).mpr
          ((wellFormed_mk left (by simpa using right)).mp wf)
      · rw [shape] at ord ⊢
        rw [shape]
        have hf : S f.1 := ord.keys f (by simp)
        have belowAll := ord.sorted.below_of_le total hkey ord.keys (.inr eq)
        rw [remove_eq_alter, alter_at total hkey _ hf belowAll eq, binding,
          if_neg left_]
        rfl
    · have child : (ls ++ c :: rs)[es.length]? = some c := by simp [← left]
      obtain ⟨wfLeft, wfChild, wfRight⟩ := (wellFormed_mk left right).mp wf
      simp only [isHit, Bool.false_eq_true, if_false, child] at keeps ⊢
      rw [inorder_split c left] at ord
      obtain ⟨wfNew, entries⟩ := ih c wfChild ord.append.1.append.2 keeps
      rw [modify_cut (removeFromNode key row h) ls rs c left]
      refine ⟨(wellFormed_mk left right).mpr ⟨wfLeft, wfNew, wfRight⟩, ?_⟩
      refine inorder_enter left entries ?_
      simp only [remove_eq_alter]
      rw [Misc.alter_append_above total hkey _ ord.append.2.keys above,
        Misc.alter_append_below _ below]

end NobugDb.Node
