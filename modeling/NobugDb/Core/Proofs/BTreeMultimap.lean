import NobugDb.Core.Proofs.BTreeRefines
import NobugDb.Misc.Run

/-!
# `BTreeIndex` as a multimap

Whole runs of `insert`, `remove` and `clear` on an index, compared with the multimap from
keys to row positions that the index is to be. The two agree for as long as no `remove`
empties a key held by an inner node.
-/

namespace NobugDb.BTreeIndex

open Misc (TotalOn Meets run)
open Node (Ordered WellFormed inorder)
open IndexKey (cmp)

/-- The calls that change an index. -/
inductive Op where
  | insert (key : IndexKey) (row : Nat)
  | remove (key : IndexKey) (row : Nat)
  | clear

def step (index : BTreeIndex) : Op → BTreeIndex
  | .insert key row => index.insert key row
  | .remove key row => index.remove key row
  | .clear => index.clear

/-- What the index is for: the rows inserted under each key and not removed since. -/
def multimapStep (rows : IndexKey → List Nat) : Op → IndexKey → List Nat
  | .insert key row => fun k => if key.eq k then rows k ++ [row] else rows k
  | .remove key row => fun k => if key.eq k then (rows k).filter (· ≠ row) else rows k
  | .clear => fun _ => []

def Op.KeyIn (S : IndexKey → Prop) : Op → Prop
  | .insert key _ => S key
  | .remove key _ => S key
  | .clear => True

/-- The call is not a `remove` that takes the last row from a key of an inner node. -/
def sparesInner (index : BTreeIndex) : Op → Bool
  | .remove key row =>
    match index with
    | null => true
    | root h node => !Node.erasesInner key row h node
  | _ => true

def contents : BTreeIndex → List Entry
  | null => []
  | root h node => inorder h node

/-- The tree under the root has the shape that searches rely on. -/
def Shaped : BTreeIndex → Prop
  | null => True
  | root h node => WellFormed h node

variable {S : IndexKey → Prop} {key : IndexKey}

theorem not_ignored (plain : key.indexable = true) : (key.hasNull || key.isEmpty) = false := by
  simpa [IndexKey.indexable] using plain

variable {index : BTreeIndex}

theorem insert_refines (total : TotalOn cmp S) (hkey : S key) (plain : key.indexable = true)
    (row : Nat) (shaped : Shaped index) (ord : Ordered S index.contents) :
    Shaped (index.insert key row) ∧
      (index.insert key row).contents =
        Misc.insert cmp key row index.contents := by
  simp only [insert, not_ignored plain, Bool.false_eq_true, if_false]
  cases index with
  | null => exact Node.insertNonFull_refines total hkey row 0 ⟨[], []⟩ trivial ord
  | root h node =>
    change WellFormed h node at shaped
    change Ordered S (inorder h node) at ord
    cases full : node.isFull with
    | false =>
      simp only [full, Bool.false_eq_true, if_false]
      exact Node.insertNonFull_refines total hkey row h node shaped ord
    | true =>
      -- The old root becomes the only child of a new one and is split at once.
      obtain ⟨mid, isMiddle, parts, wfLower, wfUpper⟩ := Node.full_split shaped full
      have grown : Node.splitChild ⟨[], [node]⟩ 0 = ⟨[mid], [node.lower, node.upper]⟩ := by
        simp [Node.splitChild, isMiddle]
      have wf : WellFormed (h + 1) ⟨[mid], [node.lower, node.upper]⟩ := by
        refine ⟨rfl, ?_⟩
        intro c mem
        rcases List.mem_pair.mp mem with rfl | rfl
        · exact wfLower
        · exact wfUpper
      have kept : inorder (h + 1) ⟨[mid], [node.lower, node.upper]⟩ = inorder h node := by
        rw [parts]
        simp [inorder, Node.weave, Node.after]
      simp only [full, if_true, grown]
      have refined := Node.insertNonFull_refines total hkey row (h + 1) _ wf (kept ▸ ord)
      rw [kept] at refined
      exact refined

theorem shrink_contents : ∀ (h : Nat) (node : Node (Child h)), WellFormed h node →
    Shaped (shrink h node) ∧ (shrink h node).contents = inorder h node := by
  intro h node wf
  cases h with
  | zero =>
    obtain ⟨entries, kids⟩ := node
    cases entries with
    | nil | cons e es => exact ⟨trivial, rfl⟩
  | succ h =>
    obtain ⟨entries, kids⟩ := node
    match entries, kids, wf with
    | _ :: _, _, wf => exact ⟨wf, rfl⟩
    | [], [], wf => exact ⟨wf, rfl⟩
    | [], _ :: _ :: _, wf => exact ⟨wf, rfl⟩
    | [], [child], wf =>
      have wfChild : WellFormed h child := wf.2 child (by simp)
      have kept : inorder (h + 1) ⟨[], [child]⟩ = inorder h child := by
        simp [inorder, Node.weave, Node.after]
      rw [kept]
      simp only [shrink]
      split
      case isTrue emptyLeaf =>
        obtain ⟨rfl, none⟩ := emptyLeaf
        refine ⟨trivial, ?_⟩
        simpa [inorder, contents] using (List.isEmpty_iff.mp none).symm
      case isFalse => exact ⟨wfChild, rfl⟩

theorem remove_refines (total : TotalOn cmp S) (hkey : S key) (plain : key.indexable = true)
    (row : Nat) (shaped : Shaped index) (ord : Ordered S index.contents)
    (spares : index.sparesInner (.remove key row) = true) :
    Shaped (index.remove key row) ∧
      (index.remove key row).contents =
        Misc.remove cmp key row index.contents := by
  cases index with
  | null => exact ⟨trivial, rfl⟩
  | root h node =>
    have keeps : Node.erasesInner key row h node = false := by
      simpa [sparesInner] using spares
    obtain ⟨wf, es⟩ :=
      Node.removeFromNode_refines total hkey row h node shaped ord keeps
    obtain ⟨shapedAfter, eq⟩ := shrink_contents h _ wf
    simp only [remove, not_ignored plain, Bool.false_eq_true, if_false]
    exact ⟨shapedAfter, eq.trans es⟩

theorem findEqual_refines (total : TotalOn cmp S) (hkey : S key) (plain : key.indexable = true)
    (shaped : Shaped index) (ord : Ordered S index.contents) :
    index.findEqual key = Misc.find cmp key index.contents := by
  cases index with
  | null => rfl
  | root h node =>
    simp only [findEqual, not_ignored plain, Bool.false_eq_true, if_false]
    exact Node.collectEqual_refines total hkey h node shaped ord

/-- The index is a well-formed search tree over `S` that holds the multimap. -/
structure Represents (S : IndexKey → Prop) (index : BTreeIndex) (rows : IndexKey → List Nat) :
    Prop where
  shaped : Shaped index
  ordered : Ordered S index.contents
  rows_eq : ∀ k, S k → Misc.find IndexKey.cmp k index.contents = rows k

theorem represents_null (S : IndexKey → Prop) : Represents S null (fun _ => []) where
  shaped := trivial
  ordered := ⟨by simp [contents, Misc.KeysIn], List.Pairwise.nil⟩
  rows_eq := fun _ _ => rfl

theorem represents_step (total : TotalOn cmp S) (plain : ∀ k, S k → k.indexable = true)
    {rows : IndexKey → List Nat} {op : Op} (represents : Represents S index rows) (hop : op.KeyIn S)
    (spares : index.sparesInner op = true) :
    Represents S (index.step op) (multimapStep rows op) := by
  obtain ⟨shaped, ord, rowsEq⟩ := represents
  cases op with
  | insert key row =>
    have hkey : S key := hop
    obtain ⟨shapedAfter, es⟩ :=
      insert_refines total hkey (plain key hkey) row shaped ord
    refine ⟨shapedAfter, ?_, ?_⟩
    · simp only [step, es, Misc.insert_eq_alter]
      exact ⟨Misc.keysIn_alter hkey _ ord.keys, Misc.sorted_alter total hkey _ ord.keys ord.sorted⟩
    · intro k hk
      simp only [step, es, multimapStep, Misc.insert_eq_alter]
      rw [Misc.find_alter total hk hkey _ ord.keys ord.sorted, rowsEq k hk]
      rfl
  | remove key row =>
    have hkey : S key := hop
    obtain ⟨shapedAfter, es⟩ :=
      remove_refines total hkey (plain key hkey) row shaped ord spares
    refine ⟨shapedAfter, ?_, ?_⟩
    · simp only [step, es, Misc.remove_eq_alter]
      exact ⟨Misc.keysIn_alter hkey _ ord.keys, Misc.sorted_alter total hkey _ ord.keys ord.sorted⟩
    · intro k hk
      simp only [step, es, multimapStep, Misc.remove_eq_alter]
      rw [Misc.find_alter total hk hkey _ ord.keys ord.sorted, rowsEq k hk]
      rfl
  | clear => exact represents_null S

theorem represents_run (total : TotalOn cmp S)
    (plain : ∀ k, S k → k.indexable = true) {ops : List Op} (keys : ∀ op ∈ ops, op.KeyIn S)
    (meets : Meets step (fun index op => index.sparesInner op = true) null ops) :
    Represents S (run step null ops) (run multimapStep (fun _ => []) ops) := by
  have both := meets.and_forall keys
  refine both.simulation ?_ (represents_null S)
  rintro index rows op represents ⟨spares, hop⟩
  exact represents_step total plain represents hop spares

/-- In every run in which each `remove` spares the keys of inner nodes, `find_equal` returns
    exactly the rows inserted under a key and not removed since, in the order of insertion. -/
theorem findEqual_run (total : TotalOn IndexKey.cmp S) (plain : ∀ k, S k → k.indexable = true)
    (ops : List Op) (keys : ∀ op ∈ ops, op.KeyIn S)
    (meets : Meets step (fun index op => index.sparesInner op = true) null ops) (k : IndexKey)
    (hk : S k) : (run step null ops).findEqual k = run multimapStep (fun _ => []) ops k := by
  have represents := represents_run total plain keys meets
  rw [findEqual_refines total hk (plain k hk) represents.shaped represents.ordered]
  exact represents.rows_eq k hk

/-- Rows `0` to `n - 1` inserted under their own number, then one of them removed. -/
def countThenRemove (n row : Nat) : List Op :=
  (List.range n).map (fun i : Nat => .insert [.int i] i) ++ [.remove [.int row] row]

theorem countThenRemove_isInt (n row : Nat) :
    ∀ op ∈ countThenRemove n row, op.KeyIn IndexKey.IsInt := by
  intro op mem
  simp only [countThenRemove, List.mem_append, List.mem_map, List.mem_singleton] at mem
  rcases mem with ⟨i, -, rfl⟩ | rfl
  · exact ⟨i, rfl⟩
  · exact ⟨row, rfl⟩

theorem findEqual_run_ints :
    (run step null (countThenRemove 64 40)).findEqual [.int 41] =
      run multimapStep (fun _ => []) (countThenRemove 64 40) [.int 41] :=
  findEqual_run IndexKey.totalOn_isInt (fun _ isInt => isInt.indexable) _
    (countThenRemove_isInt 64 40) (by decide +kernel) _ ⟨41, rfl⟩

/-- The 32nd key makes the root an inner node that holds key 15; removing that key's only
    row leaves the root with no key and two children, and the search for 20 enters the
    left one. -/
theorem findEqual_loses_row :
    (∀ op ∈ countThenRemove 32 15, op.KeyIn IndexKey.IsInt) ∧
      (run step null (countThenRemove 32 15)).findEqual [.int 20] = [] ∧
      run multimapStep (fun _ => []) (countThenRemove 32 15) [.int 20] = [20] :=
  ⟨countThenRemove_isInt 32 15, by decide +kernel, by decide +kernel⟩

end NobugDb.BTreeIndex
