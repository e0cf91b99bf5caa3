import NobugDb.Core.IndexKey

/-!
# The B-tree index

`BTreeIndex` (`include/core/btree_index.h`, `src/core/btree_index.cc`) maps index keys to
the positions of the rows that hold them. A node's parallel vectors `keys` and `row_lists`
are one list of entries here. Every leaf is as deep as every other: `split_child` gives the
new node the depth of the old one and only the root grows or shrinks. A node is therefore
typed by its height, a node is a leaf (`is_leaf`) exactly at height 0, and the recursions
of the source are recursions on the height.
-/

namespace NobugDb

/-- `keys[i]` with `row_lists[i]`. -/
abbrev Entry := IndexKey × List Nat

/-- `BTreeIndex::Node` (`btree_index.h:48-53`), over the type of its children. -/
structure Node (C : Type) where
  entries : List Entry
  children : List C

/-- The children of a node of height `h`: a leaf has none. -/
@[reducible] def Child : Nat → Type
  | 0 => Empty
  | h + 1 => Node (Child h)

/-- `BTreeIndex`: `root_` is null or a node of some height. -/
inductive BTreeIndex where
  | null
  | root (h : Nat) (node : Node (Child h))

namespace Node

variable {C : Type}

def kMinDegree : Nat := 16

/-- The scan `while (i < keys.size() && is_less(keys[i], key)) ++i`. -/
def position (entries : List Entry) (key : IndexKey) : Nat :=
  (entries.takeWhile (fun e => e.1.lt key)).length

/-- `i < keys.size() && is_equal(keys[i], key)`. -/
def hit (entries : List Entry) (i : Nat) (key : IndexKey) : Bool :=
  match entries[i]? with
  | some e => e.1.eq key
  | none => false

/-- `row_lists[i].push_back(row_index)`. -/
def pushRow (node : Node C) (i row : Nat) : Node C :=
  { node with entries := node.entries.modify i (fun e => (e.1, e.2 ++ [row])) }

/-- `children[i]->keys.size() == 2 * kMinDegree - 1`. -/
def isFull (node : Node C) : Bool := node.entries.length == 2 * kMinDegree - 1

/-- What `split_child` leaves in the full child. -/
def lower (node : Node C) : Node C :=
  ⟨node.entries.take (kMinDegree - 1), node.children.take kMinDegree⟩

/-- `mid_key` and `mid_rows`. -/
def middle (node : Node C) : Option Entry := node.entries[kMinDegree - 1]?

/-- The `new_child` of `split_child`. -/
def upper (node : Node C) : Node C :=
  ⟨node.entries.drop kMinDegree, node.children.drop kMinDegree⟩

/-- `BTreeIndex::split_child` (`btree_index.cc:48-78`). -/
def splitChild (parent : Node (Node C)) (i : Nat) : Node (Node C) :=
  match parent.children[i]? with
  | none => parent
  | some full =>
    match full.middle with
    | none => parent
    | some mid =>
      { entries := parent.entries.insertIdx i mid
        children := (parent.children.set i full.lower).insertIdx (i + 1) full.upper }

/-- `BTreeIndex::insert_non_full` (`btree_index.cc:80-105`). -/
def insertNonFull (key : IndexKey) (row : Nat) : (h : Nat) → Node (Child h) → Node (Child h)
  | 0, node =>
    let i := position node.entries key
    if hit node.entries i key then node.pushRow i row
    else { node with entries := node.entries.insertIdx i (key, [row]) }
  | h + 1, node =>
    let i := position node.entries key
    let descend (node : Node (Child (h + 1))) (i : Nat) : Node (Child (h + 1)) :=
      { node with children := node.children.modify i (insertNonFull key row h) }
    if hit node.entries i key then node.pushRow i row
    else if (node.children[i]?).any isFull then
      let node := splitChild node i
      match node.entries[i]? with
      | none => descend node i
      | some mid =>
        if mid.1.lt key then descend node (i + 1)
        else if mid.1.eq key then node.pushRow i row
        else descend node i
    else descend node i

/-- The branch of `remove_from_node` at the key itself (`btree_index.cc:134-142`). A key whose
    last row goes is erased from `keys` and `row_lists`, in a leaf and in an inner node alike. -/
def eraseRow (node : Node C) (i row : Nat) : Node C :=
  match node.entries[i]? with
  | none => node
  | some e =>
    let rows := e.2.filter (· ≠ row)
    if rows = [] then { node with entries := node.entries.eraseIdx i }
    else { node with entries := node.entries.set i (e.1, rows) }

/-- `BTreeIndex::remove_from_node` (`btree_index.cc:128-148`); the Boolean it returns is not
    used by its caller. -/
def removeFromNode (key : IndexKey) (row : Nat) : (h : Nat) → Node (Child h) → Node (Child h)
  | 0, node =>
    let i := position node.entries key
    if hit node.entries i key then node.eraseRow i row else node
  | h + 1, node =>
    let i := position node.entries key
    if hit node.entries i key then node.eraseRow i row
    else { node with children := node.children.modify i (removeFromNode key row h) }

/-- `row_lists[i]`. -/
def rowsAt (entries : List Entry) (i : Nat) : List Nat :=
  match entries[i]? with
  | some e => e.2
  | none => []

/-- `BTreeIndex::collect_equal` (`btree_index.cc:168-184`). -/
def collectEqual (key : IndexKey) : (h : Nat) → Node (Child h) → List Nat
  | 0, node =>
    let i := position node.entries key
    if hit node.entries i key then rowsAt node.entries i else []
  | h + 1, node =>
    let i := position node.entries key
    if hit node.entries i key then rowsAt node.entries i
    else
      match node.children[i]? with
      | some child => collectEqual key h child
      | none => []

/-- The loop `collect_prefix` and `collect_range` share: before each key its child is visited;
    the key's rows are taken when `emit` holds of it, and the loop is left when `stop` does.
    `rest` is the visit of `children.back()` that follows the loop. -/
def scan (visit : C → List Nat) (emit stop : IndexKey → Bool) (rest : List Nat) :
    List Entry → List C → List Nat
  | [], _ => rest
  | e :: es, cs =>
    (match cs with | [] => [] | c :: _ => visit c) ++
      (if emit e.1 then e.2 ++ scan visit emit stop rest es cs.tail
       else if stop e.1 then []
       else scan visit emit stop rest es cs.tail)

/-- A node's keys and children in the order both collectors walk them. -/
def collect (emit stop : IndexKey → Bool) : (h : Nat) → Node (Child h) → List Nat
  | 0, node => scan (fun _ => []) emit stop [] node.entries node.children
  | h + 1, node =>
    scan (collect emit stop h) emit stop
      (match node.children.getLast? with | some c => collect emit stop h c | none => [])
      node.entries node.children

end Node

/-- The loop of `collect_prefix` that sets `prefix_exceeded` (`btree_index.cc:213-229`). -/
def prefixExceeded : IndexKey → IndexKey → Bool
  | p :: ps, k :: ks => if p.lt k then true else if k.lt p then false else prefixExceeded ps ks
  | _, _ => false

/-- `BTreeIndex::passes_lower` (`btree_index.cc:13-23`). -/
def passesLower (key : IndexKey) (lower : Option IndexKey) (inclusive : Bool) : Bool :=
  match lower with
  | none => true
  | some low => if inclusive then !key.lt low else low.lt key

/-- `BTreeIndex::passes_upper` (`btree_index.cc:25-35`). -/
def passesUpper (key : IndexKey) (upper : Option IndexKey) (inclusive : Bool) : Bool :=
  match upper with
  | none => true
  | some up => if inclusive then !up.lt key else key.lt up

namespace BTreeIndex

def empty : BTreeIndex → Bool
  | null => true
  | root _ _ => false

def clear (_ : BTreeIndex) : BTreeIndex := null

variable (index : BTreeIndex)

/-- `BTreeIndex::insert` (`btree_index.cc:107-122`); `ensure_root` makes the null root an
    empty leaf. -/
def insert (key : IndexKey) (row : Nat) : BTreeIndex :=
  if key.hasNull || key.isEmpty then index
  else
    match index with
    | null => root 0 (Node.insertNonFull key row 0 ⟨[], []⟩)
    | root h node =>
      if node.isFull then
        let grown : Node (Child (h + 1)) := Node.splitChild ⟨[], [node]⟩ 0
        root (h + 1) (Node.insertNonFull key row (h + 1) grown)
      else root h (Node.insertNonFull key row h node)

/-- The two steps that close `remove` (`btree_index.cc:155-161`). -/
def shrink : (h : Nat) → Node (Child h) → BTreeIndex
  | 0, node => if node.entries.isEmpty then null else root 0 node
  | h + 1, node =>
    match node.entries, node.children with
    | [], [child] => if h = 0 ∧ child.entries.isEmpty then null else root h child
    | _, _ => root (h + 1) node

/-- `BTreeIndex::remove` (`btree_index.cc:150-162`). -/
def remove (key : IndexKey) (row : Nat) : BTreeIndex :=
  match index with
  | null => null
  | root h node =>
    if key.hasNull || key.isEmpty then index
    else shrink h (Node.removeFromNode key row h node)

/-- `BTreeIndex::find_equal` (`btree_index.cc:186-193`). -/
def findEqual (key : IndexKey) : List Nat :=
  match index with
  | null => []
  | root h node => if key.hasNull || key.isEmpty then [] else Node.collectEqual key h node

/-- `BTreeIndex::find_prefix` (`btree_index.cc:238-245`). -/
def findPrefix (pre : IndexKey) : List Nat :=
  match index with
  | null => []
  | root h node =>
    if pre.hasNull || pre.isEmpty then []
    else
      Node.collect (fun key => key.startsWith pre)
        (fun key => pre.lt key && !key.startsWith pre && prefixExceeded pre key) h node

/-- `BTreeIndex::find_range` (`btree_index.cc:275-285`). -/
def findRange (lower : Option IndexKey) (lowerInclusive : Bool) (upper : Option IndexKey)
    (upperInclusive : Bool) : List Nat :=
  match index with
  | null => []
  | root h node =>
    Node.collect
      (fun key => passesLower key lower lowerInclusive && passesUpper key upper upperInclusive)
      (fun key => match upper with | some up => up.lt key | none => false) h node

end BTreeIndex

end NobugDb
