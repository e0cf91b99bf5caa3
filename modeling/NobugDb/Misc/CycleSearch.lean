import Mathlib.Data.List.Perm.Subperm
import Mathlib.Logic.Relation

/-!
# Cycles of a relation and the search for them

A relation stays acyclic when edges come in at a node without edges out of it, and when edges come
out of one node and no cycle goes through that node. The depth-first search from a node, which
keeps the nodes of the current path (`visiting`) and those it is done with (`visited`), finds a
cycle exactly when one can be reached from the node.
-/

namespace NobugDb.Misc

open Relation (TransGen ReflTransGen)

section Relations

variable {α : Type} {r s : α → α → Prop} {a b t : α}

def Acyclic (r : α → α → Prop) : Prop := ∀ a, ¬ TransGen r a a

/-- No cycle can be reached from `a`. -/
def Clean (r : α → α → Prop) (a : α) : Prop := ∀ c, ReflTransGen r a c → ¬ TransGen r c c

section

variable (acyclic : Acyclic r)
include acyclic

theorem Acyclic.mono (sub : ∀ a b, s a b → r a b) : Acyclic s :=
  fun a cycle => acyclic a (TransGen.mono sub a a cycle)

/-- Edges into a node without edges out of it close no cycle. -/
theorem Acyclic.of_sink (edges : ∀ a b, s a b → r a b ∨ b = t)
    (sink : ∀ b, ¬ s t b) : Acyclic s := by
  have old {a b : α} (path : TransGen s a b) : (∃ c, s b c) → TransGen r a b := by
    -- A node with an edge out of it is not `t`, so the edge before it is one of `r`.
    have inner {a b : α} (edge : s a b) (goes : ∃ c, s b c) : r a b := by
      obtain here | rfl := edges a b edge
      · exact here
      · obtain ⟨c, out⟩ := goes
        exact absurd out (sink c)
    induction path with
    | single edge => exact fun goes => .single (inner edge goes)
    | tail _ edge ih => exact fun goes => (ih ⟨_, edge⟩).tail (inner edge goes)
  intro a cycle
  have goes : ∃ c, s a c := by
    obtain ⟨c, fst, -⟩ := (TransGen.head'_iff).1 cycle
    exact ⟨c, fst⟩
  exact acyclic a (old cycle goes)

/-- Edges out of one node close no cycle when none goes through that node. -/
theorem Acyclic.of_source (edges : ∀ a b, s a b → r a b ∨ a = t)
    (clear : ¬ TransGen s t t) : Acyclic s := by
  have old {a b : α} (path : TransGen s a b) :
      TransGen r a b ∨ (ReflTransGen s a t ∧ TransGen s t b) := by
    induction path with
    | single edge =>
      obtain here | rfl := edges _ _ edge
      · exact .inl (.single here)
      · exact .inr ⟨.refl, .single edge⟩
    | tail path edge ih =>
      obtain before | ⟨reach, through⟩ := ih
      · obtain here | rfl := edges _ _ edge
        · exact .inl (before.tail here)
        · exact .inr ⟨path.to_reflTransGen, .single edge⟩
      · exact .inr ⟨reach, through.tail edge⟩
  intro a cycle
  obtain before | ⟨reach, through⟩ := old cycle
  · exact acyclic a before
  · exact clear (through.trans_left reach)

theorem Acyclic.clean (a : α) : Clean r a := fun c _ => acyclic c

end

theorem clean_of_successors (later : ∀ b, r a b → Clean r b) : Clean r a := by
  intro c path cycle
  obtain rfl | ⟨b, edge, rest⟩ := path.cases_head
  · obtain ⟨b, edge, rest⟩ := (TransGen.head'_iff).1 cycle
    exact later b edge a rest cycle
  · exact later b edge c rest cycle

theorem Clean.successor (clean : Clean r a) (edge : r a b) : Clean r b :=
  fun c path => clean c (path.head edge)

end Relations

section Search

variable {α : Type} [DecidableEq α] {edges : List (α × α)} {visiting visited : List α} {node : α}

def Edge (edges : List (α × α)) (a b : α) : Prop := (a, b) ∈ edges

omit [DecidableEq α] in
/-- Without a cycle the edges lead from every node to one that has none out of it. -/
theorem exists_end (acyclic : Acyclic (Edge edges)) (a : α) :
    ∃ c, ReflTransGen (Edge edges) a c ∧ ∀ b, ¬ Edge edges c b := by
  classical
  -- From the end of an edge fewer edges can be reached than from its start.
  let reach (a : α) := edges.filter fun e => ReflTransGen (Edge edges) a e.1
  induction size : (reach a).length using Nat.strongRecOn generalizing a with
  | _ n ih =>
    by_cases out : ∃ b, Edge edges a b
    · obtain ⟨b, edge⟩ := out
      have nested : reach b = (reach a).filter fun e => ReflTransGen (Edge edges) b e.1 := by
        rw [List.filter_filter]
        refine List.filter_congr fun e _ => ?_
        simpa using fun path => ReflTransGen.head edge path
      have fewer : (reach b).length < n := by
        rw [nested, ← size, List.length_filter_lt_length_iff_exists]
        refine ⟨(a, b), List.mem_filter.2 ⟨edge, by simpa using ReflTransGen.refl⟩, ?_⟩
        simpa using fun back => acyclic a (.head' edge back)
      obtain ⟨c, path, last⟩ := ih _ fewer b rfl
      exact ⟨c, path.head edge, last⟩
    · exact ⟨a, .refl, not_exists.1 out⟩

/-- The nodes an edge leads to from `node`. -/
def successors (edges : List (α × α)) (node : α) : List α :=
  (edges.filter (fun e => e.1 = node)).map Prod.snd

theorem mem_successors {a b : α} : b ∈ successors edges a ↔ Edge edges a b := by
  simp [successors, Edge]

/-- A search from one node after the other, up to the first that ends at a cycle. -/
def searchAll (search : List α → α → Bool × List α) : List α → List α → Bool × List α
  | visited, [] => (false, visited)
  | visited, next :: rest =>
    match search visited next with
    | (true, visited) => (true, visited)
    | (false, visited) => searchAll search visited rest

/-- The search: whether it ends at a cycle, and the nodes it is done with. `depth` bounds the length
    of a path, which has no repeated node. -/
def dfs (edges : List (α × α)) : (depth : Nat) → (visiting visited : List α) → α → Bool × List α
  | 0, _, visited, _ => (false, visited)
  | depth + 1, visiting, visited, node =>
    if node ∈ visiting then (true, visited)
    else if node ∈ visited then (false, visited)
    else
      match searchAll (dfs edges depth (node :: visiting)) visited (successors edges node) with
      | (true, visited) => (true, visited)
      | (false, visited) => (false, node :: visited)

variable {search : List α → α → Bool × List α} {depth : Nat}

omit [DecidableEq α] in
theorem searchAll_found {nodes : List α} (hit : (searchAll search visited nodes).1 = true) :
    ∃ node ∈ nodes, ∃ visited, (search visited node).1 = true := by
  induction nodes generalizing visited with
  | nil => cases hit
  | cons next rest ih =>
    rw [searchAll] at hit
    split at hit
    · next done here => exact ⟨next, by simp, visited, by rw [here]⟩
    · obtain ⟨node, mem, later⟩ := ih hit
      exact ⟨node, List.mem_cons_of_mem _ mem, later⟩

omit [DecidableEq α] in
theorem searchAll_none {P : List α → Prop} {Q : α → Prop} {nodes : List α}
    (each : ∀ visited, ∀ node ∈ nodes, P visited → (search visited node).1 = false →
      P (search visited node).2 ∧ Q node)
    (start : P visited) (none : (searchAll search visited nodes).1 = false) :
    P (searchAll search visited nodes).2 ∧ ∀ node ∈ nodes, Q node := by
  induction nodes generalizing visited with
  | nil => exact ⟨start, by simp⟩
  | cons next rest ih =>
    rw [searchAll] at none ⊢
    split at none
    · cases none
    · next done here =>
      obtain ⟨kept, shown⟩ := each visited next (by simp) start (by rw [here])
      rw [here] at kept
      obtain ⟨later, others⟩ :=
        ih (fun visited node mem => each visited node (List.mem_cons_of_mem _ mem)) kept none
      refine ⟨later, fun node mem => ?_⟩
      obtain rfl | mem := List.mem_cons.1 mem
      · exact shown
      · exact others node mem

/-- The search ends at a cycle only where there is one: the current path leads to the node. -/
theorem dfs_sound (path : ∀ v ∈ visiting, TransGen (Edge edges) v node)
    (hit : (dfs edges depth visiting visited node).1 = true) : ¬ Clean (Edge edges) node := by
  induction depth generalizing visiting visited node with
  | zero => cases hit
  | succ depth ih =>
    rw [dfs] at hit
    split at hit
    · next again => exact fun clean => clean node .refl (path node again)
    · split at hit
      · cases hit
      · split at hit
        · next done here =>
          obtain ⟨next, mem, visited, later⟩ := searchAll_found (by rw [here])
          have edge : Edge edges node next := mem_successors.1 mem
          refine fun clean => ih ?_ later (clean.successor edge)
          intro v inside
          obtain rfl | inside := List.mem_cons.1 inside
          · exact .single edge
          · exact (path v inside).tail edge
        · cases hit

/-- A search that ends at no cycle leaves none in reach of the nodes it is done with. -/
theorem dfs_complete (nodup : visiting.Nodup)
    (sources : visiting ⊆ edges.map Prod.fst) (enough : edges.length < depth + visiting.length)
    (done : ∀ v ∈ visited, Clean (Edge edges) v)
    (none : (dfs edges depth visiting visited node).1 = false) :
    (∀ v ∈ (dfs edges depth visiting visited node).2, Clean (Edge edges) v) ∧
      Clean (Edge edges) node := by
  induction depth generalizing visiting visited node with
  | zero =>
    -- A path is no longer than the edges it goes along.
    have short := (nodup.subperm sources).length_le
    rw [List.length_map] at short
    omega
  | succ depth ih =>
    rw [dfs] at none ⊢
    split at none
    · cases none
    · next fresh =>
      rw [if_neg fresh]
      split at none
      · next before =>
        rw [if_pos before]
        exact ⟨done, done node before⟩
      · next new =>
        rw [if_neg new]
        split at none
        · cases none
        · next after here =>
          have each : ∀ visited, ∀ next ∈ successors edges node,
              (∀ v ∈ visited, Clean (Edge edges) v) →
              (dfs edges depth (node :: visiting) visited next).1 = false →
              (∀ v ∈ (dfs edges depth (node :: visiting) visited next).2, Clean (Edge edges) v) ∧
                Clean (Edge edges) next := by
            intro visited next mem clean nothing
            have source : node ∈ edges.map Prod.fst :=
              List.mem_map.2 ⟨(node, next), mem_successors.1 mem, rfl⟩
            refine ih (List.nodup_cons.2 ⟨fresh, nodup⟩)
              (List.cons_subset.2 ⟨source, sources⟩) ?_ clean nothing
            rw [List.length_cons]
            omega
          obtain ⟨kept, shown⟩ := searchAll_none each done (by rw [here])
          have clean : Clean (Edge edges) node :=
            clean_of_successors (fun next edge => shown next (mem_successors.2 edge))
          rw [here] at kept
          refine ⟨fun v mem => ?_, clean⟩
          obtain rfl | mem := List.mem_cons.1 mem
          · exact clean
          · exact kept v mem

/-- **The search** finds a cycle exactly when one can be reached. -/
theorem dfs_iff (enough : edges.length < depth) :
    (dfs edges depth [] [] node).1 = true ↔ ¬ Clean (Edge edges) node := by
  constructor
  · exact dfs_sound (by simp)
  · intro cycle
    by_contra none
    have nothing : (dfs edges depth [] [] node).1 = false := by simpa using none
    exact cycle (dfs_complete (by simp) (by simp) (by simpa using enough) (by simp) nothing).2

end Search

end NobugDb.Misc
