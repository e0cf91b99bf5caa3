import NobugDb.Misc.AssocMap

/-!
# Directory trees

The files and directories below a root, each under its path from the root. Every entry stands in a
directory of the tree, and a path is that of one entry. Operations are partial: a file is not
written over a directory, nor a directory made where a file is.
-/

namespace NobugDb.Misc

/-- What stands at a path. -/
inductive Node (Content : Type) where
  | file (content : Content)
  | directory
  deriving DecidableEq

/-- The entries below a directory. -/
structure Tree (Name Content : Type) where
  entries : List (List Name × Node Content)
  distinct : (entries.map Prod.fst).Nodup
  closed : ∀ path ∈ entries.map Prod.fst,
    path ≠ [] ∧ (path.dropLast = [] ∨ (path.dropLast, Node.directory) ∈ entries)

namespace Tree

variable {Name Content : Type}

def empty : Tree Name Content where
  entries := []
  distinct := List.nodup_nil
  closed := by simp

variable [DecidableEq Name] {t t' : Tree Name Content} {path : List Name} {cont : Content}

/-- What stands at a path below the root. -/
def node? (t : Tree Name Content) (path : List Name) : Option (Node Content) :=
  t.entries.lookup path

def file? (t : Tree Name Content) (path : List Name) : Option Content :=
  match t.node? path with
  | some (.file content) => some content
  | _ => none

/-- A path that is to hold an entry: not the root, and in a directory. -/
def HasRoom (t : Tree Name Content) (path : List Name) : Prop :=
  path ≠ [] ∧ (path.dropLast = [] ∨ (path.dropLast, Node.directory) ∈ t.entries)

theorem fresh_notMem (fresh : t.node? path = none) :
    path ∉ t.entries.map Prod.fst := by
  intro mem
  obtain ⟨e, among, rfl⟩ := List.mem_map.mp mem
  have hit : t.entries.lookup e.1 = some e.2 := (lookup_eq_some_iff_mem t.distinct).mpr among
  exact nomatch fresh.symm.trans hit

/-- One more entry, at a path with none. -/
def add (t : Tree Name Content) (path : List Name) (node : Node Content)
    (fresh : t.node? path = none) (room : t.HasRoom path) : Tree Name Content where
  entries := t.entries ++ [(path, node)]
  distinct := by
    rw [List.map_append, List.nodup_append]
    refine ⟨t.distinct, List.nodup_singleton _, ?_⟩
    intro old member new isNew same
    rw [List.map_singleton, List.mem_singleton] at isNew
    rw [same, isNew] at member
    exact fresh_notMem fresh member
  closed := by
    intro other member
    have below : ∀ {p : List Name}, t.HasRoom p →
        p ≠ [] ∧ (p.dropLast = [] ∨ (p.dropLast, Node.directory) ∈ t.entries ++ [(path, node)]) :=
      fun has => ⟨has.1, has.2.imp_right (List.mem_append_left _)⟩
    rw [List.map_append, List.mem_append, List.map_singleton, List.mem_singleton] at member
    rcases member with old | rfl
    · exact below (t.closed other old)
    · exact below room

/-- Other content for a file. -/
def overwrite (t : Tree Name Content) (path : List Name) (content : Content) (old : Content)
    (found : t.node? path = some (.file old)) : Tree Name Content where
  entries := AssocMap.adjust path (fun _ => .file content) t.entries
  distinct := by
    rw [keys_adjust]
    exact t.distinct
  closed := by
    intro other member
    rw [keys_adjust] at member
    obtain ⟨proper, under⟩ := t.closed other member
    refine ⟨proper, under.imp_right (fun directory => ?_)⟩
    -- The directory is not the file that changes.
    have apart : other.dropLast ≠ path := by
      rintro rfl
      have there := (lookup_eq_some_iff_mem t.distinct).mpr directory
      exact nomatch (found.symm.trans there)
    exact List.mem_map.mpr ⟨_, directory, if_neg apart⟩

theorem file?_eq_some_iff :
    t.file? path = some cont ↔ (path, Node.file cont) ∈ t.entries := by
  rw [← lookup_eq_some_iff_mem t.distinct]
  unfold file? node?
  cases t.entries.lookup path with
  | none => simp
  | some node => cases node <;> simp

@[simp] theorem file?_empty (path : List Name) : (empty : Tree Name Content).file? path = none := rfl

theorem node?_add {node : Node Content} (fresh : t.node? path = none) (room : t.HasRoom path)
    (other : List Name) :
    (t.add path node fresh room).node? other =
      if other = path then some node else t.node? other := by
  have appended : (t.add path node fresh room).node? other =
      (t.node? other).or (([(path, node)] : List _).lookup other) := List.lookup_append
  rw [appended, lookup_cons_if]
  split
  · next eq => rw [eq, fresh]; rfl
  · rw [List.lookup_nil, Option.or_none]

theorem node?_overwrite {old : Content} (hit : t.node? path = some (.file old)) (other : List Name) :
    (t.overwrite path cont old hit).node? other =
      if other = path then some (.file cont) else t.node? other := by
  refine (lookup_adjust path other (fun _ => Node.file cont) t.entries).trans ?_
  split
  · next eq =>
    rw [eq]
    exact congrArg (Option.map _) hit
  · rfl

theorem file?_of_node? {node : Node Content}
    (changed : ∀ other, t'.node? other = if other = path then some node else t.node? other)
    (other : List Name) :
    t'.file? other = if other = path then
      match node with
      | .file content => some content
      | .directory => none
    else t.file? other := by
  unfold file?
  rw [changed]
  by_cases eq : other = path
  · rw [if_pos eq, if_pos eq]
    cases node <;> rfl
  · rw [if_neg eq, if_neg eq]

variable [DecidableEq Content]

instance (t : Tree Name Content) (path : List Name) : Decidable (t.HasRoom path) :=
  inferInstanceAs (Decidable (_ ∧ (_ ∨ _)))

/-- Writes a whole file. -/
def writeFile (t : Tree Name Content) (path : List Name) (content : Content) :
    Option (Tree Name Content) :=
  match found : t.node? path with
  | some .directory => none
  | some (.file old) => some (t.overwrite path content old found)
  | none => if room : t.HasRoom path then some (t.add path (.file content) found room) else none

def createDirectory (t : Tree Name Content) (path : List Name) : Option (Tree Name Content) :=
  match found : t.node? path with
  | some .directory => some t
  | some (.file _) => none
  | none => if room : t.HasRoom path then some (t.add path .directory found room) else none

/-- Makes the directories along a path. -/
def createDirectories (t : Tree Name Content) (path : List Name) : Option (Tree Name Content) :=
  path.inits.tail.foldlM createDirectory t

theorem file?_writeFile (written : t.writeFile path cont = some t') (other : List Name) :
    t'.file? other = if other = path then some cont else t.file? other := by
  unfold writeFile at written
  split at written
  · cases written
  · next old hit =>
    cases written
    exact file?_of_node? (node?_overwrite hit) other
  · next fresh =>
    split at written
    · next room =>
      cases written
      exact file?_of_node? (node?_add fresh room) other
    · cases written

theorem file?_createDirectory (made : t.createDirectory path = some t') (other : List Name) :
    t'.file? other = t.file? other := by
  unfold createDirectory at made
  split at made
  · cases made
    rfl
  · cases made
  · next fresh =>
    split at made
    · next room =>
      cases made
      rw [file?_of_node? (node?_add fresh room) other]
      split
      · next eq =>
        unfold file?
        rw [eq, fresh]
      · rfl
    · cases made

theorem file?_createDirectories (made : t.createDirectories path = some t') (other : List Name) :
    t'.file? other = t.file? other := by
  unfold createDirectories at made
  generalize path.inits.tail = paths at made
  induction paths generalizing t with
  | nil => cases made; rfl
  | cons fst paths ih =>
    rw [List.foldlM_cons] at made
    obtain ⟨next, one, rest⟩ := Option.bind_eq_some_iff.mp made
    rw [ih rest, file?_createDirectory one]

end Tree

end NobugDb.Misc
