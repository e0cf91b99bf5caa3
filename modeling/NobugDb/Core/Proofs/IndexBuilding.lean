import NobugDb.Core.Proofs.IndexContents

/-!
# Building indexes

An index that is built over the rows of a table is exact, under the name of its column or of its
definition. `rebuild_indexes` and `reindex_after_delete` make all indexes exact, whatever they
held before.
-/

namespace NobugDb

open Misc (AssocMap lookup_assign lookup_eq_some_iff_mem)
open List (forall_mem_map mem_append mem_map)
open Option (isSome_iff_exists isSome_of_eq_some some.inj)
open Misc.AssocMap (adjust assign forall_mem_assign)

namespace Table


variable {t u : Table} {row : Row} {i : Nat} {c name : String} {columns : List String}

/-! ## Columns by name -/

theorem columnIndex_eq (t : Table) (c : String) :
    t.getColumnIndex c = (t.columns.map (·.name)).findIdx? (· == c) := by
  rw [List.findIdx?_map]
  rfl

theorem columnIndex_of_names (eq : u.columns.map (·.name) = t.columns.map (·.name))
    (c : String) : u.getColumnIndex c = t.getColumnIndex c := by
  rw [columnIndex_eq, columnIndex_eq, eq]

theorem columnIndex_eq_some_iff (nodup : (t.columns.map (·.name)).Nodup) :
    t.getColumnIndex c = some i ↔ (t.columns.map (·.name))[i]? = some c := by
  rw [columnIndex_eq, List.findIdx?_eq_some_iff_getElem, List.getElem?_eq_some_iff]
  constructor
  · rintro ⟨bound, isName, -⟩
    exact ⟨bound, beq_iff_eq.mp isName⟩
  · rintro ⟨bound, isName⟩
    refine ⟨bound, beq_iff_eq.mpr isName, fun j earlier eq => ?_⟩
    have equal := (beq_iff_eq.mp eq).trans isName.symm
    exact absurd (nodup.getElem_inj_iff.mp equal) (Nat.ne_of_lt earlier)

theorem known_iff_mem : (t.getColumnIndex c).isSome = true ↔ c ∈ t.columns.map (·.name) := by
  rw [columnIndex_eq, List.findIdx?_isSome, List.any_eq_true]
  constructor
  · rintro ⟨name, mem, eq⟩
    exact beq_iff_eq.mp eq ▸ mem
  · exact fun mem => ⟨c, mem, beq_self_eq_true c⟩

theorem buildIndexKey_map {row row' : Row} {f : String → String}
    (eq : ∀ c ∈ columns, ∃ j, t.getColumnIndex c = some j ∧ u.getColumnIndex (f c) = some j ∧
      row'.getValue? j = row.getValue? j) :
    u.buildIndexKey row' (columns.map f) = t.buildIndexKey row columns := by
  unfold buildIndexKey
  induction columns with
  | nil => rfl
  | cons c columns ih =>
    obtain ⟨j, here, there, value⟩ := eq c (by simp)
    rw [List.map_cons, List.mapM_cons, List.mapM_cons, here, there,
      ih (fun c mem => eq c (by simp [mem]))]
    simp only [value]

/-- The table has the column names, rows and named indexes of another, and no further column
    indexes; its keys are over columns of the other. -/
structure Redefines (t u : Table) : Prop where
  names : u.columns.map (·.name) = t.columns.map (·.name)
  directory : u.directory = t.directory
  secondary : u.secondaryIndexes = t.secondaryIndexes
  constraint : u.constraintIndexes = t.constraintIndexes
  named : u.namedIndices = t.namedIndices
  indices : ∀ c index, u.columnIndices.lookup c = some index → t.columnIndices.lookup c = some index
  primary : t.KnownColumns u.primaryKeyColumns
  unique : ∀ uq ∈ u.uniqueConstraints, t.KnownColumns uq.columns

variable {index : BTreeIndex} {slots : List (Option Row)}

theorem KnownColumns.of_names (known : t.KnownColumns columns)
    (eq : u.columns.map (·.name) = t.columns.map (·.name)) : u.KnownColumns columns := by
  intro c mem
  rw [columnIndex_of_names eq]
  exact known c mem

theorem buildIndexKey_of_names (eq : u.columns.map (·.name) = t.columns.map (·.name))
    (row : Row) (columns : List String) : u.buildIndexKey row columns = t.buildIndexKey row columns := by
  unfold buildIndexKey
  simp only [columnIndex_of_names eq]

theorem exact_map {key key' : Row → Except Exn IndexKey} {g : Row → Row}
    (exactly : index.Exact key slots) (eq : ∀ row, some row ∈ slots → key' (g row) = key row) :
    index.Exact key' (slots.map (Option.map g)) := by
  refine exactly.congr (by simp) (fun j slot slot' before now k => ?_)
  rw [List.getElem?_map, before] at now
  obtain rfl := some.inj now
  cases slot with
  | none => rfl
  | some row => simp only [Option.map_some, BTreeIndex.slotHas, eq row (List.mem_of_getElem? before)]

/-- The table has the columns of another, each under the name that `f` gives it and perhaps with
    further ones, its rows as `g` makes them, and its indexes under the new names. -/
structure Carries (f : String → String) (g : Row → Row) (t u : Table) : Prop where
  directory : u.directory = t.directory.map (Option.map g)
  rows : ∀ row, some row ∈ t.directory → t.RowOk row → u.RowOk (g row)
  position : ∀ c j, t.getColumnIndex c = some j → u.getColumnIndex (f c) = some j ∧
    ∀ row, some row ∈ t.directory → (g row).getValue? j = row.getValue? j
  distinct : (u.columns.map (·.name)).Nodup
  secondary : u.secondaryIndexes = t.secondaryIndexes.map (Prod.map id (List.map f))
  constraint : u.constraintIndexes = t.constraintIndexes.map (Prod.map id (List.map f))
  named : u.namedIndices = t.namedIndices
  indices : ∀ c index, u.columnIndices.lookup c = some index →
    ∃ d, f d = c ∧ t.columnIndices.lookup d = some index
  primary : u.KnownColumns u.primaryKeyColumns
  unique : ∀ uq ∈ u.uniqueConstraints, u.KnownColumns uq.columns

section Carries

variable {f : String → String} {g : Row → Row}

theorem Carries.known (carries : Carries f g t u) (known : t.KnownColumns columns) :
    u.KnownColumns (columns.map f) := by
  intro d mem
  obtain ⟨c, isCol, rfl⟩ := mem_map.mp mem
  obtain ⟨j, hit⟩ := isSome_iff_exists.mp (known c isCol)
  exact isSome_of_eq_some (carries.position c j hit).1

theorem Carries.definitions (carries : Carries f g t u) :
    u.indexDefinitions = t.indexDefinitions.map (Prod.map id (List.map f)) := by
  rw [indexDefinitions, indexDefinitions, carries.secondary, carries.constraint, List.map_append]

theorem Carries.maintained (carries : Carries f g t u) (maint : t.Maintained) : u.Maintained := by
  have names : ∀ defs : AssocMap String (List String),
      (defs.map (Prod.map id (List.map f))).map Prod.fst = defs.map Prod.fst := by
    intro defs
    rw [List.map_map]
    rfl
  refine ⟨⟨?_, ?_, ?_, carries.primary, carries.unique⟩, carries.distinct, ?_, ?_, ?_, ?_⟩
  · rw [carries.directory]
    refine forall_mem_map.mpr (fun slot isOld => ?_)
    obtain ⟨row, rfl, ok⟩ := maint.rows slot isOld
    exact ⟨g row, rfl, carries.rows row isOld ok⟩
  · rw [carries.secondary]
    exact forall_mem_map.mpr (fun e mem => carries.known (maint.secondary e mem))
  · rw [carries.constraint]
    exact forall_mem_map.mpr (fun e mem => carries.known (maint.constraint e mem))
  · rw [AssocMap.Increasing, carries.secondary, names]
    exact maint.secondaryOrder
  · rw [AssocMap.Increasing, carries.constraint, names]
    exact maint.constraintOrder
  · rw [carries.secondary]
    exact forall_mem_map.mpr maint.free
  · rw [carries.constraint]
    exact forall_mem_map.mpr maint.reserved

theorem Indexed.carry (idx : t.Indexed) (carries : Carries f g t u) : u.Indexed := by
  refine ⟨carries.maintained idx.maintained, ?_, ?_, ?_, ?_⟩
  · intro c index hit
    obtain ⟨d, rfl, was⟩ := carries.indices c index hit
    obtain ⟨j, isCol, exactly⟩ := idx.exact.columns d index was
    obtain ⟨there, value⟩ := carries.position d j isCol
    rw [carries.directory]
    refine ⟨j, there, exact_map exactly (fun row stored => ?_)⟩
    simp only [positionKey, value row stored]
  · rw [carries.definitions]
    exact forall_mem_map.mpr (fun e mem => carries.known (idx.exact.known e mem))
  · rw [carries.definitions, carries.named, carries.directory]
    refine forall_mem_map.mpr (fun e mem => ?_)
    obtain ⟨index, hit, exactly⟩ := idx.exact.named e mem
    refine ⟨index, hit, exact_map exactly (fun row stored => buildIndexKey_map (fun c inKey => ?_))⟩
    obtain ⟨j, isCol⟩ := isSome_iff_exists.mp (idx.exact.known e mem c inKey)
    obtain ⟨there, value⟩ := carries.position c j isCol
    exact ⟨j, isCol, there, value row stored⟩
  · rw [carries.definitions, carries.named, List.map_map]
    exact idx.exact.defined

end Carries

theorem Redefines.carries (redefines : Redefines t u) (distinct : (t.columns.map (·.name)).Nodup) :
    Carries id id t u where
  directory := by simp [redefines.directory]
  rows := by
    intro row _ ok
    have length := congrArg List.length redefines.names
    rw [List.length_map, List.length_map] at length
    exact ⟨ok.arity.trans length.symm, ok.small⟩
  position := fun c j hit => ⟨(columnIndex_of_names redefines.names c).trans hit, fun _ _ => rfl⟩
  distinct := redefines.names ▸ distinct
  secondary := by simp [redefines.secondary]
  constraint := by simp [redefines.constraint]
  named := redefines.named
  indices := fun c index hit => ⟨c, rfl, redefines.indices c index hit⟩
  primary := redefines.primary.of_names redefines.names
  unique := fun uq mem => (redefines.unique uq mem).of_names redefines.names

theorem Indexed.redefine (idx : t.Indexed) (redefines : Redefines t u) : u.Indexed :=
  idx.carry (redefines.carries idx.maintained.distinct)

/-! ## Building -/

/-- Every index there is exact, but a defined one may be missing. -/
structure IndexesSound (t : Table) : Prop where
  columns : ∀ c index, t.columnIndices.lookup c = some index →
    ∃ i, t.getColumnIndex c = some i ∧ index.Exact (positionKey i) t.directory
  known : ∀ e ∈ t.indexDefinitions, t.KnownColumns e.2
  named : ∀ e ∈ t.indexDefinitions, ∀ index, t.namedIndices.lookup e.1 = some index →
    index.Exact (fun row => t.buildIndexKey row e.2) t.directory
  defined : ∀ name index, t.namedIndices.lookup name = some index →
    name ∈ t.indexDefinitions.map Prod.fst

theorem IndexesSound.exact (sound : t.IndexesSound)
    (has : ∀ e ∈ t.indexDefinitions, t.namedIndices.contains e.1 = true) : t.IndexesExact where
  columns := sound.columns
  known := sound.known
  named := by
    intro e mem
    obtain ⟨index, hit⟩ := isSome_iff_exists.mp (has e mem)
    exact ⟨index, hit, sound.named e mem index hit⟩
  defined := sound.defined

theorem IndexesExact.sound (exact : t.IndexesExact) : t.IndexesSound where
  columns := exact.columns
  known := exact.known
  named := by
    intro e mem index hit
    obtain ⟨there, isThere, exactly⟩ := exact.named e mem
    rw [some.inj (hit.symm.trans isThere)]
    exact exactly
  defined := exact.defined

theorem IndexesExact.present (exact : t.IndexesExact) :
    ∀ e ∈ t.indexDefinitions, t.namedIndices.contains e.1 = true := by
  intro e mem
  obtain ⟨index, hit, -⟩ := exact.named e mem
  exact isSome_of_eq_some hit

theorem exact_of_filled {key : Row → Except Exn IndexKey}
    (filled : t.getAllRows.bind (fillIndex key) = .ok index) : index.Exact key t.directory := by
  obtain ⟨rows, read, filled⟩ := Exn.bind_eq_ok filled
  rw [dir_of_getAllRows read]
  exact fillIndex_exact filled

theorem contains_assign {V : Type} (k name : String) (v : V) (m : AssocMap String V) :
    (assign k v m).contains name = (decide (name = k) || m.contains name) := by
  unfold AssocMap.contains
  rw [lookup_assign]
  by_cases eq : name = k <;> simp [eq]

/-- A step of a rebuild: the definitions and rows are the same, and no named index is lost. -/
structure Rebuilt (t u : Table) : Prop where
  maintained : u.Maintained
  sound : u.IndexesSound
  same : SameDefinitions t u
  directory : u.directory = t.directory
  kept : ∀ name, t.namedIndices.contains name = true → u.namedIndices.contains name = true

theorem Rebuilt.refl (maint : t.Maintained) (sound : t.IndexesSound) : Rebuilt t t :=
  ⟨maint, sound, .refl t, rfl, fun _ => id⟩

theorem Rebuilt.trans {v : Table} (fst : Rebuilt t u) (snd : Rebuilt u v) : Rebuilt t v :=
  ⟨snd.maintained, snd.sound, fst.same.trans snd.same,
    snd.directory.trans fst.directory, fun name was => snd.kept name (fst.kept name was)⟩

theorem Maintained.setIndices (maint : t.Maintained)
    (columnIndices namedIndices : AssocMap String BTreeIndex) :
    Maintained { t with columnIndices := columnIndices, namedIndices := namedIndices } :=
  maint.of_same ⟨rfl, rfl, rfl, rfl, rfl⟩ maint.rows

theorem buildIndex_rebuilt (maint : t.Maintained) (sound : t.IndexesSound)
    (known : (t.getColumnIndex c).isSome = true) :
    ∃ u, t.buildIndex c = (u, .ok ()) ∧ Rebuilt t u := by
  obtain ⟨i, isCol⟩ := isSome_iff_exists.mp known
  obtain ⟨index, filled, built⟩ := buildIndex_filled maint.toWellFormed isCol
  refine ⟨_, built, maint.setIndices _ t.namedIndices,
    ⟨?_, sound.known, sound.named, sound.defined⟩, ⟨rfl, rfl, rfl, rfl, rfl⟩, rfl, fun _ => id⟩
  intro d there hit
  dsimp only at hit
  rw [lookup_assign] at hit
  split at hit
  · rename_i eq
    rw [← some.inj hit, eq]
    exact ⟨i, isCol, exact_of_filled filled⟩
  · exact sound.columns d there hit

theorem Indexed.buildIndex (idx : t.Indexed) (c : String) : (t.buildIndex c).1.Indexed := by
  cases hit : t.getColumnIndex c with
  | none =>
    simp only [Table.buildIndex, hit]
    exact idx
  | some i =>
    obtain ⟨u, built, rebuilt⟩ := buildIndex_rebuilt idx.maintained idx.exact.sound
      (isSome_of_eq_some hit)
    rw [built]
    refine ⟨rebuilt.maintained, rebuilt.sound.exact (fun e mem => ?_)⟩
    rw [indexDefinitions, rebuilt.same.secondary, rebuilt.same.constraint] at mem
    exact rebuilt.kept e.1 (idx.exact.present e mem)

theorem IndexesSound.assignNamed (sound : t.IndexesSound) (maint : t.Maintained)
    (mem : (name, columns) ∈ t.indexDefinitions)
    (exactly : index.Exact (fun row => t.buildIndexKey row columns) t.directory) :
    IndexesSound { t with namedIndices := assign name index t.namedIndices } := by
  refine ⟨sound.columns, sound.known, ?_, ?_⟩
  · intro e isDef there hit
    dsimp only at hit
    rw [lookup_assign] at hit
    split at hit
    · rename_i eq
      -- Names are distinct, so this is the one definition of that name.
      have only := (lookup_eq_some_iff_mem maint.names_nodup).mpr isDef
      rw [eq, (lookup_eq_some_iff_mem maint.names_nodup).mpr mem] at only
      rw [← some.inj hit, ← some.inj only]
      exact exactly
    · exact sound.named e isDef there hit
  · intro ne there hit
    dsimp only at hit
    rw [lookup_assign] at hit
    split at hit
    · rename_i eq
      rw [eq]
      exact List.mem_map_of_mem mem
    · exact sound.defined ne there hit

theorem buildNamed_rebuilt (maint : t.Maintained) (sound : t.IndexesSound)
    {defs : AssocMap String (List String)}
    (sub : ∀ e ∈ defs, e ∈ t.indexDefinitions) (mem : name ∈ defs.map Prod.fst) :
    ∃ u, t.buildNamedIndex defs name = (u, .ok ()) ∧ Rebuilt t u ∧
      u.namedIndices.contains name = true := by
  cases hit : defs.lookup name with
  | none =>
    rw [List.lookup_eq_none_iff] at hit
    obtain ⟨e, isDef, eq⟩ := mem_map.mp mem
    have := hit e isDef
    simp [eq] at this
  | some columns =>
    have isDef := sub _ (Misc.mem_of_lookup hit)
    obtain ⟨index, filled, built⟩ :=
      buildNamed_filled maint.toWellFormed hit (sound.known _ isDef)
    refine ⟨_, built, ⟨maint.setIndices t.columnIndices _,
      sound.assignNamed maint isDef (exact_of_filled filled), ⟨rfl, rfl, rfl, rfl, rfl⟩,
      rfl, ?_⟩, ?_⟩
    · intro ne was
      rw [contains_assign, was, Bool.or_true]
    · simp [contains_assign]

theorem prefix_foldl_names {start : List Char} (columns : List String) :
    ∀ text : String, start <+: text.toList →
      start <+: (columns.foldl (fun text col => text ++ "_" ++ col) text).toList := by
  induction columns with
  | nil => exact fun _ starts => starts
  | cons col columns ih =>
    intro text starts
    refine ih _ ?_
    rw [String.toList_append, String.toList_append, List.append_assoc]
    exact starts.trans (List.prefix_append _ _)

theorem reservedName_unique (uq : UniqueConstraint) :
    reservedName (uniqueConstraintIndexName uq) = true := by
  unfold reservedName uniqueConstraintIndexName
  rw [Bool.or_eq_true, List.isPrefixOf_iff_prefix]
  refine .inr ?_
  split
  · rw [String.toList_append]
    exact (by decide : "__uq".toList <+: "__uq_".toList).trans (List.prefix_append _ _)
  · exact prefix_foldl_names uq.columns "__uq" List.prefix_rfl

theorem mem_assign_iff {V : Type} {m : AssocMap String V} (increasing : AssocMap.Increasing m)
    {k : String} {v : V} {e : String × V} :
    e ∈ assign k v m ↔ e = (k, v) ∨ e.1 ≠ k ∧ e ∈ m := by
  obtain ⟨key, value⟩ := e
  rw [← lookup_eq_some_iff_mem (increasing.assign k v).nodup, lookup_assign,
    ← lookup_eq_some_iff_mem increasing.nodup]
  by_cases eq : key = k
  · simp [eq, eq_comm]
  · simp [eq]

/-- One definition is put in under a name, and its index with it. -/
theorem IndexesExact.define (exact : t.IndexesExact) (sameColumns : u.columns = t.columns)
    (dir : u.directory = t.directory) (indices : u.columnIndices = t.columnIndices)
    (named : u.namedIndices = assign name index t.namedIndices)
    (defs : ∀ e, e ∈ u.indexDefinitions ↔
      e = (name, columns) ∨ e.1 ≠ name ∧ e ∈ t.indexDefinitions) (known : t.KnownColumns columns)
    (exactly : index.Exact (fun row => t.buildIndexKey row columns) t.directory) :
    u.IndexesExact := by
  have names : u.columns.map (·.name) = t.columns.map (·.name) := by rw [sameColumns]
  refine ⟨?_, ?_, ?_, ?_⟩
  · rw [indices, dir]
    simp only [columnIndex_of_names names]
    exact exact.columns
  · intro e mem
    rcases (defs e).mp mem with rfl | ⟨-, old⟩
    · exact known.of_names names
    · exact (exact.known e old).of_names names
  · intro e mem
    simp only [buildIndexKey_of_names names]
    rw [named, lookup_assign, dir]
    rcases (defs e).mp mem with rfl | ⟨ne, old⟩
    · exact ⟨index, if_pos rfl, exactly⟩
    · rw [if_neg ne]
      exact exact.named e old
  · intro ne there hit
    rw [named, lookup_assign] at hit
    split at hit
    · rename_i eq
      exact mem_map.mpr ⟨_, (defs _).mpr (.inl rfl), eq.symm⟩
    · rename_i apart
      obtain ⟨e, mem, eq⟩ := mem_map.mp (exact.defined ne there hit)
      exact mem_map.mpr ⟨e, (defs e).mpr (.inr ⟨eq ▸ apart, mem⟩), eq⟩

theorem Maintained.defineConstraint (maint : t.Maintained) (taken : reservedName name = true)
    (known : t.KnownColumns columns) (namedIndices : AssocMap String BTreeIndex) :
    Maintained { t with
      constraintIndexes := assign name columns t.constraintIndexes
      namedIndices := namedIndices } :=
  { maint with
    rows := maint.rowsAs rfl
    constraint := forall_mem_assign known maint.constraint
    constraintOrder := maint.constraintOrder.assign name columns
    reserved := forall_mem_assign taken maint.reserved }

theorem Maintained.defineSecondary (maint : t.Maintained) (isFree : reservedName name = false)
    (known : t.KnownColumns columns) (namedIndices : AssocMap String BTreeIndex) :
    Maintained { t with
      secondaryIndexes := assign name columns t.secondaryIndexes
      namedIndices := namedIndices } :=
  { maint with
    rows := maint.rowsAs rfl
    secondary := forall_mem_assign known maint.secondary
    secondaryOrder := maint.secondaryOrder.assign name columns
    free := forall_mem_assign isFree maint.free }

theorem Maintained.apart (maint : t.Maintained) {e d : String × List String}
    (sec : e ∈ t.secondaryIndexes) (constr : d ∈ t.constraintIndexes) : e.1 ≠ d.1 := by
  intro same
  have taken := maint.reserved d constr
  rw [← same, maint.free e sec] at taken
  cases taken

theorem Indexed.ensureConstraintIndex (idx : t.Indexed) (taken : reservedName name = true)
    (known : t.KnownColumns columns) :
    ∃ u, t.ensureConstraintIndex name columns = (u, .ok ()) ∧ u.Indexed ∧ u.columns = t.columns := by
  have order := idx.maintained.constraintOrder
  have hit : (assign name columns t.constraintIndexes).lookup name = some columns := by
    rw [lookup_assign, if_pos rfl]
  have registered := idx.maintained.defineConstraint taken known t.namedIndices
  obtain ⟨index, filled, built⟩ := buildNamed_filled registered.toWellFormed hit known
  refine ⟨_, built, ⟨idx.maintained.defineConstraint taken known _,
    idx.exact.define rfl rfl rfl rfl (fun e => ?_) known (exact_of_filled filled)⟩, rfl⟩
  simp only [indexDefinitions, mem_append, mem_assign_iff order]
  constructor
  · rintro (sec | rfl | ⟨ne, old⟩)
    · refine .inr ⟨?_, .inl sec⟩
      rintro rfl
      rw [idx.maintained.free e sec] at taken
      cases taken
    · exact .inl rfl
    · exact .inr ⟨ne, .inr old⟩
  · rintro (rfl | ⟨ne, sec | old⟩)
    · exact .inr (.inl rfl)
    · exact .inl sec
    · exact .inr (.inr ⟨ne, old⟩)

theorem known_of_missingColumn (noneMissing : t.missingColumn columns = none) :
    t.KnownColumns columns := by
  intro c mem
  have has := List.find?_eq_none.mp noneMissing c mem
  rwa [Bool.not_eq_true, Option.isNone_eq_false_iff] at has

/-- `create_secondary_index` under a name that no key's index takes. -/
theorem Indexed.createSecondaryIndex (idx : t.Indexed) (isFree : reservedName name = false)
    (columns : List String) : (t.createSecondaryIndex name columns).1.Indexed := by
  unfold Table.createSecondaryIndex
  split
  · exact idx
  · split
    · exact idx
    · split
      · exact idx
      · rename_i noneMissing
        have known : t.KnownColumns columns := known_of_missingColumn noneMissing
        have order := idx.maintained.secondaryOrder
        have hit : (assign name columns t.secondaryIndexes).lookup name = some columns := by
          rw [lookup_assign, if_pos rfl]
        have registered := idx.maintained.defineSecondary isFree known t.namedIndices
        obtain ⟨index, filled, built⟩ := buildNamed_filled registered.toWellFormed hit known
        refine andThen_keeps ?_ (fun _ idx => idx.mark)
        dsimp only at built ⊢
        rw [built]
        refine ⟨idx.maintained.defineSecondary isFree known _,
          idx.exact.define rfl rfl rfl rfl (fun e => ?_) known (exact_of_filled filled)⟩
        simp only [indexDefinitions, mem_append, mem_assign_iff order]
        constructor
        · rintro ((rfl | ⟨ne, old⟩) | constr)
          · exact .inl rfl
          · exact .inr ⟨ne, .inl old⟩
          · refine .inr ⟨?_, .inr constr⟩
            rintro rfl
            rw [idx.maintained.reserved e constr] at isFree
            cases isFree
        · rintro (rfl | ⟨ne, old | constr⟩)
          · exact .inl (.inl rfl)
          · exact .inl (.inr ⟨ne, old⟩)
          · exact .inr constr

/-! ## Rebuilding -/

theorem seq_append (fst snd : List (Table → Table × Except Exn Unit)) (t : Table) :
    sequence (fst ++ snd) t = andThen (sequence fst t) (sequence snd) := by
  induction fst generalizing t with
  | nil => rfl
  | cons step fst ih =>
    rw [List.cons_append, sequence, sequence]
    split
    · rfl
    · exact ih _

/-- Steps taken in a row, each of which brings about its part and keeps those of the others. -/
theorem seq_each {α : Type} {P : Table → Prop} {Q : α → Table → Prop}
    {step : α → Table → Table × Except Exn Unit} {l : List α}
    (each : ∀ a ∈ l, ∀ u, P u → ∃ v, step a u = (v, .ok ()) ∧ P v ∧ Q a v ∧
      ∀ b ∈ l, Q b u → Q b v) {u : Table} (start : P u) :
    ∃ v, sequence (l.map step) u = (v, .ok ()) ∧ P v ∧ ∀ a ∈ l, Q a v := by
  -- Over the steps still to take, with the parts of all steps in view.
  have rest : ∀ (left : List α), (∀ a ∈ left, a ∈ l) → ∀ u, P u →
      ∃ v, sequence (left.map step) u = (v, .ok ()) ∧ P v ∧ (∀ a ∈ left, Q a v) ∧
        ∀ b ∈ l, Q b u → Q b v := by
    intro left
    induction left with
    | nil =>
      intro _ u start
      exact ⟨u, rfl, start, fun a mem => absurd mem List.not_mem_nil, fun _ _ => id⟩
    | cons a left ih =>
      intro sub u start
      obtain ⟨v, taken, holds, done, keeps⟩ := each a (sub a (by simp)) u start
      obtain ⟨w, others, holds, all, further⟩ :=
        ih (fun b mem => sub b (by simp [mem])) v holds
      refine ⟨w, ?_, holds, ?_, fun b mem was => further b mem (keeps b mem was)⟩
      · rw [List.map_cons, sequence, taken]
        exact others
      · intro b mem
        rcases List.mem_cons.mp mem with rfl | mem
        · exact further b (sub b (by simp)) done
        · exact all b mem
  obtain ⟨v, taken, holds, all, -⟩ := rest l (fun _ => id) u start
  exact ⟨v, taken, holds, all⟩

theorem syncMetadata_redefines (maint : t.Maintained) : Redefines t t.syncKeyMetadata := by
  unfold syncKeyMetadata
  split
  · exact ⟨rfl, rfl, rfl, rfl, rfl, fun _ _ => id,
      knownColumns_of_mem (fun c mem => (List.mem_filter.mp mem).1), maint.unique⟩
  · exact ⟨rfl, rfl, rfl, rfl, rfl, fun _ _ => id, maint.primary, maint.unique⟩

theorem Indexed.ensureMissing (idx : t.Indexed) (taken : reservedName name = true)
    (known : t.KnownColumns columns) :
    ∃ u, t.ensureMissing name columns = (u, .ok ()) ∧ u.Indexed ∧ u.columns = t.columns := by
  unfold Table.ensureMissing
  split
  · exact ⟨t, rfl, idx, rfl⟩
  · exact idx.ensureConstraintIndex taken known

/-- `rebuild_indexes` makes exact indexes, whatever was there before. -/
theorem Maintained.rebuildIndexes (maint : t.Maintained) :
    ∃ u, t.rebuildIndexes = (u, .ok ()) ∧ u.Indexed := by
  unfold Table.rebuildIndexes
  generalize cleared : syncKeyMetadata { t with columnIndices := [], namedIndices := [] } = v
  have vMaintained : v.Maintained :=
    cleared ▸ ((syncMetadata_redefines (maint.setIndices [] [])).carries
      maint.distinct).maintained (maint.setIndices [] [])
  have vSound : v.IndexesSound := by
    have empty : v.columnIndices = [] ∧ v.namedIndices = [] := by
      rw [← cleared, syncKeyMetadata]
      split <;> exact ⟨rfl, rfl⟩
    refine ⟨?_, ?_, ?_, ?_⟩
    · rw [empty.1]
      exact fun _ _ hit => nomatch hit
    · intro e mem
      rcases mem_append.mp mem with sec | constr
      · exact vMaintained.secondary e sec
      · exact vMaintained.constraint e constr
    · rw [empty.2]
      exact fun _ _ _ hit => nomatch hit
    · rw [empty.2]
      exact fun _ _ hit => nomatch hit
  -- The flagged columns, then the defined indexes one after the other.
  obtain ⟨w₁, fst, one, -⟩ := @seq_each Column (Rebuilt v) (fun _ _ => True)
    (fun c t => Table.buildIndex t c.name) (v.columns.filter (fun c => c.primaryKey || c.unique))
    (by
      intro c mem w rebuilt
      have known : v.KnownColumns ([c].map (·.name)) :=
        knownColumns_of_mem (by simpa using (List.mem_filter.mp mem).1)
      obtain ⟨x, built, next⟩ := buildIndex_rebuilt rebuilt.maintained rebuilt.sound
        (known.congr rebuilt.same.columns c.name (by simp))
      exact ⟨x, built, rebuilt.trans next, trivial, fun _ _ => id⟩)
    v (.refl vMaintained vSound)
  obtain ⟨w₂, snd, two, secondaryBuilt⟩ := @seq_each (String × List String) (Rebuilt v)
    (fun e w => w.namedIndices.contains e.1 = true)
    (fun e t => buildNamedIndex t t.secondaryIndexes e.1) v.secondaryIndexes
    (by
      intro e mem w rebuilt
      obtain ⟨x, built, next, here⟩ := buildNamed_rebuilt rebuilt.maintained rebuilt.sound
        (fun d isDef => List.mem_append_left _ isDef)
        (rebuilt.same.secondary ▸ List.mem_map_of_mem mem)
      exact ⟨x, built, rebuilt.trans next, here, fun d _ was => next.kept d.1 was⟩)
    w₁ one
  obtain ⟨w₃, third, ⟨three, stillBuilt⟩, constraintBuilt⟩ := @seq_each (String × List String)
    (fun w => Rebuilt v w ∧ ∀ e ∈ v.secondaryIndexes, w.namedIndices.contains e.1 = true)
    (fun e w => w.namedIndices.contains e.1 = true)
    (fun e t => buildNamedIndex t t.constraintIndexes e.1) v.constraintIndexes
    (by
      rintro e mem w ⟨rebuilt, sec⟩
      obtain ⟨x, built, next, here⟩ := buildNamed_rebuilt rebuilt.maintained rebuilt.sound
        (fun d isDef => List.mem_append_right _ isDef)
        (rebuilt.same.constraint ▸ List.mem_map_of_mem mem)
      exact ⟨x, built, ⟨rebuilt.trans next, fun d isDef => next.kept d.1 (sec d isDef)⟩,
        here, fun d _ was => next.kept d.1 was⟩)
    w₂ ⟨two, secondaryBuilt⟩
  have idx : w₃.Indexed := by
    refine ⟨three.maintained, three.sound.exact (fun e mem => ?_)⟩
    rw [indexDefinitions, three.same.secondary, three.same.constraint] at mem
    rcases mem_append.mp mem with sec | constr
    · exact stillBuilt e sec
    · exact constraintBuilt e constr
  -- Then the indexes of keys that are not registered yet.
  obtain ⟨u, keys, holds, -⟩ := @seq_ok (fun w => w.Indexed ∧ w.columns = v.columns)
    ((if v.primaryKeyColumns.isEmpty then []
      else [Table.ensureMissing primaryKeyIndexName v.primaryKeyColumns]) ++
      v.uniqueConstraints.map
        (fun uq => Table.ensureMissing (uniqueConstraintIndexName uq) uq.columns))
    (by
      rintro step mem w ⟨idx, columns⟩
      rcases mem_append.mp mem with primary | unique
      · split at primary
        · cases primary
        · obtain rfl := List.mem_singleton.mp primary
          obtain ⟨x, built, next, eq⟩ := @Indexed.ensureMissing w primaryKeyIndexName
            v.primaryKeyColumns idx (by decide) (vMaintained.primary.congr columns)
          exact ⟨x, built, next, eq.trans columns⟩
      · obtain ⟨uq, isKey, rfl⟩ := mem_map.mp unique
        obtain ⟨x, built, next, eq⟩ := idx.ensureMissing (reservedName_unique uq)
          ((vMaintained.unique uq isKey).congr columns)
        exact ⟨x, built, next, eq.trans columns⟩)
    w₃ ⟨idx, three.same.columns⟩
  refine ⟨u, ?_, holds⟩
  dsimp only
  rw [List.append_assoc, seq_append, seq_append, seq_append, fst]
  dsimp only [andThen]
  rw [snd]
  dsimp only [andThen]
  rw [third]
  exact keys

/-! ## Reindexing after a delete -/

theorem reindex_eq (t : Table) : t.reindexAfterDelete =
    sequence (t.columnIndices.map refillColumn ++ t.indexDefinitions.map refillNamed) t := by
  rw [indexDefinitions, List.map_append, ← List.append_assoc]
  rfl

/-- The table has the definitions and rows of another, and indexes under the same names. -/
structure SameShape (t u : Table) : Prop where
  maintained : u.Maintained
  same : SameDefinitions t u
  directory : u.directory = t.directory
  columnNames : ∀ c, u.columnIndices.contains c = t.columnIndices.contains c
  indexNames : ∀ name, u.namedIndices.contains name = t.namedIndices.contains name

theorem SameShape.refillColumn (shape : SameShape t u) {e : String × BTreeIndex}
    (known : t.getColumnIndex e.1 = some i) (has : t.columnIndices.contains e.1 = true) :
    ∃ (v : Table) (index : BTreeIndex), Table.refillColumn e u = (v, .ok ()) ∧ SameShape t v ∧
      index.Exact (positionKey i) t.directory ∧
      v = { u with columnIndices := assign e.1 index u.columnIndices } := by
  have hit : u.getColumnIndex e.1 = some i := by
    unfold getColumnIndex
    rw [shape.same.columns]
    exact known
  obtain ⟨index, filled, built⟩ := buildIndex_filled shape.maintained.toWellFormed hit
  unfold Table.refillColumn
  simp only [hit]
  refine ⟨_, index, built, ⟨shape.maintained.setIndices _ _, shape.same.trans ⟨rfl, rfl, rfl, rfl, rfl⟩,
    shape.directory, ?_, shape.indexNames⟩, ?_, rfl⟩
  · intro c
    rw [contains_assign, shape.columnNames]
    by_cases eq : c = e.1
    · rw [eq, has, Bool.or_true]
    · simp [eq]
  · have exactly := exact_of_filled filled
    rwa [shape.directory] at exactly

theorem SameShape.refillNamed (shape : SameShape t u) {e : String × List String}
    (known : t.KnownColumns e.2) (has : t.namedIndices.contains e.1 = true) :
    ∃ (v : Table) (index : BTreeIndex), Table.refillNamed e u = (v, .ok ()) ∧ SameShape t v ∧
      index.Exact (fun row => t.buildIndexKey row e.2) t.directory ∧
      v = { u with namedIndices := adjust e.1 (fun _ => index) u.namedIndices } := by
  obtain ⟨index, all⟩ := @WellFormed.fill u (fun row => u.buildIndexKey row e.2)
    shape.maintained.toWellFormed
    (fun row ok => buildIndexKey_ok ok.arity (known.congr shape.same.columns))
  unfold Table.refillNamed
  rw [if_pos ((shape.indexNames e.1).trans has), all]
  refine ⟨_, index, rfl, ⟨shape.maintained.setIndices _ _, shape.same.trans ⟨rfl, rfl, rfl, rfl, rfl⟩,
    shape.directory, shape.columnNames, ?_⟩, ?_, rfl⟩
  · intro name
    rw [Misc.adjust_contains, shape.indexNames]
  · have exactly := exact_of_filled all
    have names : u.columns.map (·.name) = t.columns.map (·.name) := by rw [shape.same.columns]
    simpa only [buildIndexKey_of_names names, shape.directory] using exactly

/-- After a delete the indexes are exact for the rows that are left. -/
theorem Indexed.reindexAfterDelete (idx : t.Indexed)
    (rows : ∀ slot ∈ slots, ∃ row, slot = some row ∧ t.RowOk row) :
    (Table.reindexAfterDelete { t with directory := slots }).1.Indexed := by
  have maint : Maintained { t with directory := slots } :=
    idx.maintained.of_same ⟨rfl, rfl, rfl, rfl, rfl⟩ rows
  generalize isV : ({ t with directory := slots } : Table) = v at maint
  have defs : v.indexDefinitions = t.indexDefinitions := by
    rw [← isV]
    rfl
  have colIdx : v.columnIndices = t.columnIndices := by rw [← isV]
  have namedIdx : v.namedIndices = t.namedIndices := by rw [← isV]
  have columns : v.columns = t.columns := by rw [← isV]
  rw [reindex_eq, seq_append]
  -- The column indexes.
  obtain ⟨w₁, fst, one, columnsDone⟩ := @seq_each (String × BTreeIndex) (SameShape v)
    (fun e w => ∀ index, w.columnIndices.lookup e.1 = some index →
      ∃ i, v.getColumnIndex e.1 = some i ∧ index.Exact (positionKey i) v.directory)
    Table.refillColumn v.columnIndices
    (by
      intro e mem w shape
      have has : v.columnIndices.contains e.1 = true := by
        cases absent : v.columnIndices.lookup e.1 with
        | none =>
          have := List.lookup_eq_none_iff.mp absent e mem
          simp at this
        | some index => exact isSome_of_eq_some absent
      obtain ⟨index, hit⟩ := isSome_iff_exists.mp has
      obtain ⟨i, isCol, -⟩ := idx.exact.columns e.1 index (colIdx ▸ hit)
      have isCol : v.getColumnIndex e.1 = some i := by
        unfold getColumnIndex
        rw [columns]
        exact isCol
      obtain ⟨x, filled, taken, next, exactly, rfl⟩ := shape.refillColumn isCol has
      refine ⟨_, taken, next, ?_, ?_⟩
      · intro index hit
        dsimp only at hit
        rw [lookup_assign, if_pos rfl] at hit
        rw [← some.inj hit]
        exact ⟨i, isCol, exactly⟩
      · intro d _ was index hit
        dsimp only at hit
        rw [lookup_assign] at hit
        split at hit
        · rename_i eq
          rw [← some.inj hit, eq]
          exact ⟨i, isCol, exactly⟩
        · exact was index hit)
    v ⟨maint, .refl v, rfl, fun _ => rfl, fun _ => rfl⟩
  rw [fst]
  dsimp only [andThen]
  -- The named ones.
  obtain ⟨w₂, snd, ⟨two, columnsKept⟩, namedDone⟩ := @seq_each (String × List String)
    (fun w => SameShape v w ∧ w.columnIndices = w₁.columnIndices)
    (fun e w => ∃ index, w.namedIndices.lookup e.1 = some index ∧
      index.Exact (fun row => v.buildIndexKey row e.2) v.directory)
    Table.refillNamed v.indexDefinitions
    (by
      rintro e mem w ⟨shape, eq⟩
      have known : v.KnownColumns e.2 :=
        (idx.exact.known e (defs ▸ mem)).congr columns
      have has : v.namedIndices.contains e.1 = true := by
        rw [namedIdx]
        exact idx.exact.present e (defs ▸ mem)
      obtain ⟨index, was⟩ := isSome_iff_exists.mp ((shape.indexNames e.1).trans has)
      obtain ⟨x, filled, taken, next, exactly, rfl⟩ := shape.refillNamed known has
      refine ⟨_, taken, ⟨next, eq⟩, ⟨filled, ?_, exactly⟩, ?_⟩
      · dsimp only
        rw [Misc.lookup_adjust, if_pos rfl, was]
        rfl
      · rintro d isDef ⟨ne, hit, holds⟩
        dsimp only
        rw [Misc.lookup_adjust]
        by_cases eq : d.1 = e.1
        · have nodup := maint.names_nodup
          have only := (lookup_eq_some_iff_mem nodup).mpr isDef
          rw [eq, (lookup_eq_some_iff_mem nodup).mpr mem] at only
          rw [if_pos eq, hit, ← some.inj only]
          exact ⟨filled, rfl, exactly⟩
        · rw [if_neg eq]
          exact ⟨ne, hit, holds⟩)
    w₁ ⟨one, rfl⟩
  rw [snd]
  have names : w₂.columns.map (·.name) = v.columns.map (·.name) := by rw [two.same.columns]
  have sameDefinitions : w₂.indexDefinitions = v.indexDefinitions := by
    rw [indexDefinitions, indexDefinitions, two.same.secondary, two.same.constraint]
  refine ⟨two.maintained, ?_, ?_, ?_, ?_⟩
  · intro c index hit
    have has : v.columnIndices.contains c = true := by
      rw [← two.columnNames]
      exact isSome_of_eq_some hit
    obtain ⟨old, isOld⟩ := isSome_iff_exists.mp has
    rw [columnsKept] at hit
    rw [columnIndex_of_names names, two.directory]
    exact columnsDone (c, old) (Misc.mem_of_lookup isOld) index hit
  · rw [sameDefinitions]
    intro e mem
    exact ((idx.exact.known e (defs ▸ mem)).congr columns).of_names names
  · rw [sameDefinitions, two.directory]
    simp only [buildIndexKey_of_names names]
    exact namedDone
  · intro name index hit
    have has : t.namedIndices.contains name = true := by
      rw [← namedIdx, ← two.indexNames]
      exact isSome_of_eq_some hit
    obtain ⟨old, isOld⟩ := isSome_iff_exists.mp has
    rw [sameDefinitions, defs]
    exact idx.exact.defined name old isOld

end Table

end NobugDb
