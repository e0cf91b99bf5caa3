import NobugDb.Executor.Proofs.PartitionPruning

/-!
# The child of a key

Partitions are accepted when their bound is apart from those of the partitions already there, so
a key lies within the bound of at most one of them. Which one `resolveChild` finds then does not
depend on the order of the search.
-/

namespace NobugDb

/-- An integer, or of string keys a string. -/
def Value.isPartitionKey : (strings : Bool) → Value → Bool
  | false, .int _ => true
  | true, .string _ => true
  | _, _ => false

theorem Value.lt_of_le_of_lt {strings : Bool} {a b c : Value} (isA : a.isPartitionKey strings = true)
    (isB : b.isPartitionKey strings = true) (isC : c.isPartitionKey strings = true)
    (le : a.le b = true) (lt : b.lt c = true) : a.lt c = true := by
  cases strings with
  | false =>
    cases a <;> cases isA
    cases b <;> cases isB
    cases c <;> cases isC
    simp only [Value.le, Value.lt, Value.eq, Bool.or_eq_true, decide_eq_true_eq, beq_iff_eq] at le lt ⊢
    omega
  | true =>
    cases a <;> cases isA
    cases b <;> cases isB
    cases c <;> cases isC
    simp only [Value.le, Value.lt, Value.eq, Bool.or_eq_true, decide_eq_true_eq, beq_iff_eq] at le lt ⊢
    rcases le with less | rfl
    · exact less.trans lt
    · exact lt

namespace PartitionBound

/-- The bounds of a range partition are keys. -/
def IsOf (strings : Bool) (bound : PartitionBound) : Prop :=
  ∀ range, bound.range = some range → range.minInclusive.isPartitionKey strings = true ∧
    range.maxExclusive.isPartitionKey strings = true

/-- The bounds do not overlap, or they ask for different remainders of one division. -/
def Apart (kind : PartitionKind) (a b : PartitionBound) : Prop :=
  match kind with
  | .range => ∀ ra rb, a.range = some ra → b.range = some rb → ra.overlaps rb = false
  | .hash => ∀ ha hb, a.hash = some ha → b.hash = some hb →
      ha.modulus = hb.modulus ∧ ha.remainder ≠ hb.remainder

end PartitionBound

namespace PartitionedTableMetadata

variable {metadata res : PartitionedTableMetadata} {descriptor : PartitionDescriptor}

theorem validateHashAgainst_ok {hash : HashPartitionBound} {parts : List PartitionDescriptor}
    (valid : validateHashAgainst hash parts = .ok ()) :
    ∀ part ∈ parts, ∀ ne, part.bound.hash = some ne →
      ne.modulus = hash.modulus ∧ ne.remainder ≠ hash.remainder := by
  induction parts with
  | nil => simp
  | cons existing parts ih =>
    intro part mem ne isOther
    unfold validateHashAgainst at valid
    rcases List.mem_cons.mp mem with rfl | mem
    · rw [isOther] at valid
      dsimp only at valid
      split at valid
      · cases valid
      · rename_i sameModulus
        split at valid
        · cases valid
        · rename_i fresh
          exact ⟨not_not.mp sameModulus, fresh⟩
    · refine ih ?_ part mem ne isOther
      split at valid
      · exact valid
      · split at valid
        · cases valid
        · split at valid
          · cases valid
          · exact valid

theorem apart_of_validateNewBound {bound : PartitionBound}
    (valid : metadata.validateNewBound bound = .ok ()) :
    ∀ part ∈ metadata.partitions, part.bound.Apart metadata.kind bound := by
  intro part mem
  unfold validateNewBound at valid
  unfold PartitionBound.Apart
  cases isKind : metadata.kind with
  | range =>
    simp only [isKind] at valid
    intro range ne isRange isOther
    unfold validateRange at valid
    cases noHash : bound.hash with
    | some _ =>
      simp only [isOther, noHash] at valid
      cases valid
    | none =>
      simp only [isOther, noHash] at valid
      split at valid
      · cases valid
      · split at valid
        · cases valid
        · rename_i noneOverlaps
          have apart := List.find?_eq_none.mp noneOverlaps part mem
          rw [isRange, Option.any_some, Bool.not_eq_true] at apart
          rwa [RangePartitionBound.overlaps, Bool.and_comm]
  | hash =>
    simp only [isKind] at valid
    intro hash ne isHash isOther
    unfold validateHash at valid
    cases noRange : bound.range with
    | some _ =>
      simp only [isOther, noRange] at valid
      cases valid
    | none =>
      simp only [isOther, noRange] at valid
      split at valid
      · cases valid
      · split at valid
        · cases valid
        · exact validateHashAgainst_ok valid part mem hash isHash

theorem Accepted.apart (acc : metadata.Accepted) :
    metadata.partitions.Pairwise (fun a b => a.bound.Apart metadata.kind b.bound) := by
  induction acc with
  | new kind keyColumn => exact .nil
  | @add old res descriptor _ added ih =>
    obtain ⟨-, valid, rfl⟩ := addPartition_ok added
    refine List.pairwise_append.mpr ⟨ih, List.pairwise_singleton _ _, fun part mem new isNew => ?_⟩
    obtain rfl := List.mem_singleton.mp isNew
    exact apart_of_validateNewBound valid part mem
  | remove _ childTableName ih => exact ih.sublist List.eraseP_sublist

theorem not_both_take {strings : Bool} {kind : PartitionKind} {a b : PartitionDescriptor} {key : Value}
    (apart : a.bound.Apart kind b.bound)
    (keys : kind = .range → a.bound.IsOf strings ∧ b.bound.IsOf strings ∧
      key.isPartitionKey strings = true)
    (takesA : a.takes kind key = true) (takesB : b.takes kind key = true) : False := by
  cases kind with
  | range =>
    obtain ⟨isA, isB, isKey⟩ := keys rfl
    obtain ⟨ra, isRa, inA⟩ := (Option.any_eq_true _ _).mp takesA
    obtain ⟨rb, isRb, inB⟩ := (Option.any_eq_true _ _).mp takesB
    obtain ⟨fromA, belowA⟩ := Bool.and_eq_true_iff.mp inA
    obtain ⟨fromB, belowB⟩ := Bool.and_eq_true_iff.mp inB
    have overlap : ra.overlaps rb = true := Bool.and_eq_true_iff.mpr
      ⟨Value.lt_of_le_of_lt (isA ra isRa).1 isKey (isB rb isRb).2 fromA belowB,
        Value.lt_of_le_of_lt (isB rb isRb).1 isKey (isA ra isRa).2 fromB belowA⟩
    rw [apart ra rb isRa isRb] at overlap
    cases overlap
  | hash =>
    obtain ⟨ha, isHa, inA⟩ := (Option.any_eq_true _ _).mp takesA
    obtain ⟨hb, isHb, inB⟩ := (Option.any_eq_true _ _).mp takesB
    obtain ⟨modulus, remainder⟩ := apart ha hb isHa isHb
    have isA := beq_iff_eq.mp (Bool.and_eq_true_iff.mp inA).2
    have isB := beq_iff_eq.mp (Bool.and_eq_true_iff.mp inB).2
    rw [modulus] at isA
    exact remainder (isA.symm.trans isB)

/-- However partitions are added and removed, a key lies within the bound of at most one, and
    `resolveChild` finds the same child whatever order they are in. -/
theorem one_child_in_any_order (accepted : metadata.Accepted) {strings : Bool} {key : Value}
    (keys : metadata.kind = .range → key.isPartitionKey strings = true ∧
      ∀ part ∈ metadata.partitions, part.bound.IsOf strings) :
    (metadata.partitions.filter (·.takes metadata.kind key)).length ≤ 1 ∧
      ∀ other : PartitionedTableMetadata, other.kind = metadata.kind →
        other.partitions.Perm metadata.partitions →
        other.resolveChild key = metadata.resolveChild key := by
  have one : (metadata.partitions.filter (·.takes metadata.kind key)).length ≤ 1 := by
    have apart : (metadata.partitions.filter (·.takes metadata.kind key)).Pairwise
        (fun a b => a.bound.Apart metadata.kind b.bound) := accepted.apart.sublist List.filter_sublist
    have taker : ∀ part ∈ metadata.partitions.filter (·.takes metadata.kind key),
        part ∈ metadata.partitions ∧ part.takes metadata.kind key = true :=
      fun part member => List.mem_filter.mp member
    cases takers : metadata.partitions.filter (·.takes metadata.kind key) with
    | nil => simp
    | cons a rest =>
      cases rest with
      | nil => simp
      | cons b rest =>
        rw [takers] at apart taker
        have takesA := taker a (by simp)
        have takesB := taker b (by simp)
        refine (@not_both_take strings _ a b key ((List.pairwise_cons.mp apart).1 b (by simp))
          (fun isRange => ?_) takesA.2 takesB.2).elim
        obtain ⟨isKey, bounds⟩ := keys isRange
        exact ⟨bounds a takesA.1, bounds b takesB.1, isKey⟩
  refine ⟨one, fun other sameKind perm => ?_⟩
  have takers := perm.filter (·.takes metadata.kind key)
  have same : other.partitions.filter (·.takes metadata.kind key) =
      metadata.partitions.filter (·.takes metadata.kind key) := by
    cases found : metadata.partitions.filter (·.takes metadata.kind key) with
    | nil =>
      rw [found] at takers
      exact takers.eq_nil
    | cons a rest =>
      rw [found] at takers one
      obtain rfl : rest = [] := by simpa using one
      exact List.perm_singleton.mp takers
  unfold resolveChild
  rw [sameKind, ← List.head?_filter, ← List.head?_filter, same]

/-- 5 lies within the bound of `p0` only, which is found in the reverse order too. -/
theorem five_in_any_order :
    (byId.partitions.filter (·.takes byId.kind (.int 5))).length ≤ 1 ∧
      ∀ other : PartitionedTableMetadata, other.kind = byId.kind →
        other.partitions.Perm byId.partitions → other.resolveChild (.int 5) = byId.resolveChild (.int 5) := by
  refine @one_child_in_any_order byId accepted_byId false (.int 5) (fun _ => ⟨rfl, ?_⟩)
  intro part member range isRange
  simp only [byId, List.mem_cons, List.not_mem_nil, or_false] at member
  rcases member with rfl | rfl
  · cases isRange
    exact ⟨rfl, rfl⟩
  · cases isRange
    exact ⟨rfl, rfl⟩

end PartitionedTableMetadata

end NobugDb
