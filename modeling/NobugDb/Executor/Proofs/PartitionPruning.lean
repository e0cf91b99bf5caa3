import NobugDb.Executor.PartitionPrune

/-!
# Pruning keeps the rows WHERE accepts

A row that satisfies WHERE lies in the child its key is routed to. That child is kept when every
comparison of WHERE with a column of the key's name lets it in. Comparisons of the key itself
with a literal of its own type do; comparisons of another table's column of that name, or of
values of different types, may not.
-/

namespace NobugDb

open Option (any_some map_eq_some_iff some.inj some.injEq)
open PartitionPruneConstraint (ofPredicate)

/-! ## What WHERE says of a predicate -/

variable {pred : IndexColumnPredicate} {key : Value} {child : String}

namespace IndexColumnPredicate

variable {Q : Type}

/-- The predicate is true of `v`, as WHERE evaluates it: `v op literal` or `literal op v`. -/
def Holds (pred : IndexColumnPredicate) (v : Value) : Prop :=
  (∃ op, columnOnLeft op = some pred.op ∧ Evaluator.compare op v pred.literal = true) ∨
    ∃ op, columnOnRight op = some pred.op ∧ Evaluator.compare op pred.literal v = true

/-- The value of the column a predicate is about. -/
def value (ev : Evaluator Q) (row : Row) (pred : IndexColumnPredicate) : Value :=
  (ev.evaluateColumn row pred.tableQualifier pred.columnName none).1

variable {ev : Evaluator Q} {row : Row} {e : Expr Q}

theorem eval_column {tab col : String} (isCol : columnNameOf e = some (tab, col)) :
    ev.evaluateExpression row e none = .ok (ev.evaluateColumn row tab col none) := by
  cases e with
  | columnRef t c | identifier name =>
    simp only [columnNameOf] at isCol
    split at isCol
    · cases isCol
    · cases isCol
      simp only [Evaluator.evaluateExpression]
  | _ => cases isCol

theorem compare_of_evalCond {op : BinOp} {left right : Expr Q} {l r : Value × Option String}
    (isLeft : ev.evaluateExpression row left none = .ok l)
    (isRight : ev.evaluateExpression row right none = .ok r)
    (isComparison : (columnOnLeft op).isSome = true ∨ (columnOnRight op).isSome = true)
    (holds : ev.evaluateCondition row (.binary op left right) = .ok true) :
    Evaluator.compare op l.1 r.1 = true := by
  simp only [Evaluator.evaluateCondition, isLeft, isRight, bind, Except.bind] at holds
  cases op <;> simp_all [columnOnLeft, columnOnRight, pure, Except.pure]

theorem tryComparison_sound (isPred : tryComparison e = some pred)
    (holds : ev.evaluateCondition row e = .ok true) : pred.Holds (pred.value ev row) := by
  cases e with
  | binary op left right =>
    simp only [tryComparison] at isPred
    split at isPred
    · rename_i tab col v isCol isVal
      obtain ⟨compareOp, isOp, rfl⟩ := map_eq_some_iff.mp isPred
      refine .inl ⟨op, isOp, ?_⟩
      exact compare_of_evalCond (eval_column isCol)
        (eval_literal isVal) (.inl (by rw [isOp]; rfl)) holds
    · split at isPred
      · rename_i tab col v isCol isVal
        obtain ⟨compareOp, isOp, rfl⟩ := map_eq_some_iff.mp isPred
        refine .inr ⟨op, isOp, ?_⟩
        exact compare_of_evalCond (eval_literal isVal)
          (eval_column isCol) (.inr (by rw [isOp]; rfl)) holds
      · cases isPred
  | _ => cases isPred

theorem evalCond_and_true {left right : Expr Q}
    (holds : ev.evaluateCondition row (.binary .and left right) = .ok true) :
    ev.evaluateCondition row left = .ok true ∧ ev.evaluateCondition row right = .ok true := by
  simp only [Evaluator.evaluateCondition, bind, Except.bind] at holds
  split at holds
  · cases holds
  · split at holds
    · cases holds
    · split at holds
      · cases holds
      · rename_i truth isLeft
        split at holds
        · rename_i isTrue
          exact ⟨isTrue ▸ isLeft, holds⟩
        · cases holds

theorem extract_sound {preds : List IndexColumnPredicate} (extracted : extract e = some preds)
    (holds : ev.evaluateCondition row e = .ok true)
    (mem : pred ∈ preds) : pred.Holds (pred.value ev row) := by
  induction e using extract.induct generalizing preds with
  | case1 left right ihLeft ihRight =>
    obtain ⟨leftHolds, rightHolds⟩ := evalCond_and_true holds
    simp only [extract, bind, pure, Option.bind_eq_some_iff, some.injEq] at extracted
    obtain ⟨leftPreds, isLeft, rightPreds, isRight, rfl⟩ := extracted
    rcases List.mem_append.mp mem with inLeft | inRight
    · exact ihLeft isLeft leftHolds inLeft
    · exact ihRight isRight rightHolds inRight
  | case2 left right => cases extracted
  | case3 e notAnd notOr =>
    rw [extract] at extracted
    · obtain ⟨single, isSingle, rfl⟩ := map_eq_some_iff.mp extracted
      obtain rfl := List.mem_singleton.mp mem
      exact tryComparison_sound isSingle holds
    · exact notAnd
    · exact notOr

end IndexColumnPredicate

/-! ## Comparisons that let a child in -/

namespace RangePartitionBound

/-- The range reaches to the side of the literal that the predicate asks for. -/
def Admits (bound : RangePartitionBound) (pred : IndexColumnPredicate) : Prop :=
  match pred.op with
  | .equal => bound.minInclusive.le pred.literal = true ∧ pred.literal.lt bound.maxExclusive = true
  | .less => bound.minInclusive.lt pred.literal = true
  | .lessEqual => bound.minInclusive.le pred.literal = true
  | .greater => bound.maxExclusive.le pred.literal = false
  | .greaterEqual => bound.maxExclusive.le pred.literal = false

theorem intersectsConstraint_iff (bound : RangePartitionBound) (pred : IndexColumnPredicate) :
    bound.intersectsConstraint (.ofPredicate pred) = true ↔ bound.Admits pred := by
  unfold intersectsConstraint ofPredicate Admits contains
  cases pred.op <;> simp [Value.gt]

end RangePartitionBound

namespace PartitionedTableMetadata

variable {Q : Type} {metadata : PartitionedTableMetadata}

theorem addPartition_ok {res : PartitionedTableMetadata} {descriptor : PartitionDescriptor}
    (added : metadata.addPartition descriptor = .ok res) :
    metadata.hasChild descriptor.childTableName = false ∧
      metadata.validateNewBound descriptor.bound = .ok () ∧
      res = { metadata with partitions := metadata.partitions ++ [descriptor] } := by
  unfold addPartition at added
  split at added
  · cases added
  · split at added
    · cases added
    · rename_i fresh
      cases valid : metadata.validateNewBound descriptor.bound with
      | error e =>
        rw [valid] at added
        cases added
      | ok _ =>
        rw [valid] at added
        cases added
        exact ⟨by simpa using fresh, rfl, rfl⟩

theorem Accepted.distinct (acc : metadata.Accepted) :
    (metadata.partitions.map (·.childTableName)).Nodup := by
  induction acc with
  | new kind keyColumn => exact List.nodup_nil
  | @add old res descriptor _ added ih =>
    obtain ⟨fresh, -, rfl⟩ := addPartition_ok added
    rw [List.map_append, List.nodup_append]
    refine ⟨ih, List.nodup_singleton _, ?_⟩
    rintro name inOld _ isNew rfl
    obtain rfl := List.mem_singleton.mp isNew
    obtain ⟨part, inParts, sameName⟩ := List.mem_map.mp inOld
    exact List.any_eq_false.mp fresh part inParts (by simpa using sameName)
  | remove _ childTableName ih =>
    exact ((List.eraseP_sublist).map _).nodup ih

theorem part_of_resolveChild (routed : metadata.resolveChild key = some child) :
    ∃ part ∈ metadata.partitions, part.takes metadata.kind key = true ∧
      part.childTableName = child ∧
      metadata.partitions.find? (fun part => part.takes metadata.kind key) = some part := by
  unfold resolveChild at routed
  split at routed
  · cases routed
  · obtain ⟨part, hit, rfl⟩ := map_eq_some_iff.mp routed
    exact ⟨part, List.mem_of_find?_eq_some hit, by simpa using List.find?_some hit, rfl, hit⟩

/-- The comparisons of WHERE with columns of the key's name let the child of a key in. -/
def Admits (metadata : PartitionedTableMetadata) (key : Value) (cond : Option (Expr Q)) : Prop :=
  match metadata.kind with
  | .range => ∀ part bound,
      metadata.partitions.find? (fun part => part.takes .range key) = some part →
      part.bound.range = some bound →
      ∀ pred ∈ keyPredicates metadata.keyColumn cond, bound.Admits pred
  | .hash => ∀ pred,
      (keyPredicates metadata.keyColumn cond).find? (fun pred => pred.op = .equal) = some pred →
      metadata.resolveChild pred.literal = metadata.resolveChild key

theorem find?_ofPredicate (preds : List IndexColumnPredicate) :
    (preds.map ofPredicate).find? (fun c => c.op = .equal) =
      (preds.find? (fun pred => pred.op = .equal)).map ofPredicate := by
  rw [List.find?_map]
  refine congrArg (Option.map _) (congrArg (preds.find? ·) (funext fun pred => ?_))
  obtain ⟨col, tab, op, lit⟩ := pred
  cases op <;> rfl

/-- The child of a key is kept exactly when it is let in. -/
theorem mem_listPrunedPartitions_iff (acc : metadata.Accepted)
    (routed : metadata.resolveChild key = some child) (cond : Option (Expr Q)) :
    child ∈ listPrunedPartitions metadata cond ↔ metadata.Admits key cond := by
  obtain ⟨part, inParts, taken, rfl, hit⟩ := part_of_resolveChild routed
  unfold listPrunedPartitions prune Admits buildPartitionPruneRequest
  cases isKind : metadata.kind with
  | range =>
    rw [isKind] at hit taken
    obtain ⟨bound, isBound, -⟩ : ∃ bound, part.bound.range = some bound ∧
        bound.contains key = true := by
      simpa [PartitionDescriptor.takes, Option.any_eq_true] using taken
    simp only [pruneRange, List.mem_map, List.mem_filter]
    constructor
    · rintro ⟨ne, ⟨inOther, kept⟩, sameName⟩ part' bound' found' isBound' pred mem
      obtain rfl : part = part' := some.inj (hit.symm.trans found')
      obtain rfl : ne = part :=
        List.inj_on_of_nodup_map acc.distinct inOther inParts sameName
      rw [isBound', any_some, List.all_map, List.all_eq_true] at kept
      exact (bound'.intersectsConstraint_iff pred).mp (kept pred mem)
    · intro admits
      refine ⟨part, ⟨inParts, ?_⟩, rfl⟩
      rw [isBound, any_some, List.all_map, List.all_eq_true]
      exact fun pred mem =>
        (bound.intersectsConstraint_iff pred).mpr (admits part bound hit isBound pred mem)
  | hash =>
    simp only [pruneHash, find?_ofPredicate]
    cases fst : (keyPredicates metadata.keyColumn cond).find? (fun pred => pred.op = .equal) with
    | none =>
      simp only [Option.map_none]
      exact ⟨fun _ _ => nofun, fun _ => List.mem_map.mpr ⟨part, inParts, rfl⟩⟩
    | some pred =>
      have isEqual : pred.op = .equal := by simpa using List.find?_some fst
      have lit : (ofPredicate pred).lower = pred.literal := by
        simp [ofPredicate, isEqual]
      simp only [Option.map_some, lit, Option.mem_toList, some.injEq]
      constructor
      · rintro kept _ rfl
        exact kept.trans routed.symm
      · exact fun admits => (admits pred rfl).trans routed

end PartitionedTableMetadata

/-! ## Comparisons of the key with values of its own type -/

section Ordered

variable {α : Type} [LinearOrder α]

/-- The values are compared as elements of a linear order. -/
structure Value.IsOrdered (f : α → Value) : Prop where
  lt : ∀ a b, (f a).lt (f b) = decide (a < b)
  eq : ∀ a b, (f a).eq (f b) = decide (a = b)

variable {f : α → Value}

variable (ord : Value.IsOrdered f)
include ord

theorem Value.IsOrdered.le (a b : α) : (f a).le (f b) = decide (a ≤ b) := by
  rw [Value.le, ord.lt, ord.eq, Bool.eq_iff_iff, Bool.or_eq_true, decide_eq_true_iff,
    decide_eq_true_iff, decide_eq_true_iff, le_iff_lt_or_eq]

theorem IndexColumnPredicate.Holds.ordered
    {a l : α} (isLiteral : pred.literal = f l) (holds : pred.Holds (f a)) :
    match pred.op with
    | .equal => a = l
    | .less => a < l
    | .lessEqual => a ≤ l
    | .greater => l < a
    | .greaterEqual => l ≤ a := by
  unfold Holds at holds
  rw [isLiteral] at holds
  rcases holds with ⟨op, isOp, holds⟩ | ⟨op, isOp, holds⟩
  · cases op <;> simp only [columnOnLeft, some.injEq, reduceCtorEq] at isOp <;>
      rw [← isOp] <;>
      simpa [Evaluator.compare, Value.gt, Value.ge, ord.lt, ord.eq, ord.le] using holds
  · cases op <;> simp only [columnOnRight, some.injEq, reduceCtorEq] at isOp <;>
      rw [← isOp] <;>
      simp only [Evaluator.compare, Value.gt, Value.ge, ord.lt, ord.eq, ord.le,
        Bool.not_eq_true', decide_eq_true_iff, decide_eq_false_iff_not, not_le, not_lt] at holds
    · exact holds.symm
    all_goals exact holds

theorem RangePartitionBound.admits_of_ordered {a l lower upper : α} {bound : RangePartitionBound}
    (isLower : bound.minInclusive = f lower) (isUpper : bound.maxExclusive = f upper)
    (isLiteral : pred.literal = f l) (contains : bound.contains (f a) = true)
    (holds : pred.Holds (f a)) : bound.Admits pred := by
  have isIn : lower ≤ a ∧ a < upper := by
    simpa [RangePartitionBound.contains, isLower, isUpper, ord.le, ord.lt] using contains
  have truth := holds.ordered ord isLiteral
  unfold Admits
  cases isOp : pred.op <;> simp only [isOp] at truth <;>
    simp only [isLower, isUpper, isLiteral, ord.lt, ord.le, decide_eq_true_iff,
      decide_eq_false_iff_not, not_le]
  · exact ⟨truth ▸ isIn.1, truth ▸ isIn.2⟩
  · exact isIn.1.trans_lt truth
  · exact isIn.1.trans truth
  · exact truth.trans isIn.2
  · exact truth.trans_lt isIn.2

end Ordered

theorem Value.isOrdered_int : Value.IsOrdered Value.int := ⟨fun _ _ => rfl, fun _ _ => rfl⟩

theorem Value.isOrdered_string : Value.IsOrdered Value.string := ⟨fun _ _ => rfl, fun _ _ => rfl⟩

theorem Value.isOrdered_bool : Value.IsOrdered Value.bool := by
  refine ⟨fun a b => ?_, fun a b => ?_⟩
  · cases a <;> cases b <;> decide
  · cases a <;> cases b <;> decide

/-- The values are all integers, all strings or all booleans. -/
def Value.SameType (values : List Value) : Prop :=
  (∀ v ∈ values, ∃ n, v = .int n) ∨ (∀ v ∈ values, ∃ text, v = .string text) ∨
    ∀ v ∈ values, ∃ b, v = .bool b

theorem Value.SameType.ordered {vals : List Value} (eq : Value.SameType vals) :
    ∃ (α : Type) (_ : LinearOrder α) (f : α → Value), Value.IsOrdered f ∧
      ∀ v ∈ vals, ∃ a, v = f a := by
  rcases eq with ints | strings | bools
  · exact ⟨Int, inferInstance, .int, Value.isOrdered_int, ints⟩
  · exact ⟨String, inferInstance, .string, Value.isOrdered_string, strings⟩
  · exact ⟨Bool, inferInstance, .bool, Value.isOrdered_bool, bools⟩

namespace PartitionedTableMetadata

variable {Q : Type} {metadata : PartitionedTableMetadata}

def rangeBounds (part : PartitionDescriptor) : List Value :=
  match part.bound.range with
  | none => []
  | some bound => [bound.minInclusive, bound.maxExclusive]

/-- Every comparison of WHERE with a column of the key's name is one of the key, with a literal
    of its type, and of the type of the bounds between which it lies. -/
def ComparesKey (metadata : PartitionedTableMetadata) (ev : Evaluator Q) (row : Row) (key : Value)
    (cond : Option (Expr Q)) : Prop :=
  ∀ pred ∈ keyPredicates metadata.keyColumn cond, pred.value ev row = key ∧
    ∀ part, metadata.partitions.find? (fun part => part.takes metadata.kind key) = some part →
      Value.SameType (key :: pred.literal :: rangeBounds part)

theorem holds_of_accepts {ev : Evaluator Q} {row : Row} {cond : Option (Expr Q)}
    {keyColumn : String} (accepts : Table.accepts ev cond row = .ok true)
    (mem : pred ∈ keyPredicates keyColumn cond) : pred.Holds (pred.value ev row) := by
  cases cond with
  | none => cases mem
  | some e =>
    obtain ⟨inPreds, -⟩ := List.mem_filter.mp mem
    cases extracted : IndexColumnPredicate.extract e with
    | none =>
      rw [extracted] at inPreds
      cases inPreds
    | some preds =>
      rw [extracted] at inPreds
      exact IndexColumnPredicate.extract_sound extracted accepts inPreds

theorem admits_of_comparesKey {ev : Evaluator Q} {row : Row}
    {cond : Option (Expr Q)} (routed : metadata.resolveChild key = some child)
    (compares : metadata.ComparesKey ev row key cond)
    (accepts : Table.accepts ev cond row = .ok true) : metadata.Admits key cond := by
  obtain ⟨part, -, taken, -, hit⟩ := part_of_resolveChild routed
  unfold Admits
  cases isKind : metadata.kind with
  | range =>
    intro part' bound found' isBound pred mem
    rw [isKind] at hit taken
    obtain rfl : part = part' := some.inj (hit.symm.trans found')
    obtain ⟨isKey, sameType⟩ := compares pred mem
    rw [isKind] at sameType
    obtain ⟨α, _, f, ord, all⟩ := (sameType part hit).ordered
    simp only [rangeBounds, isBound, List.mem_cons, List.not_mem_nil, or_false, forall_eq_or_imp,
      forall_eq] at all
    obtain ⟨⟨a, rfl⟩, ⟨l, isLiteral⟩, ⟨lower, isLower⟩, ⟨upper, isUpper⟩⟩ := all
    have contains : bound.contains (f a) = true := by
      simpa [PartitionDescriptor.takes, isBound] using taken
    refine RangePartitionBound.admits_of_ordered ord isLower isUpper isLiteral contains ?_
    exact isKey ▸ holds_of_accepts accepts mem
  | hash =>
    intro pred fst
    have mem := List.mem_of_find?_eq_some fst
    have isEqual : pred.op = .equal := by simpa using List.find?_some fst
    obtain ⟨isKey, sameType⟩ := compares pred mem
    obtain ⟨α, _, f, ord, all⟩ := (sameType part hit).ordered
    obtain ⟨a, rfl⟩ := all key (by simp)
    obtain ⟨l, isLiteral⟩ := all pred.literal (by simp)
    have truth := (isKey ▸ holds_of_accepts accepts mem : pred.Holds (f a)).ordered ord isLiteral
    simp only [isEqual] at truth
    rw [isLiteral, truth]

/-- For a row with a key that is routed to a child: the row does not satisfy WHERE or its child is
    kept, exactly when the row does not satisfy WHERE or the comparisons with the key's name let
    the child in. They do when each of them is one of the key with a literal of its type. -/
theorem pruning_keeps_child_iff (accepted : metadata.Accepted) (ev : Evaluator Q) (row : Row)
    (cond : Option (Expr Q)) {key : Value} {child : String}
    (routed : metadata.resolveChild key = some child) :
    ((Table.accepts ev cond row = .ok true → child ∈ listPrunedPartitions metadata cond) ↔
        (Table.accepts ev cond row = .ok true → metadata.Admits key cond)) ∧
      (metadata.ComparesKey ev row key cond → Table.accepts ev cond row = .ok true →
        child ∈ listPrunedPartitions metadata cond) := by
  have kept := mem_listPrunedPartitions_iff accepted routed cond
  refine ⟨imp_congr_right (fun _ => kept), fun compares accepts => ?_⟩
  exact kept.mpr (admits_of_comparesKey routed compares accepts)

/-- A table `p` by ranges of `id`: `p0` from 0 and `p1` from 10. -/
def byId : PartitionedTableMetadata :=
  { kind := .range
    keyColumn := "id"
    partitions :=
      [⟨"p0", { range := some ⟨.int 0, .int 10⟩ }⟩, ⟨"p1", { range := some ⟨.int 10, .int 20⟩ }⟩] }

theorem accepted_byId : byId.Accepted := by
  have fst : ({ kind := .range, keyColumn := "id" } : PartitionedTableMetadata).addPartition
      byId.partitions[0] = .ok { byId with partitions := byId.partitions.take 1 } := by decide
  have snd : ({ byId with partitions := byId.partitions.take 1 }).addPartition
      byId.partitions[1] = .ok byId := by decide
  exact .add (.add (.new .range "id") fst) snd

/-- `id = 5` keeps the child of the row with `id` 5. -/
theorem pruning_keeps_child_of_five : let functions : Functions :=
      ⟨fun _ _ err => .ok (.null, err), fun text _ => .ok (.string text)⟩
    let ev : Evaluator Empty := { functions, bindings := [⟨"p", "p", "id"⟩] }
    let row : Row := { values := [.int 5] }
    let cond : Option (Expr Empty) :=
      some (.binary .eq (.columnRef "" "id") (.literal (.int 5)))
    Table.accepts ev cond row = .ok true ∧ "p0" ∈ listPrunedPartitions byId cond := by
  intro functions ev row cond
  have accepts : Table.accepts ev cond row = .ok true := by decide +kernel
  have routed : byId.resolveChild (.int 5) = some "p0" := by decide
  refine ⟨accepts, (pruning_keeps_child_iff accepted_byId ev row cond routed).2 ?_ accepts⟩
  have only : keyPredicates byId.keyColumn cond = [⟨"id", "", .equal, .int 5⟩] := by decide +kernel
  have first : byId.partitions.find? (fun part => part.takes byId.kind (.int 5)) =
      some byId.partitions[0] := by decide
  intro pred member
  obtain rfl := List.mem_singleton.mp (only ▸ member)
  refine ⟨by decide +kernel, fun part found => .inl ?_⟩
  obtain rfl := Option.some.inj (found.symm.trans first)
  simp [rangeBounds, byId]

/-- `q.id = 15` in a join of `p` and `q`, of a row with 1 as `p.id` and 15 as `q.id`: the row
    satisfies it, and it prunes the child of `p.id`. -/
theorem join_condition_prunes_child : let functions : Functions :=
      ⟨fun _ _ err => .ok (.null, err), fun text _ => .ok (.string text)⟩
    let ev : Evaluator Empty := { functions, bindings := [⟨"p", "p", "id"⟩, ⟨"q", "q", "id"⟩] }
    let row : Row := { values := [.int 1, .int 15] }
    let cond : Option (Expr Empty) :=
      some (.binary .eq (.columnRef "q" "id") (.literal (.int 15)))
    byId.Accepted ∧ Table.accepts ev cond row = .ok true ∧ byId.resolveChild (.int 1) = some "p0" ∧
      listPrunedPartitions byId cond = ["p1"] := by
  intro functions ev row cond
  exact ⟨accepted_byId, by decide +kernel, by decide, by decide +kernel⟩

end PartitionedTableMetadata

end NobugDb
