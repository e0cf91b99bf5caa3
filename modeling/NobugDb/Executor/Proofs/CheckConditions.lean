import NobugDb.Core.TableConstraints
import NobugDb.Executor.Proofs.ThreeValued

/-!
# CHECK conditions and three-valued logic

`evaluate_check_tri` keeps three truth values, and a row passes unless it finds FALSE. It is
compared here with the value of the same expression in SQL. The connectives are those of SQL;
the two part at the leaves: an IN list that is UNKNOWN is taken for FALSE, a boolean column or
any other bare expression for TRUE, a condition used as an operand has a value of its own in
`evaluate_expression`, and arithmetic on NULL throws.
-/

namespace NobugDb

open Evaluator (TriBool arithmetic compareTri evaluateArguments evaluateCheckTri evaluateExpression
  inPredicate negate)
open Option (bind_eq_bind bind_eq_some_iff getD_some pure_def some.inj some.injEq)
open NobugDb.Expr (binary inList unary)

/-! ## The value of an expression in SQL -/

def BinOp.comparison? : BinOp → Option Comparison
  | .eq => some .eq
  | .ne => some .ne
  | .lt => some .lt
  | .le => some .le
  | .gt => some .gt
  | .ge => some .ge
  | _ => none

/-- The truth value of a boolean or of NULL; other values have none. -/
def Value.truth? : Value → Option TriBool
  | .bool b => some (.ofBool b)
  | .null => some .unknown
  | _ => none

def Evaluator.TriBool.toValue : TriBool → Value
  | .true => .bool Bool.true
  | .false => .bool Bool.false
  | .unknown => .null

/-- A binary operator in SQL: arithmetic on NULL is NULL, and otherwise the database's own. -/
def BinOp.sql (op : BinOp) (a b : Value) : Option Value :=
  match op.comparison? with
  | some comparison => some (comparison.sql a b).toValue
  | none =>
    match op with
    | .and => do return ((← a.truth?).and (← b.truth?)).toValue
    | .or => do return ((← a.truth?).or (← b.truth?)).toValue
    | op =>
      if a.isNull || b.isNull then some .null else (Evaluator.arithmetic op a b).toOption

namespace Expr

variable {Q : Type}

mutual

/-- The value of an expression in SQL. There is none where SQL has an error or does not allow
    the expression in a CHECK: a subquery, an aggregate or window function, an operand of the
    wrong type, a division by zero, a cast that fails. -/
def sqlValue (ev : Evaluator Q) (row : Row) : Expr Q → Option Value
  | .literal v => some v
  | .identifier name => some (ev.evaluateColumn row "" name none).1
  | .columnRef table column => some (ev.evaluateColumn row table column none).1
  | .parameter i => some ((ev.binds.bind (·[i]?)).getD .null)
  | .binary op left right => do op.sql (← sqlValue ev row left) (← sqlValue ev row right)
  | .unary .not e => do return (← (← sqlValue ev row e).truth?).not.toValue
  | .unary .minus e => do (Evaluator.negate .minus (← sqlValue ev row e)).toOption
  | .call name args window =>
    if window.isSome || Evaluator.isAggregate name.toLower then none
    else do
      let values ← sqlValues ev row args
      ((ev.functions.callFunction name values none).toOption).map Prod.fst
  | .cast e target => do
    let v ← sqlValue ev row e
    if v.isNull then return .null
    else (ev.functions.stringToValue v.toString target).toOption
  | .case whenThen none => sqlCase ev row whenThen (some .null)
  | .case whenThen (some otherwise) => sqlCase ev row whenThen (sqlValue ev row otherwise)
  | .inList _ [] _ => none
  | .inList left values isNot => do
    let found := sqlIn (← sqlValue ev row left) (← sqlValues ev row values)
    return (if isNot then found.not else found).toValue
  | .inSubquery _ _ _ => none
  | .exists _ _ => none
  | .subquery _ => none

def sqlValues (ev : Evaluator Q) (row : Row) : List (Expr Q) → Option (List Value)
  | [] => some []
  | e :: es => do return (← sqlValue ev row e) :: (← sqlValues ev row es)

/-- The first branch whose condition is TRUE. -/
def sqlCase (ev : Evaluator Q) (row : Row) : List (Expr Q × Expr Q) → Option Value → Option Value
  | [], otherwise => otherwise
  | (condition, value) :: rest, otherwise => do
    if (← (← sqlValue ev row condition).truth?) = .true then sqlValue ev row value
    else sqlCase ev row rest otherwise

end

/-- The truth value of an expression in SQL. -/
def sqlTruth? (ev : Evaluator Q) (row : Row) (e : Expr Q) : Option TriBool :=
  (e.sqlValue ev row).bind Value.truth?

def sqlTruth (ev : Evaluator Q) (row : Row) (e : Expr Q) : TriBool :=
  (e.sqlTruth? ev row).getD .unknown

end Expr

/-! ## What the evaluator makes of it -/

namespace Evaluator

variable {Q : Type}

/-- The value `evaluate_expression` has for an operand, NULL when it throws. -/
def value (ev : Evaluator Q) (row : Row) (e : Expr Q) : Value :=
  match ev.evaluateExpression row e none with
  | .ok (v, _) => v
  | .error _ => .null

/-- `evaluate_expression` throws. -/
def Throws (ev : Evaluator Q) (row : Row) (e : Expr Q) : Prop :=
  ∃ exn, ev.evaluateExpression row e none = .error exn

/-- Whether a truth value lets the row pass: under an even number of NOTs unless it is FALSE,
    under an odd number unless it is TRUE. -/
def TriBool.Passes (negated : Bool) (t : TriBool) : Prop :=
  if negated then t ≠ .true else t ≠ .false

end Evaluator

namespace Expr

variable {Q : Type}

/-- The condition goes astray under NOTs whose number is odd when `negated`, provided that
    nothing throws: one of `evaluate_check_tri`'s truth value and SQL's lets the row pass and
    the other does not. -/
def Strays (ev : Evaluator Q) (row : Row) : (negated : Bool) → Expr Q → Prop
  | false, .binary .and left right =>
    AndStrays ((left.sqlTruth ev row).Passes false) ((right.sqlTruth ev row).Passes false)
      (left.Strays ev row false) (right.Strays ev row false)
  | true, .binary .and left right =>
    OrStrays ((left.sqlTruth ev row).Passes true) ((right.sqlTruth ev row).Passes true)
      (left.Strays ev row true) (right.Strays ev row true)
  | false, .binary .or left right =>
    OrStrays ((left.sqlTruth ev row).Passes false) ((right.sqlTruth ev row).Passes false)
      (left.Strays ev row false) (right.Strays ev row false)
  | true, .binary .or left right =>
    AndStrays ((left.sqlTruth ev row).Passes true) ((right.sqlTruth ev row).Passes true)
      (left.Strays ev row true) (right.Strays ev row true)
  -- The operands are compared with the values `evaluate_expression` has for them.
  | negated, .binary op left right =>
    ¬ ((Evaluator.compareTri op (ev.value row left) (ev.value row right)).Passes negated ↔
      ((Expr.binary op left right).sqlTruth ev row).Passes negated)
  | negated, .unary .not e => e.Strays ev row !negated
  -- UNKNOWN is taken for FALSE.
  | negated, .inList left values isNot =>
    ¬ ((TriBool.ofBool (Evaluator.inResult isNot
        (Evaluator.matchInList (ev.value row left) (values.map (ev.value row))))).Passes negated ↔
      ((Expr.inList left values isNot).sqlTruth ev row).Passes negated)
  -- Everything else is taken for TRUE.
  | negated, e => if negated then e.sqlTruth ev row ≠ .true else e.sqlTruth ev row = .false

/-- A condition that does not throw is found FALSE. -/
def TakenFalse (ev : Evaluator Q) (row : Row) (e : Expr Q) : Prop :=
  e.sqlTruth ev row = .false ↔ ¬ e.Strays ev row false

/-- A condition that does not throw is found TRUE. -/
def TakenTrue (ev : Evaluator Q) (row : Row) (e : Expr Q) : Prop :=
  e.sqlTruth ev row = .true ↔ ¬ e.Strays ev row true

/-- An operand that is reached throws. The right side of AND is reached unless the left one is
    found FALSE, that of OR unless it is found TRUE. -/
def Raises (ev : Evaluator Q) (row : Row) : Expr Q → Prop
  | .binary .and left right =>
    left.Raises ev row ∨ (¬ left.TakenFalse ev row ∧ right.Raises ev row)
  | .binary .or left right =>
    left.Raises ev row ∨ (¬ left.TakenTrue ev row ∧ right.Raises ev row)
  | .binary _ left right => ev.Throws row left ∨ ev.Throws row right
  | .unary .not e => e.Raises ev row
  | .inList left values _ => ev.Throws row left ∨ ∃ e ∈ values, ev.Throws row e
  | _ => False

/-- The row is not judged as SQL does: an exception refuses it although the condition is not
    FALSE, or the condition goes astray. -/
def Misjudged (ev : Evaluator Q) (row : Row) (e : Expr Q) : Prop :=
  (e.Raises ev row ∧ e.sqlTruth ev row ≠ .false) ∨
    (¬ e.Raises ev row ∧ e.Strays ev row false)

end Expr

/-! ## The comparison -/

variable {e : Expr Q}

namespace Evaluator

variable {Q : Type} (ev : Evaluator Q) (row : Row)

theorem eval_value {e : Expr Q} (fine : ¬ ev.Throws row e) :
    ∃ err, ev.evaluateExpression row e none = .ok (ev.value row e, err) := by
  unfold Evaluator.value
  cases out : ev.evaluateExpression row e none with
  | error exn => exact absurd ⟨exn, out⟩ fine
  | ok p => exact ⟨p.2, rfl⟩

theorem evalValues_value {es : List (Expr Q)} (fine : ∀ e ∈ es, ¬ ev.Throws row e) :
    ev.evaluateValues row es = .ok (es.map (ev.value row)) := by
  induction es with
  | nil => simp only [evaluateValues, List.map_nil]
  | cons e es ih =>
    obtain ⟨err, value⟩ := eval_value ev row (fine e List.mem_cons_self)
    have values := ih (fun e mem => fine e (List.mem_cons_of_mem _ mem))
    simp only [evaluateValues, value, values, List.map_cons]
    rfl

theorem evalValues_throws {es : List (Expr Q)} (raises : ∃ e ∈ es, ev.Throws row e) :
    ∃ exn, ev.evaluateValues row es = .error exn := by
  induction es with
  | nil => simp at raises
  | cons e es ih =>
    by_cases head : ev.Throws row e
    · obtain ⟨exn, out⟩ := head
      refine ⟨exn, ?_⟩
      simp only [evaluateValues, out]
      rfl
    · obtain ⟨err, value⟩ := eval_value ev row head
      have tail : ∃ e ∈ es, ev.Throws row e := by
        obtain ⟨d, mem, throws⟩ := raises
        rcases List.mem_cons.mp mem with eq | mem
        · exact absurd (eq ▸ throws) head
        · exact ⟨d, mem, throws⟩
      obtain ⟨exn, out⟩ := ih tail
      refine ⟨exn, ?_⟩
      simp only [evaluateValues, value, out]
      rfl

end Evaluator

namespace Evaluator.TriBool

theorem passes_and_false (a b : TriBool) :
    (a.and b).Passes Bool.false ↔ a.Passes Bool.false ∧ b.Passes Bool.false := by
  cases a <;> cases b <;> simp [Passes, and]

theorem passes_and_true (a b : TriBool) :
    (a.and b).Passes Bool.true ↔ a.Passes Bool.true ∨ b.Passes Bool.true := by
  cases a <;> cases b <;> simp [Passes, and]

theorem passes_or_false (a b : TriBool) :
    (a.or b).Passes Bool.false ↔ a.Passes Bool.false ∨ b.Passes Bool.false := by
  cases a <;> cases b <;> simp [Passes, or]

theorem passes_or_true (a b : TriBool) :
    (a.or b).Passes Bool.true ↔ a.Passes Bool.true ∧ b.Passes Bool.true := by
  cases a <;> cases b <;> simp [Passes, or]

theorem passes_not (neg : Bool) (a : TriBool) : a.not.Passes neg ↔ a.Passes !neg := by
  cases neg <;> cases a <;> simp [Passes, not]

theorem truth?_toValue (t : TriBool) : t.toValue.truth? = some t := by
  cases t <;> rfl

end Evaluator.TriBool

namespace Expr

variable {Q : Type} (ev : Evaluator Q) (row : Row) {op : BinOp} {join : TriBool → TriBool → TriBool}
  {left right : Expr Q} {t a : TriBool} {v : Value}

theorem sqlTruth?_connective
    (connective : ∀ v w, op.sql v w = do return (join (← v.truth?) (← w.truth?)).toValue)
    (isTruth : (binary op left right).sqlTruth? ev row = some t) :
    ∃ a b, left.sqlTruth? ev row = some a ∧ right.sqlTruth? ev row = some b ∧ t = join a b := by
  simp only [sqlTruth?, sqlValue, connective, bind_eq_bind, bind_eq_some_iff,
    pure_def, some.injEq] at isTruth ⊢
  obtain ⟨_, ⟨v, isLeft, w, isRight, a, leftTruth, b, rightTruth, rfl⟩, isTruth⟩ := isTruth
  rw [TriBool.truth?_toValue, some.injEq] at isTruth
  exact ⟨a, b, ⟨v, isLeft, leftTruth⟩, ⟨w, isRight, rightTruth⟩, isTruth.symm⟩

theorem sqlTruth?_not {e : Expr Q} {t : TriBool}
    (isTruth : (unary .not e).sqlTruth? ev row = some t) :
    ∃ a, e.sqlTruth? ev row = some a ∧ t = a.not := by
  simp only [sqlTruth?, sqlValue, bind_eq_bind, bind_eq_some_iff, pure_def, some.injEq] at isTruth ⊢
  obtain ⟨_, ⟨v, isVal, a, isTruth, rfl⟩, outer⟩ := isTruth
  rw [TriBool.truth?_toValue, some.injEq] at outer
  exact ⟨a, ⟨v, isVal, isTruth⟩, outer.symm⟩

theorem sqlTruth_of_some {e : Expr Q} {t : TriBool} (isTruth : e.sqlTruth? ev row = some t) :
    e.sqlTruth ev row = t := by
  rw [sqlTruth, isTruth, getD_some]

/-- What `evaluate_check_tri` does with a condition that has the truth value `t` in SQL. -/
structure Judged (e : Expr Q) (t : TriBool) : Prop where
  raises : e.Raises ev row → ∃ exn, ev.evaluateCheckTri row e = .error exn
  finds : ¬ e.Raises ev row → ∃ u, ev.evaluateCheckTri row e = .ok u ∧
    ∀ negated, e.Strays ev row negated ↔ ¬ (u.Passes negated ↔ t.Passes negated)

theorem takenFalse_iff {e : Expr Q} {t u : TriBool} (isTruth : e.sqlTruth ev row = t)
    (strays : ∀ neg, e.Strays ev row neg ↔ ¬ (u.Passes neg ↔ t.Passes neg)) :
    e.TakenFalse ev row ↔ u = .false := by
  unfold TakenFalse
  rw [isTruth, strays]
  cases t <;> cases u <;> simp [TriBool.Passes]

theorem takenTrue_iff {e : Expr Q} {t u : TriBool} (isTruth : e.sqlTruth ev row = t)
    (strays : ∀ neg, e.Strays ev row neg ↔ ¬ (u.Passes neg ↔ t.Passes neg)) :
    e.TakenTrue ev row ↔ u = .true := by
  unfold TakenTrue
  rw [isTruth, strays]
  cases t <;> cases u <;> simp [TriBool.Passes]

/-- A connective that stops at one truth value of its left side. -/
theorem judged_stopping {b stop : TriBool} {taken : Prop} (stops : ∀ w, join stop w = stop)
    (code : ev.evaluateCheckTri row (.binary op left right) = (do
      let l ← ev.evaluateCheckTri row left
      if l = stop then return stop
      return join l (← ev.evaluateCheckTri row right)))
    (raises : (binary op left right).Raises ev row ↔
      left.Raises ev row ∨ (¬ taken ∧ right.Raises ev row))
    (isTaken : ∀ u, (∀ neg, left.Strays ev row neg ↔
      ¬ (u.Passes neg ↔ a.Passes neg)) → (taken ↔ u = stop))
    (strays : ∀ neg u w, (left.Strays ev row neg ↔ ¬ (u.Passes neg ↔ a.Passes neg)) →
      (u ≠ stop → (right.Strays ev row neg ↔ ¬ (w.Passes neg ↔ b.Passes neg))) →
      ((binary op left right).Strays ev row neg ↔
        ¬ ((join u w).Passes neg ↔ (join a b).Passes neg)))
    (isLeft : left.Judged ev row a) (isRight : right.Judged ev row b) :
    (binary op left right).Judged ev row (join a b) := by
  by_cases raisesLeft : left.Raises ev row
  · obtain ⟨exn, out⟩ := isLeft.raises raisesLeft
    refine ⟨fun _ => ⟨exn, ?_⟩, fun fine => absurd (raises.2 (.inl raisesLeft)) fine⟩
    rw [code, out]
    rfl
  obtain ⟨u, hit, leftStrays⟩ := isLeft.finds raisesLeft
  have taken := isTaken u leftStrays
  by_cases short : u = stop
  · -- The right side is not evaluated, whatever it would do.
    refine ⟨fun fails => ?_, fun _ => ⟨join u u, ?_, fun neg => ?_⟩⟩
    · obtain fails | ⟨notTaken, -⟩ := raises.1 fails
      · exact absurd fails raisesLeft
      · exact absurd (taken.2 short) notTaken
    · simp only [code, hit, short, stops, bind, Except.bind, if_true]
      rfl
    · exact strays neg u u (leftStrays neg) (absurd short)
  · refine ⟨fun fails => ?_, fun fine => ?_⟩
    · obtain fails | ⟨-, raisesRight⟩ := raises.1 fails
      · exact absurd fails raisesLeft
      · obtain ⟨exn, out⟩ := isRight.raises raisesRight
        refine ⟨exn, ?_⟩
        simp only [code, hit, out, bind, Except.bind, if_neg short]
    · obtain ⟨w, foundRight, rightStrays⟩ := isRight.finds (fun fails =>
        fine (raises.2 (.inr ⟨fun isTaken => short (taken.1 isTaken), fails⟩)))
      refine ⟨join u w, ?_, fun neg => ?_⟩
      · simp only [code, hit, foundRight, bind, Except.bind, if_neg short]
        rfl
      · exact strays neg u w (leftStrays neg) (fun _ => rightStrays neg)

theorem judged_and {left right : Expr Q} {a b : TriBool} (leftTruth : left.sqlTruth ev row = a)
    (rightTruth : right.sqlTruth ev row = b) (isLeft : left.Judged ev row a)
    (isRight : right.Judged ev row b) : (binary .and left right).Judged ev row (a.and b) := by
  refine judged_stopping ev row (fun _ => rfl) ?_ Iff.rfl
    (fun u => takenFalse_iff ev row leftTruth) (fun neg u w onLeft onRight => ?_) isLeft isRight
  · refine bind_congr (fun l => ite_congr rfl (fun _ => rfl) (fun reached => bind_congr (fun r => ?_)))
    cases l <;> cases r <;> simp_all [TriBool.and]
  · cases neg with
    | false =>
      simp only [Strays, leftTruth, rightTruth]
      rw [TriBool.passes_and_false, TriBool.passes_and_false]
      exact andStrays_iff onLeft onRight
    | true =>
      simp only [Strays, leftTruth, rightTruth]
      rw [TriBool.passes_and_true, TriBool.passes_and_true]
      exact orStrays_iff onLeft (fun stays => onRight (by rintro rfl; simp [TriBool.Passes] at stays))

theorem judged_or {left right : Expr Q} {a b : TriBool} (leftTruth : left.sqlTruth ev row = a)
    (rightTruth : right.sqlTruth ev row = b) (isLeft : left.Judged ev row a)
    (isRight : right.Judged ev row b) : (binary .or left right).Judged ev row (a.or b) := by
  refine judged_stopping ev row (fun _ => rfl) ?_ Iff.rfl
    (fun u => takenTrue_iff ev row leftTruth) (fun neg u w onLeft onRight => ?_) isLeft isRight
  · refine bind_congr (fun l => ite_congr rfl (fun _ => rfl) (fun reached => bind_congr (fun r => ?_)))
    cases l <;> cases r <;> simp_all [TriBool.or]
  · cases neg with
    | false =>
      simp only [Strays, leftTruth, rightTruth]
      rw [TriBool.passes_or_false, TriBool.passes_or_false]
      exact orStrays_iff onLeft (fun stays => onRight (by rintro rfl; simp [TriBool.Passes] at stays))
    | true =>
      simp only [Strays, leftTruth, rightTruth]
      rw [TriBool.passes_or_true, TriBool.passes_or_true]
      exact andStrays_iff onLeft onRight

theorem judged_not {e : Expr Q} {a : TriBool} (isJudged : e.Judged ev row a) :
    (unary .not e).Judged ev row a.not := by
  refine ⟨fun raises => ?_, fun fine => ?_⟩
  · obtain ⟨exn, out⟩ := isJudged.raises raises
    refine ⟨exn, ?_⟩
    simp only [evaluateCheckTri, out]
    rfl
  · obtain ⟨u, hit, strays⟩ := isJudged.finds fine
    refine ⟨u.not, ?_, fun neg => ?_⟩
    · simp only [evaluateCheckTri, hit, bind, Except.bind]
      cases u <;> rfl
    · rw [Strays, strays, TriBool.passes_not, TriBool.passes_not]

/-- A comparison; at this place an arithmetic operator is one too. -/
theorem judged_compare (notAnd : op ≠ .and)
    (notOr : op ≠ .or) (isTruth : (binary op left right).sqlTruth ev row = t) :
    (binary op left right).Judged ev row t := by
  have code : ev.evaluateCheckTri row (.binary op left right) = (do
        let l ← ev.evaluateExpression row left none
        let r ← ev.evaluateExpression row right none
        return compareTri op l.1 r.1) := by
    cases op <;> first | rfl | contradiction
  have raisesIff : (binary op left right).Raises ev row ↔
      ev.Throws row left ∨ ev.Throws row right := by
    cases op <;> first | rfl | contradiction
  have straysIff (neg : Bool) : (binary op left right).Strays ev row neg ↔
      ¬ ((compareTri op (ev.value row left) (ev.value row right)).Passes neg ↔
        t.Passes neg) := by
    rw [← isTruth]
    cases op <;> cases neg <;> first | rfl | contradiction
  refine ⟨fun raises => ?_, fun fine => ?_⟩
  · rw [code]
    by_cases throws : ev.Throws row left
    · obtain ⟨exn, out⟩ := throws
      refine ⟨exn, ?_⟩
      rw [out]
      rfl
    · obtain ⟨exn, out⟩ := (raisesIff.mp raises).resolve_left throws
      obtain ⟨err, value⟩ := Evaluator.eval_value ev row throws
      refine ⟨exn, ?_⟩
      rw [value, out]
      rfl
  · rw [raisesIff, not_or] at fine
    obtain ⟨_, leftValue⟩ := Evaluator.eval_value ev row fine.1
    obtain ⟨_, rightValue⟩ := Evaluator.eval_value ev row fine.2
    refine ⟨_, ?_, straysIff⟩
    rw [code, leftValue, rightValue]
    rfl

theorem judged_inList {left : Expr Q} {vals : List (Expr Q)} {isNot : Bool} {t : TriBool}
    (isTruth : (inList left vals isNot).sqlTruth ev row = t) :
    (inList left vals isNot).Judged ev row t := by
  refine ⟨fun raises => ?_, fun fine => ?_⟩
  · by_cases throws : ev.Throws row left
    · obtain ⟨exn, out⟩ := throws
      refine ⟨exn, ?_⟩
      simp only [evaluateCheckTri, inPredicate, out]
      rfl
    · obtain ⟨_, value⟩ := Evaluator.eval_value ev row throws
      obtain ⟨exn, out⟩ :=
        Evaluator.evalValues_throws ev row (Or.resolve_left raises throws)
      refine ⟨exn, ?_⟩
      simp only [evaluateCheckTri, inPredicate, value, out]
      rfl
  · have leftFine : ¬ ev.Throws row left := fun throws => fine (Or.inl throws)
    have valuesFine : ∀ e ∈ vals, ¬ ev.Throws row e :=
      fun e mem throws => fine (Or.inr ⟨e, mem, throws⟩)
    obtain ⟨_, value⟩ := Evaluator.eval_value ev row leftFine
    refine ⟨_, ?_, fun neg => by rw [Strays, isTruth]⟩
    simp only [evaluateCheckTri, inPredicate, value,
      Evaluator.evalValues_value ev row valuesFine]
    rfl

/-- Any other expression is taken for TRUE. -/
theorem judged_bare {e : Expr Q} {t : TriBool} (isTruth : e.sqlTruth ev row = t)
    (code : ev.evaluateCheckTri row e = .ok .true) (fine : ¬ e.Raises ev row)
    (bare : ∀ neg, e.Strays ev row neg ↔
      if neg then e.sqlTruth ev row ≠ .true else e.sqlTruth ev row = .false) :
    e.Judged ev row t := by
  refine ⟨fun raises => absurd raises fine, fun _ => ⟨.true, code, fun neg => ?_⟩⟩
  rw [bare, isTruth]
  cases neg <;> cases t <;> simp [TriBool.Passes]

/-- `evaluate_check_tri` on every expression, by the shape of its connectives. -/
theorem judged {t : TriBool} : (e : Expr Q) → e.sqlTruth? ev row = some t → e.Judged ev row t
  | .binary .and left right, isTruth => by
    obtain ⟨a, b, isLeft, isRight, rfl⟩ := sqlTruth?_connective ev row (fun _ _ => rfl) isTruth
    exact judged_and ev row (sqlTruth_of_some ev row isLeft) (sqlTruth_of_some ev row isRight)
      (judged left isLeft) (judged right isRight)
  | .binary .or left right, isTruth => by
    obtain ⟨a, b, isLeft, isRight, rfl⟩ := sqlTruth?_connective ev row (fun _ _ => rfl) isTruth
    exact judged_or ev row (sqlTruth_of_some ev row isLeft) (sqlTruth_of_some ev row isRight)
      (judged left isLeft) (judged right isRight)
  | .unary .not e, isTruth => by
    obtain ⟨a, inner, rfl⟩ := sqlTruth?_not ev row isTruth
    exact judged_not ev row (judged e inner)
  | .inList _ _ _, isTruth => judged_inList ev row (sqlTruth_of_some ev row isTruth)
  | .binary .eq _ _, isTruth | .binary .ne _ _, isTruth | .binary .lt _ _, isTruth
  | .binary .le _ _, isTruth | .binary .gt _ _, isTruth | .binary .ge _ _, isTruth
  | .binary .plus _ _, isTruth | .binary .minus _ _, isTruth | .binary .mul _ _, isTruth
  | .binary .div _ _, isTruth | .binary .mod _ _, isTruth =>
    judged_compare ev row nofun nofun (sqlTruth_of_some ev row isTruth)
  | .literal _, isTruth | .identifier _, isTruth | .columnRef _ _, isTruth
  | .parameter _, isTruth | .unary .minus _, isTruth | .call _ _ _, isTruth
  | .cast _ _, isTruth | .case _ _, isTruth | .exists _ _, isTruth | .subquery _, isTruth =>
    judged_bare ev row (sqlTruth_of_some ev row isTruth) rfl id
      (fun neg => by cases neg <;> rfl)
  | .inSubquery _ _ _, isTruth => by simp [sqlTruth?, sqlValue] at isTruth

/-! ## Plain operands -/

mutual

/-- An operand that holds no condition and no arithmetic on NULL. -/
def Plain (ev : Evaluator Q) (row : Row) : Expr Q → Prop
  | .literal _ | .identifier _ | .columnRef _ _ => True
  | .binary op left right =>
    op ∈ [BinOp.plus, .minus, .mul, .div, .mod] ∧ Plain ev row left ∧ Plain ev row right ∧
      left.sqlValue ev row ≠ some .null ∧ right.sqlValue ev row ≠ some .null
  | .unary .minus e => Plain ev row e
  | .cast e _ => Plain ev row e
  | .call _ args _ => PlainList ev row args
  | _ => False

def PlainList (ev : Evaluator Q) (row : Row) : List (Expr Q) → Prop
  | [] => True
  | e :: es => Plain ev row e ∧ PlainList ev row es

end

theorem ok_of_toOption {α : Type} {res : Except Exn α} {a : α} (eq : res.toOption = some a) :
    res = .ok a := by
  cases res with
  | error exn => cases eq
  | ok b => exact congrArg Except.ok (some.inj eq)

theorem arithmetic_of_sql {a b : Value}
    (isArithmetic : op ∈ [BinOp.plus, .minus, .mul, .div, .mod]) (left : a ≠ .null)
    (right : b ≠ .null) (inSql : op.sql a b = some v) : arithmetic op a b = .ok v := by
  have unfolded : op.sql a b =
      if a.isNull || b.isNull then some .null else (arithmetic op a b).toOption := by
    cases op <;> first | rfl | simp at isArithmetic
  have known : ¬ (a.isNull || b.isNull) = true := by simp [left, right]
  rw [unfolded, if_neg known] at inSql
  exact ok_of_toOption inSql

/-- A function called without a place for a message leaves none. -/
def Silent (ev : Evaluator Q) : Prop :=
  ∀ name vals v err, ev.functions.callFunction name vals none = .ok (v, err) → err = none

mutual

/-- Plain operands have their SQL values. -/
theorem evaluateExpression_of_plain (quiet : Silent ev) {v : Value} :
    (e : Expr Q) → e.Plain ev row → e.sqlValue ev row = some v →
      ev.evaluateExpression row e none = .ok (v, none)
  | .literal w, _, isVal => by
    simp only [sqlValue, some.injEq] at isVal
    simp only [evaluateExpression, isVal]
  | .identifier name, _, isVal => by
    simp only [sqlValue, some.injEq] at isVal
    simp only [evaluateExpression, Except.ok.injEq]
    exact Prod.ext isVal (ev.evaluateColumn_none row "" name)
  | .columnRef table column, _, isVal => by
    simp only [sqlValue, some.injEq] at isVal
    simp only [evaluateExpression, Except.ok.injEq]
    exact Prod.ext isVal (ev.evaluateColumn_none row table column)
  | .binary op left right, plain, isVal => by
    obtain ⟨isArithmetic, plainLeft, plainRight, leftKnown, rightKnown⟩ := plain
    simp only [sqlValue, bind_eq_bind, bind_eq_some_iff] at isVal
    obtain ⟨a, isLeft, b, isRight, isVal⟩ := isVal
    have noNull := arithmetic_of_sql isArithmetic (fun eq => leftKnown (eq ▸ isLeft))
      (fun eq => rightKnown (eq ▸ isRight)) isVal
    simp only [evaluateExpression,
      evaluateExpression_of_plain quiet left plainLeft isLeft,
      evaluateExpression_of_plain quiet right plainRight isRight, bind, Except.bind, noNull]
    rfl
  | .unary .minus e, plain, isVal => by
    simp only [sqlValue, bind_eq_bind, bind_eq_some_iff] at isVal
    obtain ⟨a, inner, isVal⟩ := isVal
    simp only [evaluateExpression, evaluateExpression_of_plain quiet e plain inner,
      bind, Except.bind, ok_of_toOption isVal]
    rfl
  | .cast e target, plain, isVal => by
    simp only [sqlValue, bind_eq_bind, bind_eq_some_iff] at isVal
    obtain ⟨a, inner, isVal⟩ := isVal
    simp only [evaluateExpression, evaluateExpression_of_plain quiet e plain inner,
      bind, Except.bind]
    split at isVal
    · rename_i null
      rw [if_pos null]
      rw [← some.inj isVal]
      rfl
    · rename_i known
      rw [if_neg known, ok_of_toOption isVal]
      rfl
  | .call name args window, plain, isVal => by
    simp only [sqlValue] at isVal
    split at isVal
    · simp at isVal
    · rename_i ordinary
      rw [Bool.or_eq_true, not_or] at ordinary
      simp only [bind_eq_bind, bind_eq_some_iff, Option.map_eq_some_iff]
        at isVal
      obtain ⟨vals, areValues, p, called, isVal⟩ := isVal
      simp only [evaluateExpression, if_neg ordinary.1, if_neg ordinary.2,
        evalArgs_of_plain quiet args plain areValues, bind, Except.bind]
      have out := ok_of_toOption called
      rw [out, ← isVal, ← quiet name vals p.1 p.2 out]

theorem evalArgs_of_plain (quiet : Silent ev) {vs : List Value} :
    (es : List (Expr Q)) → PlainList ev row es → sqlValues ev row es = some vs →
      ev.evaluateArguments row es none = .ok (some vs, none)
  | [], _, areValues => by
    simp only [sqlValues, some.injEq] at areValues
    simp only [evaluateArguments, areValues]
  | e :: es, plain, areValues => by
    simp only [sqlValues, bind_eq_bind, bind_eq_some_iff, pure_def,
      some.injEq] at areValues
    obtain ⟨v, isVal, ws, rest, rfl⟩ := areValues
    simp only [evaluateArguments,
      evaluateExpression_of_plain quiet e plain.1 isVal,
      evalArgs_of_plain quiet es plain.2 rest, bind, Except.bind]
    rfl

end

theorem value_of_plain (quiet : Silent ev) {e : Expr Q} {v : Value} (plain : e.Plain ev row)
    (isVal : e.sqlValue ev row = some v) : ev.value row e = v := by
  rw [Evaluator.value, evaluateExpression_of_plain ev row quiet e plain isVal]

end Expr

section Runs

/-- `CHECK (status IN ('open', 'closed'))`. -/
private def statusCheck : Expr Empty :=
  .inList (.columnRef "" "status") [.literal (.string "open"), .literal (.string "closed")] false

private def tickets : Table :=
  { name := "tickets", columns := [⟨"id", .int, true, true, false, none⟩,
      ⟨"status", .string, true, false, false, none⟩, ⟨"paid", .boolean, true, false, false, none⟩],
    checks := [⟨"ck_1", some statusCheck⟩] }

private def noFunctions : Functions :=
  ⟨fun _ _ err => .ok (.null, err), fun text _ => .ok (.string text)⟩

end Runs

end NobugDb
