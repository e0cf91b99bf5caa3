import NobugDb.Executor.Evaluator

/-!
# WHERE conditions and three-valued logic

`evaluate_condition` decides with two truth values. It is compared here with SQL's logic, in
which a comparison with NULL is UNKNOWN and only TRUE passes. The two differ at the leaves of
a condition: at comparisons with NULL, at boolean columns and literals, which the evaluator
takes for true, and at IN lists under NOT. What becomes of it further up depends on the
operands it is combined with.
-/

namespace NobugDb

open Evaluator (TriBool evaluateCondition evaluateExpression evaluateValues inResult matchInList
  negate)
open Value

inductive Comparison where
  | eq | ne | lt | le | gt | ge
  deriving DecidableEq, Repr

def Comparison.binOp : Comparison → BinOp
  | .eq => .eq
  | .ne => .ne
  | .lt => .lt
  | .le => .le
  | .gt => .gt
  | .ge => .ge

/-- A column, a literal, or a negative number, which is parsed as a negated literal. -/
inductive Operand where
  | literal (value : Value)
  | column (table name : String)
  | negative (magnitude : Int)

/-- A WHERE condition over columns and literals. -/
inductive Condition where
  | compare (op : Comparison) (left right : Operand)
  | and (left right : Condition)
  | or (left right : Condition)
  | not (condition : Condition)
  | inList (left first : Operand) (rest : List Operand) (isNot : Bool)
  | between (operand lower upper : Operand)
  | truth (operand : Operand)

namespace Operand

variable {Q : Type}

def toExpr : Operand → Expr Q
  | .literal value => .literal value
  | .column table name => .columnRef table name
  | .negative magnitude => .unary .minus (.literal (.int magnitude))

def value (ev : Evaluator Q) (row : Row) : Operand → Value
  | .literal value => value
  | .column table name => (ev.evaluateColumn row table name none).1
  | .negative magnitude => .int (Value.wrap64 (-magnitude))

end Operand

/-- The condition as it is parsed (`parser.cc:1471-1578`). -/
def Condition.toExpr {Q : Type} : Condition → Expr Q
  | .compare op left right => .binary op.binOp left.toExpr right.toExpr
  | .and left right => .binary .and left.toExpr right.toExpr
  | .or left right => .binary .or left.toExpr right.toExpr
  | .not condition => .unary .not condition.toExpr
  | .inList left first rest isNot =>
    .inList left.toExpr (first.toExpr :: rest.map Operand.toExpr) isNot
  | .between operand lower upper =>
    .binary .and (.binary .ge operand.toExpr lower.toExpr) (.binary .le operand.toExpr upper.toExpr)
  | .truth operand => operand.toExpr

/-! ## Three-valued logic -/

namespace Evaluator.TriBool

/-- The truth value of a decided fact. -/
def ofBool (b : Bool) : TriBool := if b then .true else .false

def and : TriBool → TriBool → TriBool
  | .false, _ | _, .false => .false
  | .true, .true => .true
  | _, _ => .unknown

def or : TriBool → TriBool → TriBool
  | .true, _ | _, .true => .true
  | .false, .false => .false
  | _, _ => .unknown

def not : TriBool → TriBool
  | .true => .false
  | .false => .true
  | .unknown => .unknown

end Evaluator.TriBool

/-- A comparison in SQL: UNKNOWN with NULL, and otherwise what the database's comparison says. -/
def Comparison.sql (op : Comparison) (left right : Value) : TriBool :=
  if left.isNull || right.isNull then .unknown else .ofBool (Evaluator.compare op.binOp left right)

/-- `left IN (values)` in SQL: the disjunction of the equalities. -/
def sqlIn (left : Value) (values : List Value) : TriBool :=
  values.foldr (fun v found => (Comparison.eq.sql v left).or found) .false

/-- The truth value of a boolean column or literal. -/
def sqlTruth : Value → TriBool
  | .bool b => .ofBool b
  | _ => .unknown

namespace Condition

variable {Q : Type}

/-- The condition in SQL. -/
def sql (ev : Evaluator Q) (row : Row) : Condition → TriBool
  | .compare op left right => op.sql (left.value ev row) (right.value ev row)
  | .and left right => (left.sql ev row).and (right.sql ev row)
  | .or left right => (left.sql ev row).or (right.sql ev row)
  | .not condition => (condition.sql ev row).not
  | .inList left first rest isNot =>
    let found := sqlIn (left.value ev row) ((first :: rest).map (Operand.value ev row))
    if isNot then found.not else found
  | .between operand lower upper =>
    (Comparison.ge.sql (operand.value ev row) (lower.value ev row)).and
      (Comparison.le.sql (operand.value ev row) (upper.value ev row))
  | .truth operand => sqlTruth (operand.value ev row)

/-! ## What the evaluator does -/

/-- What `evaluate_condition` says of a condition. -/
def accepts (ev : Evaluator Q) (row : Row) : Condition → Bool
  | .compare op left right => Evaluator.compare op.binOp (left.value ev row) (right.value ev row)
  | .and left right => left.accepts ev row && right.accepts ev row
  | .or left right => left.accepts ev row || right.accepts ev row
  | .not condition => !condition.accepts ev row
  | .inList left first rest isNot =>
    Evaluator.inResult isNot
      (Evaluator.matchInList (left.value ev row) ((first :: rest).map (Operand.value ev row)))
  | .between operand lower upper =>
    (operand.value ev row).ge (lower.value ev row) && (operand.value ev row).le (upper.value ev row)
  | .truth _ => true

end Condition

open Condition (toExpr accepts)

section Evaluation

variable {Q : Type} (ev : Evaluator Q) (row : Row)

theorem eval_operand (operand : Operand) :
    ev.evaluateExpression row operand.toExpr none = .ok (operand.value ev row, none) := by
  cases operand with
  | literal value => simp only [Operand.toExpr, evaluateExpression, Operand.value]
  | column table name =>
    simp only [Operand.toExpr, evaluateExpression, Operand.value, Except.ok.injEq]
    exact Prod.ext rfl (ev.evaluateColumn_none row table name)
  | negative magnitude =>
    simp only [Operand.toExpr, evaluateExpression, Operand.value]
    rfl

theorem evalValues_operands (operands : List Operand) :
    ev.evaluateValues row (operands.map Operand.toExpr) =
      .ok (operands.map (Operand.value ev row)) := by
  induction operands with
  | nil => simp only [List.map_nil, evaluateValues]
  | cons operand operands ih =>
    simp only [List.map_cons, evaluateValues, eval_operand, ih]
    rfl

theorem negate_not_ok (v : Value) : ∃ w, negate .not v = .ok w := by
  cases v <;> exact ⟨_, rfl⟩

variable {left right : Expr Q}

theorem eval_binary {op : BinOp} {l r : Value} {err err₁ err₂ : Option String}
    (noArithmetic : Evaluator.arithmetic op l r = .ok .null)
    (isLeft : ev.evaluateExpression row left err = .ok (l, err₁))
    (isRight : ev.evaluateExpression row right err₁ = .ok (r, err₂)) :
    ev.evaluateExpression row (.binary op left right) err = .ok (.null, err₂) := by
  simp only [evaluateExpression, isLeft, isRight, bind, Except.bind, noArithmetic]
  rfl

theorem eval_cmp (op : Comparison) (left right : Operand) :
    ev.evaluateExpression row (.binary op.binOp left.toExpr right.toExpr) none =
      .ok (.null, none) :=
  eval_binary ev row (by cases op <;> rfl) (eval_operand ev row left) (eval_operand ev row right)

/-- A condition has some value as an expression too: no operand makes the evaluator throw. -/
theorem eval_condition (c : Condition) :
    ∃ v, ev.evaluateExpression row c.toExpr none = .ok (v, none) := by
  induction c with
  | compare op left right => exact ⟨_, eval_cmp ev row op left right⟩
  | and left right ihLeft ihRight | or left right ihLeft ihRight =>
    obtain ⟨l, isLeft⟩ := ihLeft
    obtain ⟨r, isRight⟩ := ihRight
    exact ⟨.null, eval_binary ev row rfl isLeft isRight⟩
  | not c ih =>
    obtain ⟨v, isVal⟩ := ih
    obtain ⟨w, negated⟩ := negate_not_ok v
    refine ⟨w, ?_⟩
    simp only [toExpr, evaluateExpression, isVal, bind, Except.bind, negated]
    rfl
  | inList left fst rest isNot =>
    simp only [toExpr, evaluateExpression, eval_operand,
      ← List.map_cons, evalValues_operands]
    exact ⟨_, rfl⟩
  | between operand lower upper =>
    exact ⟨.null, eval_binary ev row rfl (eval_cmp ev row .ge operand lower)
      (eval_cmp ev row .le operand upper)⟩
  | truth operand => exact ⟨_, eval_operand ev row operand⟩

theorem evalCond_cmp (op : Comparison) (left right : Operand) :
    ev.evaluateCondition row (.binary op.binOp left.toExpr right.toExpr) =
      .ok (Evaluator.compare op.binOp (left.value ev row) (right.value ev row)) := by
  simp only [evaluateCondition, eval_operand, bind, Except.bind]
  cases op <;> rfl

theorem evalCond_logical {l r : Value} {a b : Bool}
    (isLeft : ev.evaluateExpression row left none = .ok (l, none))
    (isRight : ev.evaluateExpression row right none = .ok (r, none))
    (leftTruth : ev.evaluateCondition row left = .ok a)
    (rightTruth : ev.evaluateCondition row right = .ok b) :
    ev.evaluateCondition row (.binary .and left right) = .ok (a && b) ∧
      ev.evaluateCondition row (.binary .or left right) = .ok (a || b) := by
  simp only [evaluateCondition, isLeft, isRight, leftTruth, rightTruth, bind, Except.bind]
  cases a <;> exact ⟨rfl, rfl⟩

theorem evalCond_eq (c : Condition) :
    ev.evaluateCondition row c.toExpr = .ok (c.accepts ev row) := by
  induction c with
  | compare op left right => exact evalCond_cmp ev row op left right
  | and left right ihLeft ihRight =>
    obtain ⟨l, isLeft⟩ := eval_condition ev row left
    obtain ⟨r, isRight⟩ := eval_condition ev row right
    exact (evalCond_logical ev row isLeft isRight ihLeft ihRight).1
  | or left right ihLeft ihRight =>
    obtain ⟨l, isLeft⟩ := eval_condition ev row left
    obtain ⟨r, isRight⟩ := eval_condition ev row right
    exact (evalCond_logical ev row isLeft isRight ihLeft ihRight).2
  | not c ih =>
    simp only [toExpr, evaluateCondition, ih, accepts]
    rfl
  | inList left fst rest isNot =>
    simp only [toExpr, evaluateCondition, eval_operand,
      ← List.map_cons, evalValues_operands, accepts]
    rfl
  | between operand lower upper =>
    exact (evalCond_logical ev row (eval_cmp ev row .ge operand lower)
      (eval_cmp ev row .le operand upper) (evalCond_cmp ev row .ge operand lower)
      (evalCond_cmp ev row .le operand upper)).1
  | truth operand => cases operand <;> rfl

end Evaluation

/-! ## Conditions as values -/

namespace Condition

/-- No bare operand stands for a condition. -/
def isLogical : Condition → Bool
  | .and left right | .or left right => left.isLogical && right.isLogical
  | .not condition => condition.isLogical
  | .truth _ => false
  | _ => true

/-- An IN list, under any number of NOTs. -/
def isMembership : Condition → Bool
  | .inList _ _ _ _ => true
  | .not condition => condition.isMembership
  | _ => false

end Condition

section Values

variable {Q : Type} (ev : Evaluator Q) (row : Row)

theorem eval_cmp_null (op : Comparison) (left right : Operand)
    (err : Option String) : ∃ err',
      ev.evaluateExpression row (.binary op.binOp left.toExpr right.toExpr) err =
        .ok (.null, err') := by
  have operand_ok (operand : Operand) (err : Option String) :
      ∃ v err', ev.evaluateExpression row operand.toExpr err = .ok (v, err') := by
    cases operand <;> exact ⟨_, _, rfl⟩
  obtain ⟨l, err₁, isLeft⟩ := operand_ok left err
  obtain ⟨r, err₂, isRight⟩ := operand_ok right err₁
  exact ⟨err₂, eval_binary ev row (by cases op <;> rfl) isLeft isRight⟩

/-- In a select list or a SET clause only an IN list, and what NOT makes of one, has a truth
    value. Any other condition is NULL. -/
theorem eval_logical (c : Condition) (logical : c.isLogical = true)
    (err : Option String) : ∃ err', ev.evaluateExpression row c.toExpr err =
      .ok (if c.isMembership then .bool (c.accepts ev row) else .null, err') := by
  induction c generalizing err with
  | compare op left right => exact eval_cmp_null ev row op left right err
  | and left right ihLeft ihRight | or left right ihLeft ihRight =>
    simp only [Condition.isLogical, Bool.and_eq_true] at logical
    obtain ⟨err₁, isLeft⟩ := ihLeft logical.1 err
    obtain ⟨err₂, isRight⟩ := ihRight logical.2 err₁
    exact ⟨err₂, eval_binary ev row rfl isLeft isRight⟩
  | not c ih =>
    obtain ⟨err', isVal⟩ := ih logical err
    refine ⟨err', ?_⟩
    simp only [toExpr, evaluateExpression, isVal, bind, Except.bind]
    by_cases mem : c.isMembership = true
    · rw [if_pos mem, if_pos (show c.not.isMembership = true from mem)]
      rfl
    · rw [if_neg mem, if_neg (show ¬ c.not.isMembership = true from mem)]
      rfl
  | inList left fst rest isNot =>
    simp only [toExpr, evaluateExpression, eval_operand,
      ← List.map_cons, evalValues_operands]
    exact ⟨err, rfl⟩
  | between operand lower upper =>
    obtain ⟨err₁, isLower⟩ := eval_cmp_null ev row .ge operand lower err
    obtain ⟨err₂, isUpper⟩ := eval_cmp_null ev row .le operand upper err₁
    exact ⟨err₂, eval_binary ev row rfl isLower isUpper⟩
  | truth operand => cases logical

/-- A condition is TRUE as a value just for the rows it accepts in a WHERE clause only when it
    is an IN list under NOTs, or when it does not hold for the row. -/
theorem evaluateExpression_true_iff_accepted_iff (c : Condition) (logical : c.isLogical = true)
    (err : Option String) :
    ((∃ err', ev.evaluateExpression row c.toExpr err = .ok (.bool true, err')) ↔
        ev.evaluateCondition row c.toExpr = .ok true) ↔
      (c.isMembership = true ∨ c.accepts ev row = false) := by
  obtain ⟨err', isValue⟩ := eval_logical ev row c logical err
  rw [evalCond_eq, isValue]
  cases c.isMembership <;> cases c.accepts ev row <;> simp

end Values

/-- `balance = 1` of a row whose balance is 1: NULL in a select list, and a WHERE clause accepts
    the row. -/
theorem comparison_without_value : let functions : Functions :=
      ⟨fun _ _ err => .ok (.null, err), fun text _ => .ok (.string text)⟩
    let ev : Evaluator Empty := { functions, bindings := [⟨"accounts", "accounts", "balance"⟩] }
    let row : Row := { values := [.int 1] }
    let c : Condition := .compare .eq (.column "" "balance") (.literal (.int 1))
    ev.evaluateExpression row c.toExpr (some "") = .ok (.null, some "") ∧
      ev.evaluateCondition row c.toExpr = .ok true := by
  exact ⟨rfl, rfl⟩

/-- `balance IN (1)` of the same row is TRUE in both places. -/
theorem membership_has_value : let functions : Functions :=
      ⟨fun _ _ err => .ok (.null, err), fun text _ => .ok (.string text)⟩
    let ev : Evaluator Empty := { functions, bindings := [⟨"accounts", "accounts", "balance"⟩] }
    let row : Row := { values := [.int 1] }
    let c : Condition := .inList (.column "" "balance") (.literal (.int 1)) [] false
    (∃ err, ev.evaluateExpression row c.toExpr (some "") = .ok (.bool true, err)) ↔
      ev.evaluateCondition row c.toExpr = .ok true := by
  intro functions ev row c
  exact (evaluateExpression_true_iff_accepted_iff ev row c rfl (some "")).2 (.inl rfl)

/-! ## Where the two differ -/

/-- The comparison operators that take a comparison with NULL for true, by which side is NULL. -/
def Comparison.acceptsNull : Comparison → (left right : Bool) → Bool
  | .eq, left, right => left && right
  | .ne, left, right => left != right
  | .lt, left, right => left && !right
  | .le, left, _ => left
  | .gt, left, right => !left && right
  | .ge, _, right => right

/-- Whether a subcondition should count as true: under an even number of NOTs when it is TRUE,
    under an odd number when it is not FALSE. -/
def Evaluator.TriBool.Counts (negated : Bool) (t : TriBool) : Prop :=
  if negated then t ≠ .false else t = .true

/-- AND goes astray: both operands count and one of them strays, or the operands that stray are
    just those that do not count. -/
def AndStrays (leftCounts rightCounts leftStrays rightStrays : Prop) : Prop :=
  (leftCounts ∧ rightCounts ∧ (leftStrays ∨ rightStrays)) ∨
    (¬ (leftCounts ∧ rightCounts) ∧ (leftStrays ↔ ¬ leftCounts) ∧ (rightStrays ↔ ¬ rightCounts))

/-- OR goes astray: no operand counts and one of them strays, or the operands that stray are just
    those that count. -/
def OrStrays (leftCounts rightCounts leftStrays rightStrays : Prop) : Prop :=
  (¬ leftCounts ∧ ¬ rightCounts ∧ (leftStrays ∨ rightStrays)) ∨
    ((leftCounts ∨ rightCounts) ∧ (leftStrays ↔ leftCounts) ∧ (rightStrays ↔ rightCounts))

/-- A comparison strays when an operand is NULL and the operator takes that for true, or under
    an odd number of NOTs does not. -/
def Comparison.Strays (op : Comparison) (negated : Bool) (left right : Value) : Prop :=
  (left.isNull = true ∨ right.isNull = true) ∧ op.acceptsNull left.isNull right.isNull = !negated

namespace Condition

variable {Q : Type}

/-- The condition goes astray under NOTs whose number is odd when `negated`. -/
def Strays (ev : Evaluator Q) (row : Row) : (negated : Bool) → Condition → Prop
  | negated, .compare op left right => op.Strays negated (left.value ev row) (right.value ev row)
  | negated, .and left right =>
    AndStrays ((left.sql ev row).Counts negated) ((right.sql ev row).Counts negated)
      (left.Strays ev row negated) (right.Strays ev row negated)
  | negated, .or left right =>
    OrStrays ((left.sql ev row).Counts negated) ((right.sql ev row).Counts negated)
      (left.Strays ev row negated) (right.Strays ev row negated)
  | negated, .not condition => condition.Strays ev row !negated
  -- An IN list is UNKNOWN when its left side is NULL, or nothing in it is equal and NULL is in it.
  | negated, .inList left first rest _ =>
    negated = true ∧
      ((left.value ev row).isNull = true ∨
        ((∀ v ∈ (first :: rest).map (Operand.value ev row),
            v.isNull = true ∨ v.eq (left.value ev row) = false) ∧
          ∃ v ∈ (first :: rest).map (Operand.value ev row), v.isNull = true))
  | negated, .between operand lower upper =>
    AndStrays
      ((Comparison.ge.sql (operand.value ev row) (lower.value ev row)).Counts negated)
      ((Comparison.le.sql (operand.value ev row) (upper.value ev row)).Counts negated)
      (Comparison.ge.Strays negated (operand.value ev row) (lower.value ev row))
      (Comparison.le.Strays negated (operand.value ev row) (upper.value ev row))
  | false, .truth operand => operand.value ev row ≠ .bool true
  | true, .truth operand => operand.value ev row = .bool false

end Condition

section Combined

variable {left right leftCounts rightCounts leftStrays rightStrays : Prop}

/-- A decision that should be `counts` strays when it differs from it; the right side matters only
    where the left one has not decided. -/
theorem andStrays_iff (isLeft : leftStrays ↔ ¬ (left ↔ leftCounts))
    (isRight : left → (rightStrays ↔ ¬ (right ↔ rightCounts))) :
    AndStrays leftCounts rightCounts leftStrays rightStrays ↔
      ¬ (left ∧ right ↔ leftCounts ∧ rightCounts) := by
  unfold AndStrays
  tauto

theorem orStrays_iff (isLeft : leftStrays ↔ ¬ (left ↔ leftCounts))
    (isRight : ¬ left → (rightStrays ↔ ¬ (right ↔ rightCounts))) :
    OrStrays leftCounts rightCounts leftStrays rightStrays ↔
      ¬ (left ∨ right ↔ leftCounts ∨ rightCounts) := by
  unfold OrStrays
  tauto

end Combined

namespace Evaluator.TriBool

variable (negated : Bool)

theorem counts_and (a b : TriBool) :
    (a.and b).Counts negated ↔ a.Counts negated ∧ b.Counts negated := by
  cases negated <;> cases a <;> cases b <;> simp [Counts, and]

theorem counts_or (a b : TriBool) :
    (a.or b).Counts negated ↔ a.Counts negated ∨ b.Counts negated := by
  cases negated <;> cases a <;> cases b <;> simp [Counts, or]

theorem counts_not (a : TriBool) : a.not.Counts negated ↔ ¬ a.Counts !negated := by
  cases negated <;> cases a <;> simp [Counts, not]

end Evaluator.TriBool

variable (op : Comparison) (left : Value) (values : List Value)

theorem compare_null {left right : Value} (null : left.isNull = true ∨ right.isNull = true) :
    Evaluator.compare op.binOp left right = op.acceptsNull left.isNull right.isNull := by
  cases op <;> cases left <;> cases right <;> simp_all [Evaluator.compare, Comparison.binOp,
    Comparison.acceptsNull, Value.eq, Value.lt, Value.le, gt, ge, isNull]

theorem cmp_strays_iff (negated : Bool) (left right : Value) :
    op.Strays negated left right ↔
      ¬ (Evaluator.compare op.binOp left right = true ↔ (op.sql left right).Counts negated) := by
  unfold Comparison.Strays Comparison.sql
  by_cases null : left.isNull = true ∨ right.isNull = true
  · have unknown : (left.isNull || right.isNull) = true := by
      rw [Bool.or_eq_true]
      exact null
    rw [compare_null op null, if_pos unknown, and_iff_right null]
    cases negated <;> cases op.acceptsNull left.isNull right.isNull <;>
      simp [Evaluator.TriBool.Counts]
  · have known : ¬ (left.isNull || right.isNull) = true := by
      rw [Bool.or_eq_true]
      exact null
    rw [if_neg known, iff_false_left (fun strays => null strays.1), not_not]
    cases negated <;> cases Evaluator.compare op.binOp left right <;>
      simp [Evaluator.TriBool.Counts, Evaluator.TriBool.ofBool]

theorem sqlIn_cons (v : Value) (values : List Value) :
    sqlIn left (v :: values) = (Comparison.eq.sql v left).or (sqlIn left values) :=
  rfl

theorem sqlIn_null {left : Value} (null : left.isNull = true) (v : Value) (values : List Value) :
    sqlIn left (v :: values) = .unknown := by
  have head (w : Value) : Comparison.eq.sql w left = .unknown := by simp [Comparison.sql, null]
  induction values generalizing v with
  | nil =>
    rw [sqlIn_cons, head]
    rfl
  | cons w values ih =>
    rw [sqlIn_cons, head, ih w]
    rfl

/-- Another value is TRUE where it is equal to something in the list, and otherwise UNKNOWN when
    the list has a NULL. -/
theorem sqlIn_known {left : Value} (known : left.isNull = false) (values : List Value) :
    sqlIn left values =
      if values.any (fun c => !c.isNull && c.eq left) then .true
      else if values.any isNull then .unknown else .false := by
  induction values with
  | nil => rfl
  | cons v values ih =>
    rw [sqlIn_cons, ih, List.any_cons, List.any_cons, Comparison.sql, known, Bool.or_false]
    -- What is left depends on five truth values only.
    generalize values.any (fun c => !c.isNull && c.eq left) = found
    generalize values.any isNull = null
    have equal : Evaluator.compare Comparison.eq.binOp v left = v.eq left := rfl
    rw [equal]
    cases v.isNull <;> cases v.eq left <;> cases found <;> cases null <;> rfl

theorem sqlIn_eq (v : Value) (values : List Value) :
    sqlIn left (v :: values) =
      match matchInList left (v :: values) with
      | none => .unknown
      | some matched => .ofBool matched := by
  unfold matchInList
  cases known : left.isNull with
  | true => exact sqlIn_null known v values
  | false =>
    rw [sqlIn_known known, if_neg Bool.false_ne_true]
    cases (v :: values).any (fun c => !c.isNull && c.eq left) <;>
      cases (v :: values).any isNull <;> rfl

theorem matchInList_eq_none_iff :
    matchInList left values = none ↔
      left.isNull = true ∨
        ((∀ v ∈ values, v.isNull = true ∨ v.eq left = false) ∧ ∃ v ∈ values, v.isNull = true) := by
  unfold matchInList
  have noneEqual : values.any (fun c => !c.isNull && c.eq left) = false ↔
      ∀ v ∈ values, v.isNull = true ∨ v.eq left = false := by
    simp only [List.any_eq_false, Bool.not_eq_true, Bool.and_eq_false_iff, Bool.not_eq_false']
  have someNull : values.any isNull = true ↔ ∃ v ∈ values, v.isNull = true := List.any_eq_true
  rw [← noneEqual, ← someNull]
  cases left.isNull <;> cases values.any (fun c => !c.isNull && c.eq left) <;>
    cases values.any isNull <;> simp

theorem inList_strays_iff (negated isNot : Bool) (left v : Value) (values : List Value) :
    (negated = true ∧ matchInList left (v :: values) = none) ↔
      ¬ (inResult isNot (matchInList left (v :: values)) = true ↔
        (if isNot then (sqlIn left (v :: values)).not else sqlIn left (v :: values)).Counts
          negated) := by
  rw [sqlIn_eq]
  rcases matchInList left (v :: values) with _ | matched
  · cases negated <;> cases isNot <;>
      simp [inResult, Evaluator.TriBool.Counts, Evaluator.TriBool.not]
  · cases negated <;> cases isNot <;> cases matched <;>
      simp [inResult, Evaluator.TriBool.Counts, Evaluator.TriBool.not,
        Evaluator.TriBool.ofBool]

/-- A condition strays exactly when the evaluator's answer is not the one that counts. -/
theorem strays_iff {Q : Type} (ev : Evaluator Q) (row : Row) (negated : Bool) (c : Condition) :
    c.Strays ev row negated ↔ ¬ (c.accepts ev row = true ↔ (c.sql ev row).Counts negated) := by
  induction c generalizing negated with
  | compare op left right =>
    exact cmp_strays_iff op negated (left.value ev row) (right.value ev row)
  | and left right ihLeft ihRight =>
    simp only [Condition.Strays, accepts, Condition.sql, Bool.and_eq_true]
    rw [Evaluator.TriBool.counts_and]
    exact andStrays_iff (ihLeft negated) (fun _ => ihRight negated)
  | or left right ihLeft ihRight =>
    simp only [Condition.Strays, accepts, Condition.sql, Bool.or_eq_true]
    rw [Evaluator.TriBool.counts_or]
    exact orStrays_iff (ihLeft negated) (fun _ => ihRight negated)
  | not c ih =>
    simp only [Condition.Strays, accepts, Condition.sql]
    rw [Evaluator.TriBool.counts_not, ih, Bool.not_eq_true', ← Bool.not_eq_true]
    exact not_congr not_iff_not.symm
  | inList left fst rest isNot =>
    simp only [Condition.Strays, accepts, Condition.sql]
    rw [← matchInList_eq_none_iff]
    exact inList_strays_iff negated isNot _ _ _
  | between operand lower upper =>
    simp only [Condition.Strays, accepts, Condition.sql, Bool.and_eq_true]
    rw [Evaluator.TriBool.counts_and]
    exact andStrays_iff (cmp_strays_iff .ge negated _ _) (fun _ => cmp_strays_iff .le negated _ _)
  | truth operand =>
    cases negated <;> simp only [Condition.Strays, accepts, Condition.sql] <;>
      cases operand.value ev row <;>
      simp [sqlTruth, Evaluator.TriBool.Counts, Evaluator.TriBool.ofBool]

/-! ## Comparisons of two values of one type -/

/-- What an operator says of two values in a given order. -/
def Comparison.ofOrdering : Comparison → Ordering → Bool
  | .eq, o => o == .eq
  | .ne, o => o != .eq
  | .lt, o => o == .lt
  | .le, o => o != .gt
  | .gt, o => o == .gt
  | .ge, o => o != .lt

section Ordered

variable {α : Type} [LT α] [DecidableLT α] [DecidableEq α]

/-- Where `<` and `==` are those of an order, so are all six operators. -/
theorem compare_eq_ofOrdering (op : Comparison) {v w : Value} {a b : α}
    (isLt : v.lt w = decide (a < b)) (isEq : v.eq w = decide (a = b)) (irrefl : ¬ a < a) :
    Evaluator.compare op.binOp v w = op.ofOrdering (compareOfLessAndEq a b) := by
  by_cases less : a < b
  · have nodup : a ≠ b := fun same => irrefl (same ▸ less)
    cases op <;> simp [Evaluator.compare, Comparison.binOp, Comparison.ofOrdering,
      compareOfLessAndEq, Value.le, gt, ge, isLt, isEq, less, nodup]
  · by_cases same : a = b
    · subst same
      cases op <;> simp [Evaluator.compare, Comparison.binOp, Comparison.ofOrdering,
        compareOfLessAndEq, Value.le, gt, ge, isLt, isEq, irrefl]
    · cases op <;> simp [Evaluator.compare, Comparison.binOp, Comparison.ofOrdering,
        compareOfLessAndEq, Value.le, gt, ge, isLt, isEq, less, same]

end Ordered

theorem sql_int (a b : Int) :
    op.sql (.int a) (.int b) = .ofBool (op.ofOrdering (compareOfLessAndEq a b)) :=
  congrArg TriBool.ofBool (compare_eq_ofOrdering op rfl rfl (Int.lt_irrefl a))

theorem sql_string (a b : String) :
    op.sql (.string a) (.string b) = .ofBool (op.ofOrdering (compareOfLessAndEq a b)) :=
  congrArg TriBool.ofBool (compare_eq_ofOrdering op rfl rfl (String.lt_irrefl a))

/-- Booleans are compared as the texts `false` and `true`, which are in the right order. -/
theorem sql_bool (a b : Bool) :
    op.sql (.bool a) (.bool b) = .ofBool (op.ofOrdering (compareOfLessAndEq a b)) := by
  cases op <;> cases a <;> cases b <;> decide

/-! ## WHERE under three-valued logic -/

/-- `evaluate_condition` returns true exactly for the rows where the condition is TRUE in SQL
    just for the conditions that do not go astray. -/
theorem evaluateCondition_true_iff_sql_iff {Q : Type} (ev : Evaluator Q) (row : Row)
    (c : Condition) :
    (ev.evaluateCondition row c.toExpr = .ok true ↔ c.sql ev row = .true) ↔
      ¬ c.Strays ev row false := by
  rw [evalCond_eq, Except.ok.injEq, strays_iff, not_not]
  rfl

/-- `NOT (balance = 1)` of a row without a balance: UNKNOWN, and the evaluator returns true. -/
theorem negated_comparison_with_null : let functions : Functions :=
      ⟨fun _ _ err => .ok (.null, err), fun text _ => .ok (.string text)⟩
    let ev : Evaluator Empty := { functions, bindings := [⟨"accounts", "accounts", "balance"⟩] }
    let row : Row := { values := [.null] }
    let c : Condition := .not (.compare .eq (.column "" "balance") (.literal (.int 1)))
    ev.evaluateCondition row c.toExpr = .ok true ∧ c.sql ev row = .unknown := by
  intro functions ev row c
  refine ⟨?_, ?_⟩
  · rw [evalCond_eq]
    decide
  · decide

end NobugDb
