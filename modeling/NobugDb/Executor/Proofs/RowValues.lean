import NobugDb.Executor.Dml

/-!
# Row versions of the same values

Conditions and SET expressions read the values of a row and not its version stamps, so they come
out alike on versions with the same values.
-/

namespace NobugDb

namespace Evaluator

variable {ev : Evaluator Empty} {row other : Row}

theorem evalColumn_values (eq : other.values = row.values) (table column : String)
    (err : Option String) :
    ev.evaluateColumn other table column err = ev.evaluateColumn row table column err := by
  simp only [evaluateColumn, Row.getValue?, eq]

mutual

theorem eval_values (eq : other.values = row.values) :
    (e : Expr Empty) → ∀ err, ev.evaluateExpression other e err = ev.evaluateExpression row e err
  | .literal _, _ => by simp only [evaluateExpression]
  | .inList left values _, err => by
    simp only [evaluateExpression, eval_values eq left,
      evalValues_values eq values]
  | .parameter _, _ => by simp only [evaluateExpression]
  | .columnRef _ _, _ | .identifier _, _ => by
    simp only [evaluateExpression, evalColumn_values eq]
  | .binary _ left right, err => by
    simp only [evaluateExpression, eval_values eq left,
      eval_values eq right]
  | .unary _ e, err | .cast e _, err => by
    simp only [evaluateExpression, eval_values eq e]
  | .call _ args _, err => by
    simp only [evaluateExpression, evalArgs_values eq args]
  | .case _ _, _ => by simp only [evaluateExpression]

theorem evalArgs_values (eq : other.values = row.values) :
    (es : List (Expr Empty)) → ∀ err,
      ev.evaluateArguments other es err = ev.evaluateArguments row es err
  | [], _ => by simp only [evaluateArguments]
  | e :: es, err => by
    simp only [evaluateArguments, eval_values eq e,
      evalArgs_values eq es]

theorem evalValues_values (eq : other.values = row.values) :
    (es : List (Expr Empty)) → ev.evaluateValues other es = ev.evaluateValues row es
  | [] => by simp only [evaluateValues]
  | e :: es => by
    simp only [evaluateValues, eval_values eq e, evalValues_values eq es]

end

theorem evalCond_values (eq : other.values = row.values) :
    (e : Expr Empty) → ev.evaluateCondition other e = ev.evaluateCondition row e
  | .binary _ left right => by
    simp only [evaluateCondition, eval_values eq left,
      eval_values eq right, evalCond_values eq left,
      evalCond_values eq right]
  | .unary .not e => by simp only [evaluateCondition, evalCond_values eq e]
  | .unary .minus _ => by simp only [evaluateCondition]
  | .inList left values _ => by
    simp only [evaluateCondition, eval_values eq left,
      evalValues_values eq values]
  | .literal _ | .identifier _ | .columnRef _ _ | .parameter _ | .call _ _ _ | .cast _ _
  | .case _ _ => by simp only [evaluateCondition]

end Evaluator

namespace Table

variable {t : Table} {ev : Evaluator Empty} {row other : Row}

theorem accepts_values (eq : other.values = row.values) (cond : Option (Expr Empty)) :
    accepts ev cond other = accepts ev cond row := by
  cases cond with
  | none => rfl
  | some e => exact Evaluator.evalCond_values eq e

theorem assigned_values (eq : other.values = row.values) {clauses : List (String × Expr Empty)}
    {new new' : Row} (sameNew : new'.values = new.values) :
    (t.assigned ev other clauses new').map Row.values = (t.assigned ev row clauses new).map Row.values := by
  induction clauses generalizing new new' with
  | nil => exact congrArg Except.ok sameNew
  | cons clause clauses ih =>
    obtain ⟨col, e⟩ := clause
    simp only [assigned]
    cases t.getColumnIndex col with
    | none => exact ih sameNew
    | some i =>
      simp only [Evaluator.eval_values eq, bind, Except.bind]
      cases ev.evaluateExpression row e none with
      | error exn => rfl
      | ok res =>
        simp only [Row.setValue, sameNew]
        by_cases outside : new.values.length ≤ i
        · rw [if_pos outside, if_pos outside]
        · rw [if_neg outside, if_neg outside]
          exact ih rfl

end Table

end NobugDb
