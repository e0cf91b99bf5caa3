import NobugDb.Core.TableConstraints

/-!
# Conditions under another table name

A CHECK is evaluated with bindings under the name of the table it is checked in. A condition that
names neither of two tables with the same columns is evaluated alike in both.
-/

namespace NobugDb

namespace Expr

variable {Q : Type}

mutual

/-- A column reference in the expression names one of the tables. CASE is left out: it is not
    evaluated. -/
def names (tables : List String) : Expr Q → Bool
  | .columnRef table _ => tables.contains table
  | .binary _ left right => left.names tables || right.names tables
  | .unary _ e => e.names tables
  | .call _ args _ => namesAny tables args
  | .cast e _ => e.names tables
  | .inList left values _ => left.names tables || namesAny tables values
  | .inSubquery left _ _ => left.names tables
  | _ => false

def namesAny (tables : List String) : List (Expr Q) → Bool
  | [] => false
  | e :: es => e.names tables || namesAny tables es

end

end Expr

namespace Evaluator

variable {Q : Type} {ev ev' : Evaluator Q} {row : Row} {tables : List String}

/-- The evaluators differ in how they resolve columns of these tables only. -/
structure AgreesOutside (tables : List String) (ev ev' : Evaluator Q) : Prop where
  functions : ev'.functions = ev.functions
  binds : ev'.binds = ev.binds
  column : ∀ row table name err, tables.contains table = false →
    ev'.evaluateColumn row table name err = ev.evaluateColumn row table name err
  unqualified : ∀ row name err, ev'.evaluateColumn row "" name err = ev.evaluateColumn row "" name err
  scalar : ev.scalarSubquery = none ∧ ev'.scalarSubquery = none
  inQuery : ev.inSubquery = none ∧ ev'.inSubquery = none
  existsQuery : ev.existsSubquery = none ∧ ev'.existsSubquery = none

mutual

theorem eval_agrees (agrees : AgreesOutside tables ev ev') :
    (e : Expr Q) → e.names tables = false → ∀ err,
      ev'.evaluateExpression row e err = ev.evaluateExpression row e err
  | .literal _, _, _ => by simp only [evaluateExpression]
  | .subquery _, _, _ => by simp only [evaluateExpression, agrees.scalar.1, agrees.scalar.2]
  | .inList left values isNot, avoids, err => by
    simp only [Expr.names, Bool.or_eq_false_iff] at avoids
    simp only [evaluateExpression, eval_agrees agrees left avoids.1,
      evalValues_agrees agrees values avoids.2]
  | .inSubquery left _ _, avoids, err => by
    simp only [evaluateExpression, inSubqueryPredicate, agrees.inQuery.1, agrees.inQuery.2,
      eval_agrees agrees left avoids]
  | .exists _ _, _, _ => by
    simp only [evaluateExpression, existsPredicate, agrees.existsQuery.1, agrees.existsQuery.2]
  | .parameter _, _, _ => by simp only [evaluateExpression, agrees.binds]
  | .columnRef table column, avoids, err => by
    simp only [evaluateExpression, agrees.column row table column err avoids]
  | .identifier name, _, err => by simp only [evaluateExpression, agrees.unqualified]
  | .binary _ left right, avoids, err => by
    simp only [Expr.names, Bool.or_eq_false_iff] at avoids
    simp only [evaluateExpression, eval_agrees agrees left avoids.1,
      eval_agrees agrees right avoids.2]
  | .unary _ e, avoids, err => by
    simp only [evaluateExpression, eval_agrees agrees e avoids]
  | .cast e _, avoids, err => by
    simp only [evaluateExpression, eval_agrees agrees e avoids, agrees.functions]
  | .call _ args _, avoids, err => by
    simp only [evaluateExpression, evalArgs_agrees agrees args avoids, agrees.functions]
  | .case _ _, _, _ => by simp only [evaluateExpression]

theorem evalArgs_agrees (agrees : AgreesOutside tables ev ev') :
    (es : List (Expr Q)) → Expr.namesAny tables es = false → ∀ err,
      ev'.evaluateArguments row es err = ev.evaluateArguments row es err
  | [], _, _ => by simp only [evaluateArguments]
  | e :: es, avoids, err => by
    simp only [Expr.namesAny, Bool.or_eq_false_iff] at avoids
    simp only [evaluateArguments, eval_agrees agrees e avoids.1,
      evalArgs_agrees agrees es avoids.2]

theorem evalValues_agrees (agrees : AgreesOutside tables ev ev') :
    (es : List (Expr Q)) → Expr.namesAny tables es = false →
      ev'.evaluateValues row es = ev.evaluateValues row es
  | [], _ => by simp only [evaluateValues]
  | e :: es, avoids => by
    simp only [Expr.namesAny, Bool.or_eq_false_iff] at avoids
    simp only [evaluateValues, eval_agrees agrees e avoids.1,
      evalValues_agrees agrees es avoids.2]

end

theorem evaluateCheckTri_agrees (agrees : AgreesOutside tables ev ev') :
    (e : Expr Q) → e.names tables = false → ev'.evaluateCheckTri row e = ev.evaluateCheckTri row e
  | .binary op left right, avoids => by
    simp only [Expr.names, Bool.or_eq_false_iff] at avoids
    have asCondition := evaluateCheckTri_agrees agrees left avoids.1
    have asCondition' := evaluateCheckTri_agrees agrees right avoids.2
    have asValue := @eval_agrees Q ev ev' row tables agrees left avoids.1 none
    have asValue' := @eval_agrees Q ev ev' row tables agrees right avoids.2 none
    cases op <;> simp only [evaluateCheckTri, asCondition, asCondition', asValue, asValue']
  | .unary .not e, avoids => by
    simp only [evaluateCheckTri, evaluateCheckTri_agrees agrees e avoids]
  | .unary .minus _, _ => by simp only [evaluateCheckTri]
  | .inList left values _, avoids => by
    simp only [Expr.names, Bool.or_eq_false_iff] at avoids
    simp only [evaluateCheckTri, eval_agrees agrees left avoids.1,
      evalValues_agrees agrees values avoids.2]
  | .inSubquery left _ _, avoids => by
    simp only [evaluateCheckTri, inSubqueryPredicate, agrees.inQuery.1, agrees.inQuery.2,
      eval_agrees agrees left avoids]
  | .literal _, _ | .identifier _, _ | .columnRef _ _, _ | .parameter _, _ | .call _ _ _, _
  | .cast _ _, _ | .case _ _, _ | .exists _ _, _ | .subquery _, _ => by
    simp only [evaluateCheckTri]

end Evaluator

namespace Table

variable {p t : Table}

/-- Two tables with the same column names check alike what names neither of them. -/
theorem checkEvaluator_agrees (fns : Functions)
    (eq : t.columns.map (·.name) = p.columns.map (·.name)) :
    Evaluator.AgreesOutside [p.name, t.name] (p.checkEvaluator fns) (t.checkEvaluator fns) := by
  have resolve : ∀ table name, (table = "" ∨ [p.name, t.name].contains table = false) →
      Evaluator.resolveColumnIndex (t.checkEvaluator fns).bindings table name =
        Evaluator.resolveColumnIndex (p.checkEvaluator fns).bindings table name := by
    intro table name ne
    have hit : ∀ u : Table, (table = "" ∨ (u.name == table) = false) →
        (u.checkEvaluator fns).bindings.findIdxs (Evaluator.bindingMatches table name) =
          (u.columns.map (·.name)).findIdxs (fun column =>
            if table = "" then column == name else column == table ++ "." ++ name) := by
      intro u apart
      simp only [checkEvaluator, List.findIdxs_map]
      congr 1
      funext column
      simp only [Function.comp, Evaluator.bindingMatches]
      rcases apart with unqualified | apart
      · simp [unqualified]
      · simp [apart]
    have apart : ∀ u ∈ [p, t], table = "" ∨ (u.name == table) = false := by
      intro u mem
      refine ne.imp id (fun absent => ?_)
      rw [beq_eq_false_iff_ne]
      rintro rfl
      have inside : u.name ∈ [p, t].map (·.name) := List.mem_map_of_mem mem
      rw [List.contains_eq_mem, decide_eq_false_iff_not] at absent
      exact absent inside
    unfold Evaluator.resolveColumnIndex
    rw [hit t (apart t (by simp)), hit p (apart p (by simp)), eq]
  have column : ∀ row table name err, (table = "" ∨ [p.name, t.name].contains table = false) →
      (t.checkEvaluator fns).evaluateColumn row table name err =
        (p.checkEvaluator fns).evaluateColumn row table name err := by
    intro row table name err ne
    unfold Evaluator.evaluateColumn
    rw [resolve table name ne]
    rfl
  exact
    { functions := rfl
      binds := rfl
      column := fun row table name err absent => column row table name err (.inr absent)
      unqualified := fun row name err => column row "" name err (.inl rfl)
      scalar := ⟨rfl, rfl⟩
      inQuery := ⟨rfl, rfl⟩
      existsQuery := ⟨rfl, rfl⟩ }

end Table

end NobugDb
