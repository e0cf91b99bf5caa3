import NobugDb.Core.Row
import NobugDb.Parser.Ast

/-!
# Expression evaluation

`SelectExpressionEvaluator` (`src/executor/select_expression_evaluator.cc`): the value of an
expression in a row, the truth of a WHERE condition and of a CHECK condition. The
out-parameter `std::string *error_msg` is an argument and a result here: `none` is the null
pointer, with which WHERE, SET and CHECK evaluate, and `some text` the message so far.
Subqueries, scalar and user functions and casts are called through the evaluator's
environment, as the source calls them through `std::function` members, the function
registry, the routine catalog and `TypeConverter`.
-/

namespace NobugDb

/-- `SelectColumnBinding`. -/
structure ColumnBinding where
  aliasName : String
  physicalTable : String
  columnName : String
  deriving DecidableEq, Repr

/-- A frame of `CorrelationContext`: an outer row under its bindings. -/
structure Frame where
  bindings : List ColumnBinding
  row : Row

/-- What an evaluator calls by name: builtin and user functions (with the name as written, the
    arguments and the message so far), and `TypeConverter::string_to_value`. -/
structure Functions where
  callFunction : String → List Value → Option String → Except Exn (Value × Option String)
  stringToValue : String → DataType → Except Exn Value

/-- The members of `SelectExpressionEvaluator`. -/
structure Evaluator (Q : Type) where
  functions : Functions
  bindings : List ColumnBinding
  /-- `local_variables_`: parameters of the running procedure or function. -/
  locals : List (String × Value) := []
  /-- `correlation_` with its frames, innermost first. -/
  correlation : Option (List Frame) := none
  /-- `bind_context_`: the arguments of EXECUTE. -/
  binds : Option (List Value) := none
  scalarSubquery : Option (List Frame → Q → Option String → Except Exn (Value × Option String)) :=
    none
  inSubquery : Option (List Frame → Value → Q → Bool → Except Exn Bool) := none
  existsSubquery : Option (List Frame → Q → Except Exn Bool) := none

namespace Evaluator

variable {Q : Type}

/-- `if (error_msg) *error_msg = text`. -/
def setError (err : Option String) (text : String) : Option String := err.map (fun _ => text)

/-- `ColumnRefExpression::to_string`. -/
def columnText (table column : String) : String :=
  if table = "" then column else table ++ "." ++ column

/-- The test of one binding in `resolve_column_index`. -/
def bindingMatches (table column : String) (b : ColumnBinding) : Bool :=
  if table = "" then b.columnName == column
  else
    ((b.aliasName == table || b.physicalTable == table) && b.columnName == column) ||
      b.columnName == table ++ "." ++ column

/-- `SelectExpressionEvaluator::resolve_column_index`
    (`select_expression_evaluator.cc:150-186`); the error text on failure. -/
def resolveColumnIndex (bindings : List ColumnBinding) (table column : String) :
    Except String Nat :=
  match bindings.findIdxs (bindingMatches table column) with
  | [] => .error ("Unknown column '" ++ columnText table column ++ "'")
  | i :: more =>
    if more ≠ [] ∧ table = "" then .error ("Ambiguous column '" ++ column ++ "'") else .ok i

/-- The value a frame gives a column (`CorrelationContext::pushFrame` and `lookup`): the maps
    of the frame are filled in column order, so the last binding of a name holds. -/
def frameLookup (frame : Frame) (table column : String) : Option Value :=
  let hit (b : ColumnBinding) : Bool :=
    if table = "" then b.columnName == column
    else
      (b.aliasName ≠ "" && b.aliasName ++ "." ++ b.columnName == table ++ "." ++ column) ||
        (b.physicalTable ≠ "" && b.physicalTable ++ "." ++ b.columnName == table ++ "." ++ column)
  (((frame.bindings.zip frame.row.values).filter (fun p => hit p.1)).getLast?).map Prod.snd

/-- `CorrelationContext::lookup` (`correlation_context.cc:33-56`). -/
def lookupCorrelated (ev : Evaluator Q) (table column : String) : Option Value :=
  (ev.correlation.getD []).findSome? (fun frame => frameLookup frame table column)

/-- The `ColumnRefExpression` case of `evaluate_expression`. -/
def evaluateColumn (ev : Evaluator Q) (row : Row) (table column : String)
    (err : Option String) : Value × Option String :=
  match (if table = "" then ev.locals.lookup column else none) with
  | some v => (v, err)
  | none =>
    match resolveColumnIndex ev.bindings table column with
    | .ok i => (((row.getValue? i).getD .null), err)
    | .error text =>
      match ev.lookupCorrelated table column with
      | some v => (v, err)
      | none => (.null, setError err text)

theorem evaluateColumn_none (ev : Evaluator Q) (row : Row) (table column : String) :
    (ev.evaluateColumn row table column none).2 = none := by
  unfold evaluateColumn
  split
  · rfl
  · split
    · rfl
    · split <;> rfl

/-- The frames a subquery of this row runs under. -/
def pushed (ev : Evaluator Q) (row : Row) : List Frame :=
  match ev.correlation with
  | some frames => ⟨ev.bindings, row⟩ :: frames
  | none => []

/-- `match_in_list` (`select_expression_evaluator.cc:72-93`); `none` is UNKNOWN. -/
def matchInList (left : Value) (values : List Value) : Option Bool :=
  if left.isNull then none
  else if values.any (fun c => !c.isNull && c.eq left) then some true
  else if values.any Value.isNull then none
  else some false

/-- The end of `evaluate_in_predicate`: UNKNOWN is false, negated or not. -/
def inResult (isNot : Bool) : Option Bool → Bool
  | none => false
  | some matched => if isNot then !matched else matched

/-- `evaluate_in_predicate` over a list (`select_expression_evaluator.cc:214-223`). -/
def inPredicate (isNot : Bool) (left : Except Exn (Value × Option String))
    (values : Except Exn (List Value)) : Except Exn Bool := do
  let (l, _) ← left
  let vs ← values
  return inResult isNot (matchInList l vs)

/-- `evaluate_in_predicate` over a subquery (`select_expression_evaluator.cc:196-213`). -/
def inSubqueryPredicate (ev : Evaluator Q) (row : Row) (isNot : Bool)
    (left : Except Exn (Value × Option String)) (q : Q) : Except Exn Bool := do
  let (l, _) ← left
  match ev.inSubquery with
  | none => return false
  | some run => run (ev.pushed row) l q isNot

/-- `evaluate_exists_predicate` (`select_expression_evaluator.cc:226-240`). -/
def existsPredicate (ev : Evaluator Q) (row : Row) (isNot : Bool) (q : Q) : Except Exn Bool :=
  match ev.existsSubquery with
  | none => return false
  | some run => do
    let found ← run (ev.pushed row) q
    return if isNot then !found else found

/-- The five aggregate names, which have no value outside a group. -/
def isAggregate (name : String) : Bool :=
  ["count", "sum", "avg", "min", "max"].contains name

/-- The arithmetic cases of `evaluate_expression`; a comparison or a connective has no value
    there. -/
def arithmetic (op : BinOp) (a b : Value) : Except Exn Value :=
  match op with
  | .plus => a.add b
  | .minus => a.sub b
  | .mul => a.mul b
  | .div => a.div b
  | .mod => a.mod b
  | _ => .ok .null

/-- The `UnaryOpExpression` case of `evaluate_expression`. -/
def negate (op : UnOp) (v : Value) : Except Exn Value :=
  match op, v with
  | _, .null => .ok .null
  | .not, v => (v.asBool).map (fun b => .bool !b)
  | .minus, .int x => .ok (.int (Value.wrap64 (-x)))
  | .minus, .float x => .ok (.float (-x))
  | .minus, _ => .ok .null

mutual

/-- `SelectExpressionEvaluator::evaluate_expression`
    (`select_expression_evaluator.cc:373-561`). -/
def evaluateExpression (ev : Evaluator Q) (row : Row) :
    Expr Q → Option String → Except Exn (Value × Option String)
  | .literal v, err => .ok (v, err)
  | .subquery q, err =>
    match ev.scalarSubquery with
    | none => .ok (.null, setError err "Subquery evaluation not available")
    | some run => run (ev.pushed row) q err
  | .inList left values isNot, err => do
    let matched ← inPredicate isNot (evaluateExpression ev row left none)
      (evaluateValues ev row values)
    return (.bool matched, err)
  | .inSubquery left q isNot, err => do
    let matched ← ev.inSubqueryPredicate row isNot (evaluateExpression ev row left none) q
    return (.bool matched, err)
  | .exists q isNot, err => do
    return (.bool (← ev.existsPredicate row isNot q), err)
  | .parameter i, err =>
    match ev.binds with
    | none => .ok (.null, setError err "Bind parameter used without EXECUTE args")
    | some vs =>
      match vs[i]? with
      | some v => .ok (v, err)
      | none =>
        .ok (.null, setError err "Invalid Operation: Bind parameter index out of range")
  | .columnRef table column, err => .ok (ev.evaluateColumn row table column err)
  | .identifier name, err => .ok (ev.evaluateColumn row "" name err)
  | .binary op left right, err => do
    let (l, err) ← evaluateExpression ev row left err
    let (r, err) ← evaluateExpression ev row right err
    return (← arithmetic op l r, err)
  | .unary op e, err => do
    let (v, err) ← evaluateExpression ev row e err
    return (← negate op v, err)
  | .cast e target, err => do
    let (v, err) ← evaluateExpression ev row e err
    if v.isNull then return (.null, err)
    else
      match ev.functions.stringToValue v.toString target with
      | .ok converted => return (converted, err)
      | .error exn => return (.null, setError err exn.what)
  | .call name args window, err =>
    if window.isSome then .ok (.null, err)
    else if isAggregate name.toLower then
      .ok (.null, setError err "Aggregate functions require GROUP BY or grouping context")
    else do
      let (values, err) ← evaluateArguments ev row args err
      match values with
      | none => return (.null, err)
      | some vs => ev.functions.callFunction name vs err
  -- A CASE expression is parsed but no case of the evaluator takes it.
  | .case _ _, err => .ok (.null, err)

/-- The arguments of a call, left to right; `none` when one of them set the message. -/
def evaluateArguments (ev : Evaluator Q) (row : Row) :
    List (Expr Q) → Option String → Except Exn (Option (List Value) × Option String)
  | [], err => .ok (some [], err)
  | e :: es, err => do
    let (v, err) ← evaluateExpression ev row e err
    if err.any (fun text => text ≠ "") then return (none, err)
    else
      let (vs, err) ← evaluateArguments ev row es err
      return (vs.map (v :: ·), err)

/-- The values of an IN list, each evaluated without a message. -/
def evaluateValues (ev : Evaluator Q) (row : Row) : List (Expr Q) → Except Exn (List Value)
  | [] => .ok []
  | e :: es => do
    let (v, _) ← evaluateExpression ev row e none
    let vs ← evaluateValues ev row es
    return v :: vs

end

/-- The comparison cases of `evaluate_condition`; any other operator is true. -/
def compare (op : BinOp) (a b : Value) : Bool :=
  match op with
  | .eq => a.eq b
  | .ne => !a.eq b
  | .lt => a.lt b
  | .le => a.le b
  | .gt => a.gt b
  | .ge => a.ge b
  | _ => true

/-- `SelectExpressionEvaluator::evaluate_condition`
    (`select_expression_evaluator.cc:246-295`). Both operands of a connective are evaluated as
    expressions first; what can come of it is an exception. -/
def evaluateCondition (ev : Evaluator Q) (row : Row) : Expr Q → Except Exn Bool
  | .inList left values isNot =>
    inPredicate isNot (evaluateExpression ev row left none) (evaluateValues ev row values)
  | .inSubquery left q isNot =>
    ev.inSubqueryPredicate row isNot (evaluateExpression ev row left none) q
  | .exists q isNot => ev.existsPredicate row isNot q
  | .binary op left right => do
    let (l, _) ← evaluateExpression ev row left none
    let (r, _) ← evaluateExpression ev row right none
    match op with
    | .and =>
      if ← evaluateCondition ev row left then evaluateCondition ev row right
      else return false
    | .or =>
      if ← evaluateCondition ev row left then return true
      else evaluateCondition ev row right
    | _ => return compare op l r
  | .unary .not e => do return !(← evaluateCondition ev row e)
  | _ => .ok true

inductive TriBool where
  | false
  | true
  | unknown
  deriving DecidableEq, Repr

/-- The comparison at the end of `evaluate_check_tri`'s binary case. -/
def compareTri (op : BinOp) (a b : Value) : TriBool :=
  if a.isNull || b.isNull then .unknown
  else if compare op a b then .true
  else .false

/-- `SelectExpressionEvaluator::evaluate_check_tri`
    (`select_expression_evaluator.cc:302-371`). -/
def evaluateCheckTri (ev : Evaluator Q) (row : Row) : Expr Q → Except Exn TriBool
  | .binary .and left right => do
    let l ← evaluateCheckTri ev row left
    if l = .false then return .false
    let r ← evaluateCheckTri ev row right
    if r = .false then return .false
    return if l = .unknown ∨ r = .unknown then .unknown else .true
  | .binary .or left right => do
    let l ← evaluateCheckTri ev row left
    if l = .true then return .true
    let r ← evaluateCheckTri ev row right
    if r = .true then return .true
    return if l = .unknown ∨ r = .unknown then .unknown else .false
  | .binary op left right => do
    let (l, _) ← evaluateExpression ev row left none
    let (r, _) ← evaluateExpression ev row right none
    return compareTri op l r
  | .unary .not e => do
    match ← evaluateCheckTri ev row e with
    | .unknown => return .unknown
    | .true => return .false
    | .false => return .true
  | .inList left values isNot => do
    let matched ← inPredicate isNot (evaluateExpression ev row left none)
      (evaluateValues ev row values)
    return if matched then .true else .false
  | .inSubquery left q isNot => do
    let matched ← ev.inSubqueryPredicate row isNot (evaluateExpression ev row left none) q
    return if matched then .true else .false
  | _ => .ok .true

/-- `SelectExpressionEvaluator::evaluate_check_condition`: UNKNOWN passes. -/
def evaluateCheckCondition (ev : Evaluator Q) (row : Row) (e : Expr Q) : Except Exn Bool := do
  return (← evaluateCheckTri ev row e) ≠ .false

end Evaluator

end NobugDb
