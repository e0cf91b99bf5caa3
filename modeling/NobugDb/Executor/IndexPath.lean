import NobugDb.Core.Table

/-!
# The index path of WHERE

Extraction of index predicates (`src/executor/index_predicate.cc`), the choice of an access
path (`src/planner/`) and how SELECT, UPDATE and DELETE find their rows
(`src/executor/query_executor.cc`).
-/

namespace NobugDb

open Misc (AssocMap)

inductive IndexCompareOp where
  | equal
  | less
  | lessEqual
  | greater
  | greaterEqual
  deriving DecidableEq, Repr

/-- `IndexColumnPredicate`, less the fields for an upper bound: no predicate has one. -/
structure IndexColumnPredicate where
  columnName : String
  tableQualifier : String
  op : IndexCompareOp
  literal : Value
  deriving DecidableEq

namespace IndexColumnPredicate

variable {Q : Type}

/-- `column_name_of` (`index_predicate.cc:6-17`): qualifier and column. -/
def columnNameOf : Expr Q → Option (String × String)
  | .columnRef table column => if column = "" then none else some (table, column)
  | .identifier name => if name = "" then none else some ("", name)
  | _ => none

/-- `is_literal` (`index_predicate.cc:19-25`). -/
def isLiteral : Expr Q → Option Value
  | .literal v => some v
  | _ => none

theorem eval_literal {ev : Evaluator Q} {row : Row} {e : Expr Q} {v : Value}
    (isVal : isLiteral e = some v) : ev.evaluateExpression row e none = .ok (v, none) := by
  cases e with
  | literal w =>
    cases isVal
    simp only [Evaluator.evaluateExpression]
  | _ => cases isVal

/-- The operator of `column op literal`. -/
def columnOnLeft : BinOp → Option IndexCompareOp
  | .eq => some .equal
  | .lt => some .less
  | .le => some .lessEqual
  | .gt => some .greater
  | .ge => some .greaterEqual
  | _ => none

/-- The operator of `literal op column`. -/
def columnOnRight : BinOp → Option IndexCompareOp
  | .eq => some .equal
  | .lt => some .greater
  | .le => some .greaterEqual
  | .gt => some .less
  | .ge => some .lessEqual
  | _ => none

/-- `try_comparison` (`index_predicate.cc:27-97`). -/
def tryComparison : Expr Q → Option IndexColumnPredicate
  | .binary op left right =>
    match columnNameOf left, isLiteral right with
    | some (table, column), some v => (columnOnLeft op).map (⟨column, table, ·, v⟩)
    | _, _ =>
      match columnNameOf right, isLiteral left with
      | some (table, column), some v => (columnOnRight op).map (⟨column, table, ·, v⟩)
      | _, _ => none
  | _ => none

/-- `collect_predicates` and `extract_index_predicates` (`index_predicate.cc:99-132`). -/
def extract : Expr Q → Option (List IndexColumnPredicate)
  | .binary .and left right => do return (← extract left) ++ (← extract right)
  | .binary .or _ _ => none
  | e => (tryComparison e).map ([·])

end IndexColumnPredicate

/-! ## Access paths -/

namespace CostModel

def estimateSeqScanCost (rowCount : Nat) : Float := 1.0 * Float.ofNat rowCount

def estimateIndexScanCost (rowCount : Nat) (selectivity : Float) : Float :=
  2.0 + 0.1 * (Float.ofNat rowCount * selectivity)

end CostModel

/-- `AccessPathChooser::choose` (`access_path_chooser.cc:5-25`): an index scan is chosen. -/
def choosesIndexScan (rowCount : Nat) (hasIndexPath : Bool) (equalitySelectivity : Float) : Bool :=
  if !hasIndexPath || rowCount == 0 then false
  else
    let selectivity :=
      if equalitySelectivity > 0.0 then equalitySelectivity else 1.0 / Float.ofNat rowCount
    CostModel.estimateIndexScanCost rowCount selectivity < CostModel.estimateSeqScanCost rowCount

namespace Table

/-! ## Candidate rows -/

/-- `predicate_matches_table` (`query_executor.cc:66-74`). -/
def predicateMatches (t : Table) (aliasName : String) (pred : IndexColumnPredicate) : Bool :=
  (pred.tableQualifier == "" || pred.tableQualifier == t.name || pred.tableQualifier == aliasName) &&
    (t.getColumnIndex pred.columnName).isSome

/-- `lookup_predicate_rows` (`query_executor.cc:76-110`). -/
def lookupPredicateRows (t : Table) (pred : IndexColumnPredicate) : Except Exn (List Nat) :=
  if !t.hasIndex pred.columnName then .ok []
  else
    match pred.op with
    | .equal => t.findRowsByValue pred.columnName pred.literal
    | .less => t.findRowsByRange pred.columnName none true (some pred.literal) false
    | .lessEqual => t.findRowsByRange pred.columnName none true (some pred.literal) true
    | .greater => t.findRowsByRange pred.columnName (some pred.literal) false none true
    | .greaterEqual => t.findRowsByRange pred.columnName (some pred.literal) true none true

/-- `equal_by_column`: the literal each column is compared with, the last one of several. -/
def equalByColumn (preds : List IndexColumnPredicate) : AssocMap String Value :=
  (preds.filter (fun p => p.op = .equal)).foldl
    (fun m p => AssocMap.assign p.columnName p.literal m) []

/-- The leading columns of an index that have a literal, as a key. -/
def keyPrefix (equals : AssocMap String Value) : List String → IndexKey
  | [] => []
  | c :: cs =>
    match equals.lookup c with
    | some v => v :: keyPrefix equals cs
    | none => []

/-- The loop over the secondary indexes (`query_executor.cc:130-150`): the first index with
    the longest key. -/
def bestIndex (t : Table) (equals : AssocMap String Value) : Option (String × IndexKey) :=
  t.secondaryIndexes.foldl
    (fun best e =>
      let key := keyPrefix equals e.2
      if (best.map (·.2.length)).getD 0 < key.length then some (e.1, key) else best)
    none

/-- The loop over the predicates that have an index (`query_executor.cc:154-175`). -/
def intersectRows (t : Table) :
    List IndexColumnPredicate → Option (Finset Nat) → Except Exn (Option (Finset Nat))
  | [], rows => .ok rows
  | p :: ps, rows => do
    if !t.hasIndex p.columnName then t.intersectRows ps rows
    else
      let current := (← t.lookupPredicateRows p).toFinset
      t.intersectRows ps (some (match rows with | none => current | some s => s ∩ current))

variable {Q : Type}

/-- The predicates of WHERE on this table. -/
def tablePredicates (t : Table) (aliasName : String) (cond : Option (Expr Q)) :
    List IndexColumnPredicate :=
  match cond with
  | none => []
  | some e => ((IndexColumnPredicate.extract e).getD []).filter (t.predicateMatches aliasName)

/-- `collect_candidate_rows` (`query_executor.cc:112-180`). -/
def collectCandidateRows (t : Table) (aliasName : String) (cond : Option (Expr Q)) :
    Except Exn (Option (List Nat)) :=
  let preds := t.tablePredicates aliasName cond
  match t.bestIndex (equalByColumn preds) with
  | some (indexName, key) => .ok (some (t.findRowsByIndexKey indexName key))
  | none => do
    return (← t.intersectRows preds none).map (fun rows => rows.sort (· ≤ ·))

/-! ## The rows of a statement -/

/-- `!where || eval.evaluate_condition(row, where)`. -/
def accepts (ev : Evaluator Q) (cond : Option (Expr Q)) (row : Row) : Except Exn Bool :=
  match cond with
  | none => .ok true
  | some e => ev.evaluateCondition row e

/-- The loop that reads rows and keeps those WHERE accepts. -/
def acceptedRows (t : Table) (ev : Evaluator Q) (cond : Option (Expr Q)) :
    List Nat → Except Exn (List (Nat × Row))
  | [] => .ok []
  | i :: is => do
    let row ← t.getRow i
    let accepted ← accepts ev cond row
    let rest ← t.acceptedRows ev cond is
    return if accepted then (i, row) :: rest else rest

/-- The access path of a SELECT that has candidates (`query_executor.cc:200-205`). -/
def usesIndexScan (t : Table) : Bool :=
  choosesIndexScan t.rowCount true
    (if t.rowCount = 0 then 1.0 else 1.0 / Float.ofNat t.rowCount)

/-- `filter_rows_with_index` (`query_executor.cc:182-225`). -/
def filterRowsWithIndex (t : Table) (tm : TransactionManager) (reader : Nat)
    (snapshot : Option TransactionSnapshot) (aliasName : String) (cond : Option (Expr Q))
    (ev : Evaluator Q) : Except Exn (List Row) := do
  let visible ← t.getVisibleRowIndices tm reader snapshot
  let candidates ← t.collectCandidateRows aliasName cond
  let indices :=
    match candidates with
    | some rows => if t.usesIndexScan then rows.filter (visible.contains ·) else visible
    | none => visible
  return (← t.acceptedRows ev cond indices).map Prod.snd

/-- `UpdateExecutor::collect_matching_indices` (`query_executor.cc:475-519`) and
    `DeleteExecutor::collect_matching_indices` (`query_executor.cc:594-640`), which differ in
    their local variables only. -/
def collectMatchingIndices (t : Table) (tm : TransactionManager) (reader : Nat)
    (snapshot : Option TransactionSnapshot) (cond : Option (Expr Q)) (ev : Evaluator Q) :
    Except Exn (List Nat) := do
  let visible ← t.getVisibleRowIndices tm reader snapshot
  let candidates ← t.collectCandidateRows t.name cond
  let indices :=
    match candidates with
    | some rows => rows.filter (visible.contains ·)
    | none => visible
  return (← t.acceptedRows ev cond indices).map Prod.fst

/-- `evaluator_for_table` (`query_executor.cc:51-60`) with what `bind_subquery_evaluators` and
    the setters add. -/
def evaluatorForTable (t : Table) (aliasForRefs : String) (env : Evaluator Q) : Evaluator Q :=
  { env with bindings := t.columns.map (fun c => ⟨aliasForRefs, t.name, c.name⟩) }

/-- What the statements are to find: WHERE evaluated on every visible row. -/
def scanVisible (t : Table) (tm : TransactionManager) (reader : Nat)
    (snapshot : Option TransactionSnapshot) (cond : Option (Expr Q)) (ev : Evaluator Q) :
    Except Exn (List (Nat × Row)) := do
  let visible ← t.getVisibleRowIndices tm reader snapshot
  t.acceptedRows ev cond visible

end Table

end NobugDb
