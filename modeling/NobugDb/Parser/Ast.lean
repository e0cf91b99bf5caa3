import NobugDb.Types.Value

/-!
# Expressions and their texts

The expression classes of `include/parser/ast.h`. A subquery is a value of the type `Q` of
SELECT statements, which the evaluator only hands on.
-/

namespace NobugDb

/-- `BinaryOpExpression::Operator`. -/
inductive BinOp where
  | eq | ne | lt | le | gt | ge | and | or | plus | minus | mul | div | mod
  deriving DecidableEq, Repr

/-- `UnaryOpExpression::Operator`. -/
inductive UnOp where
  | not | minus
  deriving DecidableEq, Repr

/-- `Expression` and its subclasses (`ast.h:32-182`, `ast.h:723-763`). -/
inductive Expr (Q : Type) where
  | literal (value : Value)
  | identifier (name : String)
  | columnRef (table column : String)
  | parameter (index : Nat)
  | binary (op : BinOp) (left right : Expr Q)
  | unary (op : UnOp) (expr : Expr Q)
  -- The window is the PARTITION BY list and the ORDER BY list of `WindowSpec`.
  | call (name : String) (args : List (Expr Q))
      (window : Option (List (Expr Q) × List (Expr Q × Bool)))
  | cast (expr : Expr Q) (target : DataType)
  | case (whenThen : List (Expr Q × Expr Q)) (otherwise : Option (Expr Q))
  | inList (left : Expr Q) (values : List (Expr Q)) (isNot : Bool)
  | inSubquery (left : Expr Q) (select : Q) (isNot : Bool)
  | exists (select : Q) (isNot : Bool)
  | subquery (select : Q)

namespace BinOp

/-- The operator's text in `BinaryOpExpression::to_string`. -/
def toString : BinOp → String
  | .eq => "="
  | .ne => "!="
  | .lt => "<"
  | .le => "<="
  | .gt => ">"
  | .ge => ">="
  | .and => "AND"
  | .or => "OR"
  | .plus => "+"
  | .minus => "-"
  | .mul => "*"
  | .div => "/"
  | .mod => "%"

end BinOp

namespace Expr

variable {Q : Type}

/-! ## Printing

`to_string` of the expression classes (`ast.cc:13-237`, `ast.cc:1183-1226`). The text of a
SELECT is a parameter. -/

mutual

/-- `Expression::to_string`. A literal prints its value without quotes, and IN is the one
    operator that puts no parentheses around itself. -/
def toString (selectText : Q → String) : Expr Q → String
  | .literal value => value.toString
  | .identifier name => name
  | .columnRef table column => if table = "" then column else table ++ "." ++ column
  | .parameter _ => "?"
  | .binary op left right =>
    "(" ++ toString selectText left ++ " " ++ op.toString ++ " " ++
      toString selectText right ++ ")"
  | .unary op e =>
    "(" ++ (if op = .not then "NOT" else "-") ++ " " ++ toString selectText e ++ ")"
  | .call name args none => name ++ "(" ++ listToString selectText args ++ ")"
  | .call name args (some (partitionBy, orderBy)) =>
    name ++ "(" ++ listToString selectText args ++ ")" ++ " OVER " ++
      ("(" ++
        (if partitionBy.isEmpty then ""
          else "PARTITION BY " ++ listToString selectText partitionBy) ++
        (if orderBy.isEmpty then ""
          else (if partitionBy.isEmpty then "" else " ") ++ "ORDER BY " ++
            orderByToString selectText orderBy) ++ ")")
  | .cast e target => "CAST(" ++ toString selectText e ++ " AS " ++ target.toString ++ ")"
  | .case whenThen none => "CASE" ++ whenThenToString selectText whenThen ++ " END"
  | .case whenThen (some otherwise) =>
    "CASE" ++ whenThenToString selectText whenThen ++ " ELSE " ++
      toString selectText otherwise ++ " END"
  | .inList left values isNot =>
    toString selectText left ++ (if isNot then " NOT IN (" else " IN (") ++
      listToString selectText values ++ ")"
  | .inSubquery left q isNot =>
    toString selectText left ++ (if isNot then " NOT IN (" else " IN (") ++
      ("(" ++ selectText q ++ ")") ++ ")"
  | .exists q isNot => (if isNot then "NOT EXISTS (" else "EXISTS (") ++ selectText q ++ ")"
  | .subquery q => "(" ++ selectText q ++ ")"

/-- Expressions separated by commas. -/
def listToString (selectText : Q → String) : List (Expr Q) → String
  | [] => ""
  | [e] => toString selectText e
  | e :: es => toString selectText e ++ ", " ++ listToString selectText es

/-- The ORDER BY list of a window. -/
def orderByToString (selectText : Q → String) : List (Expr Q × Bool) → String
  | [] => ""
  | [(e, ascending)] => toString selectText e ++ (if ascending then " ASC" else " DESC")
  | (e, ascending) :: es =>
    toString selectText e ++ (if ascending then " ASC" else " DESC") ++ ", " ++
      orderByToString selectText es

/-- The WHEN branches of CASE. -/
def whenThenToString (selectText : Q → String) : List (Expr Q × Expr Q) → String
  | [] => ""
  | (condition, value) :: rest =>
    " WHEN " ++ toString selectText condition ++ " THEN " ++ toString selectText value ++
      whenThenToString selectText rest

end

end Expr

end NobugDb
