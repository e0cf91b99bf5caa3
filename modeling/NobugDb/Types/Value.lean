import NobugDb.Utils.Exceptions

/-!
# SQL values

`Value` (`include/types/value.h`, `src/types/value.cc`) is a variant of NULL, a 64-bit
integer, a double, a string and a boolean. A double is Lean's `Float`, which is the same
IEEE binary64 format. The comparison operators below are the C++ operators of the same
class, as Boolean functions: they are what WHERE, the B-tree and ORDER BY compare with,
and they are neither the structural equality of `Value` nor SQL's three-valued logic.
-/

namespace NobugDb

/-- `DataType` (`include/types/data_type.h`). -/
inductive DataType where
  | int
  | float
  | string
  | boolean
  | date
  | uuid
  deriving DecidableEq, Repr

/-- `data_type_to_string`. -/
def DataType.toString : DataType → String
  | .int => "INT"
  | .float => "FLOAT"
  | .string => "STRING"
  | .boolean => "BOOLEAN"
  | .date => "DATE"
  | .uuid => "UUID"

/-- `ValueVariant` (`include/types/value.h:14-19`). -/
inductive Value where
  | null
  | int (v : Int)
  | float (v : Float)
  | string (v : String)
  | bool (v : Bool)
  deriving DecidableEq

/-! ## Printing -/

/-- The digits after the decimal point, without trailing zeros. -/
def stripZeros (digits : List Char) : List Char :=
  (digits.reverse.dropWhile (· == '0')).reverse

/-- `num / den` rounded to the nearest integer, ties to even. -/
def roundDiv (num den : Nat) : Nat :=
  let q := num / den
  let r := num % den
  if 2 * r < den then q else if den < 2 * r then q + 1 else if q % 2 = 0 then q else q + 1

/-- The six significant digits of `num / den` and the decimal exponent of the first one. -/
def significantDigits (num den : Nat) : Nat × Int :=
  let exponent : Int :=
    if den ≤ num then (Nat.log 10 (num / den) : Int)
    else -(Nat.clog 10 ((den + num - 1) / num) : Int)
  let scale : Int := 5 - exponent
  let d :=
    if 0 ≤ scale then roundDiv (num * 10 ^ scale.toNat) den
    else roundDiv num (den * 10 ^ (-scale).toNat)
  if d = 1000000 then (100000, exponent + 1) else (d, exponent)

/-- `std::ostringstream << double` with the default precision of six digits. -/
def printDouble (x : Float) : String :=
  let sign := if x.toBits >>> 63 = 1 then "-" else ""
  match x.toRatParts with
  | none => sign ++ (if x.isNaN then "nan" else "inf")
  | some (m, e) =>
    let num := m.natAbs * (if 0 ≤ e then 2 ^ e.toNat else 1)
    let den := if 0 ≤ e then 1 else 2 ^ (-e).toNat
    if num = 0 then sign ++ "0"
    else
      let (d, exponent) := significantDigits num den
      let digits := Nat.toDigits 10 d
      let fraction (front back : List Char) :=
        match stripZeros back with
        | [] => String.ofList front
        | rest => String.ofList (front ++ '.' :: rest)
      if exponent < -4 ∨ 6 ≤ exponent then
        let magnitude := Nat.toDigits 10 exponent.natAbs
        let padded := if magnitude.length < 2 then '0' :: magnitude else magnitude
        sign ++ fraction (digits.take 1) (digits.drop 1) ++
          (if exponent < 0 then "e-" else "e+") ++ String.ofList padded
      else if 0 ≤ exponent then
        sign ++ fraction (digits.take (exponent.toNat + 1)) (digits.drop (exponent.toNat + 1))
      else
        sign ++ fraction ['0'] (List.replicate (exponent.natAbs - 1) '0' ++ digits)

namespace Value

def isNull : Value → Bool
  | .null => true
  | _ => false

/-- `Value::to_string` (`value.cc:189-200`). -/
def toString : Value → String
  | .null => "NULL"
  | .int v => s!"{v}"
  | .float v => printDouble v
  | .string v => v
  | .bool v => if v then "true" else "false"

/-! ## Comparison operators -/

/-- `std::abs(a - b) < 1e-9`, the equality of doubles. -/
def near (a b : Float) : Bool :=
  (a - b).abs < 1e-9

/-- `Value::operator==` (`value.cc:100-116`). -/
def eq : Value → Value → Bool
  | .null, .null => true
  | .int a, .int b => a == b
  | .float a, .float b => near a b
  | .string a, .string b => a == b
  | .bool a, .bool b => a == b
  | .int a, .float b => near (Float.ofInt a) b
  | .float a, .int b => near a (Float.ofInt b)
  | _, _ => false

/-- `Value::operator<` (`value.cc:120-134`). Values of two different non-numeric types,
and two booleans, are compared as their printed strings. -/
def lt : Value → Value → Bool
  | .null, .null => false
  | .null, _ => true
  | _, .null => false
  | .int a, .int b => a < b
  | .float a, .float b => a < b
  | .string a, .string b => a < b
  | .int a, .float b => Float.ofInt a < b
  | .float a, .int b => a < Float.ofInt b
  | a, b => a.toString < b.toString

/-- `Value::operator<=` (`value.cc:136-138`). -/
def le (a b : Value) : Bool := a.lt b || a.eq b

/-- `Value::operator>` (`value.cc:140`). -/
def gt (a b : Value) : Bool := !a.le b

/-- `Value::operator>=` (`value.cc:142`). -/
def ge (a b : Value) : Bool := !a.lt b

/-! ## Arithmetic -/

/-- A 64-bit result; the hardware wraps where C++ leaves the overflow undefined. -/
def wrap64 (x : Int) : Int := x.bmod (2 ^ 64)

/-- `as_float` of the two numeric types; `none` for every other value. -/
def number? : Value → Option Float
  | .int v => some (Float.ofInt v)
  | .float v => some v
  | _ => none

/-- `Value::operator+` (`value.cc:145-156`). -/
def add (a b : Value) : Except Exn Value :=
  match a, b with
  | .int x, .int y => .ok (.int (wrap64 (x + y)))
  | _, _ =>
    match a.number?, b.number? with
    | some x, some y => .ok (.float (x + y))
    | _, _ =>
      match a, b with
      | .string _, _ => .ok (.string (a.toString ++ b.toString))
      | _, .string _ => .ok (.string (a.toString ++ b.toString))
      | _, _ => .error ⟨.type, "Cannot add these types"⟩

/-- `Value::operator-` (`value.cc:158-166`). -/
def sub (a b : Value) : Except Exn Value :=
  match a, b with
  | .int x, .int y => .ok (.int (wrap64 (x - y)))
  | _, _ =>
    match a.number?, b.number? with
    | some x, some y => .ok (.float (x - y))
    | _, _ => .error ⟨.type, "Cannot subtract these types"⟩

/-- `Value::operator*` (`value.cc:168-176`). -/
def mul (a b : Value) : Except Exn Value :=
  match a, b with
  | .int x, .int y => .ok (.int (wrap64 (x * y)))
  | _, _ =>
    match a.number?, b.number? with
    | some x, some y => .ok (.float (x * y))
    | _, _ => .error ⟨.type, "Cannot multiply these types"⟩

/-- `Value::operator/` (`value.cc:178-187`): always a double. -/
def div (a b : Value) : Except Exn Value :=
  match a.number?, b.number? with
  | some x, some y =>
    if y.abs < 1e-9 then .error ⟨.type, "Division by zero"⟩ else .ok (.float (x / y))
  | _, _ => .error ⟨.type, "Cannot divide these types"⟩

/-- The `MOD` case of `evaluate_expression`: C++ `%` truncates toward zero. -/
def mod (a b : Value) : Except Exn Value :=
  match a, b with
  | .int x, .int y =>
    if y = 0 then .error ⟨.undefined, "integer remainder by zero"⟩ else .ok (.int (x.tmod y))
  | _, _ => .ok .null

/-- `Value::as_bool` (`value.cc:76-85`). -/
def asBool : Value → Except Exn Bool
  | .bool v => .ok v
  | .int v => .ok (v != 0)
  | .float v => .ok (!(v == 0.0))
  | .string v => .ok (v != "" && v != "0" && v != "false")
  | .null => .error ⟨.type, "Cannot convert NULL to bool"⟩

@[simp] theorem isNull_null : isNull .null = true := rfl

@[simp] theorem isNull_eq_true {v : Value} : v.isNull = true ↔ v = .null := by
  cases v <;> simp [isNull]

@[simp] theorem isNull_eq_false {v : Value} : v.isNull = false ↔ v ≠ .null := by
  cases v <;> simp [isNull]

end Value

end NobugDb
