import Stencil.Expr.Basic
import Stencil.Expr.Error

/-!
# Arithmetic

Integers are computed exactly: a result that does not fit in 64 bits is an overflow and never
wraps. A float among the operands, a division, or a negative exponent makes the result a float.
Truth values count as zero and one. Texts can be concatenated and repeated.
-/

namespace Stencil

/-- A number that an operator works on. -/
inductive Number where
  | int (n : Int64)
  | float (x : Float)

namespace Number

/-- The number that a value stands for, if it stands for one. -/
def ofValue? : Value → Option Number
  | .int n => some (.int n)
  | .float x => some (.float x)
  | .bool b => some (.int (if b then 1 else 0))
  | .str _ | .undefined => none

/-- The value of a number. -/
def toValue : Number → Value
  | .int n => .int n
  | .float x => .float x

/-- The float nearest to a number. -/
def toFloat : Number → Float
  | .int n => Decimal.ofInt n.toInt
  | .float x => x

end Number

namespace Expr

/-! ## Integers -/

/-- The remainder that has the sign of the divisor. It is not defined at the one quotient that does
not fit, that of the least integer by minus one. -/
def intMod? (x y : Int64) : Option Int64 :=
  if (Value.int64? (x.toInt.tdiv y.toInt)).isNone then none
  else Value.int64? (x.toInt.fmod y.toInt)

/-- The greatest exponent that an integer is raised to. -/
def maxExponent : Nat := 2 ^ 32 - 1

/-- A power with a natural exponent, if it fits. Past the sixty-third, only powers of zero, one and
minus one do. -/
def intPow? (x : Int64) (y : Nat) : Option Int64 :=
  if maxExponent < y then none
  else if x.toInt.natAbs ≤ 1 then
    if y = 0 then some 1 else if y % 2 = 1 then some x else some (x * x)
  else if 64 ≤ y then none
  else Value.int64? (x.toInt ^ y)

/-! ## Floats -/

/-- The remainder of one magnitude by another, exactly: a multiple of the smaller power of two. -/
def remainderPattern (x y : Nat) : Nat :=
  let a := Decimal.Magnitude.ofPattern x
  let b := Decimal.Magnitude.ofPattern y
  let e := min a.exponent b.exponent
  let r := (a.significand * 2 ^ (a.exponent - e).toNat) %
    (b.significand * 2 ^ (b.exponent - e).toNat)
  if r = 0 then 0 else Decimal.nearestPattern (r * 2 ^ e.toNat) (2 ^ (-e).toNat)

/-- The remainder that has the sign of the dividend; that of an infinite dividend, or of anything
that is not a number, is not a number. -/
def truncatedRemainder (x y : Float) : Float :=
  if x.isNaN || y.isNaN || x.isInf || y == 0 then 0 / 0
  else if y.isInf then x
  else
    Decimal.ofPattern (Decimal.isNegative x)
      (remainderPattern (Decimal.patternOf x) (Decimal.patternOf y))

/-- The remainder that has the sign of the divisor. -/
def floatMod (x y : Float) : Float :=
  let r := truncatedRemainder x y
  if r != 0 && (decide (r < 0)) != (decide (y < 0)) then r + y else r

/-- Arithmetic on two floats. -/
def floatArithmetic (op : Operator) (x y : Float) : Except Error Float :=
  match op with
  | .add => .ok (x + y)
  | .sub => .ok (x - y)
  | .mul => .ok (x * y)
  | .div => if y == 0 then .error .divisionByZero else .ok (x / y)
  | .mod => if y == 0 then .error .divisionByZero else .ok (floatMod x y)
  | .pow => if x == 0 && decide (y < 0) then .error .divisionByZero else .ok (Float.pow x y)

/-! ## Numbers -/

/-- An exact result that has to fit. -/
def exactly (op : Operator) : Option Int64 → Except Error Value
  | some n => .ok (.int n)
  | none => .error (.overflow op.symbol)

/-- Arithmetic on two integers. -/
def intArithmetic (op : Operator) (x y : Int64) : Except Error Value :=
  let asFloats := do
    return Value.float (← floatArithmetic op (Number.int x).toFloat (Number.int y).toFloat)
  match op with
  | .add => exactly op (Value.int64? (x.toInt + y.toInt))
  | .sub => exactly op (Value.int64? (x.toInt - y.toInt))
  | .mul => exactly op (Value.int64? (x.toInt * y.toInt))
  | .div => asFloats
  | .mod => if y = 0 then .error .divisionByZero else exactly op (intMod? x y)
  | .pow =>
    if 0 ≤ y then exactly op (intPow? x y.toInt.toNat)
    else if x = 0 then .error .divisionByZero
    else asFloats

/-- Arithmetic on two numbers. -/
def numberArithmetic (op : Operator) : Number → Number → Except Error Value
  | .int x, .int y => intArithmetic op x y
  | a, b => return .float (← floatArithmetic op a.toFloat b.toFloat)

/-! ## Values -/

/-- The failure of an operator on values of the wrong kinds. -/
def mismatch (symbol : String) (left right : Value) : Error :=
  .typeMismatch symbol left.kind right.kind

/-- The greatest number of bytes that a repeated text may have. -/
def maxRepeated : Nat := 2 ^ 24

/-- A text written so many times in a row. -/
def times (s : String) (n : Nat) : String :=
  if n = 0 then ""
  else
    let half := times s (n / 2)
    if n % 2 = 0 then half ++ half else half ++ half ++ s
termination_by n
decreasing_by omega

/-- A text repeated, if the result is short enough; a negative number of times is none. -/
def repeated (s : String) (count : Int64) : Except Error Value :=
  let n := count.toInt.toNat
  if s.utf8ByteSize * n ≤ maxRepeated then .ok (.str (times s n))
  else .error (.overflow Operator.mul.symbol)

/-- Arithmetic on two values. -/
def arithmetic (op : Operator) (left right : Value) : Except Error Value :=
  match op, left, right with
  | .add, .str a, .str b => .ok (.str (a ++ b))
  | .mul, .str s, other | .mul, other, .str s =>
    match other, Number.ofValue? other with
    | .float _, _ => .error (mismatch op.symbol left right)
    | _, some (.int n) => repeated s n
    | _, _ => .error (mismatch op.symbol left right)
  | _, _, _ =>
    match Number.ofValue? left, Number.ofValue? right with
    | some a, some b => numberArithmetic op a b
    | _, _ => .error (mismatch op.symbol left right)

/-- A value with a sign in front. -/
def sign (s : Sign) (value : Value) : Except Error Value :=
  match s, Number.ofValue? value with
  | .plus, some a => .ok a.toValue
  | .minus, some (.int n) =>
    match Value.int64? (-n.toInt) with
    | some m => .ok (.int m)
    | none => .error (.overflow s.symbol)
  | .minus, some (.float x) => .ok (.float (-x))
  | _, none => .error (mismatch s.symbol value value)

end Expr

end Stencil
