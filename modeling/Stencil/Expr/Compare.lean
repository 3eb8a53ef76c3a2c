import Stencil.Expr.Arithmetic

/-!
# Comparing values

Numbers compare as numbers: two integers exactly, and otherwise by the floats nearest to them.
Texts compare code point by code point. Any two values can be tested for equality, and values of
different kinds that are not both numbers are unequal; their order is an error.
-/

namespace Stencil.Expr

/-- Whether two values are equal. -/
def equal : Value → Value → Bool
  | .str a, .str b => a == b
  | .undefined, .undefined => true
  | left, right =>
    match Number.ofValue? left, Number.ofValue? right with
    | some (.int m), some (.int n) => m == n
    | some a, some b => a.toFloat == b.toFloat
    | _, _ => false

/-- The order of two floats, unless one of them is not a number. -/
def floatOrder? (x y : Float) : Option Ordering :=
  if x < y then some .lt else if y < x then some .gt else if x == y then some .eq else none

/-- The order of two texts. -/
def textOrder (a b : String) : Ordering := if a < b then .lt else if b < a then .gt else .eq

/-- The order of two integers. -/
def intOrder (m n : Int64) : Ordering := if m < n then .lt else if n < m then .gt else .eq

/-- The order of two values if they are comparable; numbers one of which is not a number are
comparable and have none. -/
def order? : Value → Value → Option (Option Ordering)
  | .str a, .str b => some (some (textOrder a b))
  | left, right =>
    match Number.ofValue? left, Number.ofValue? right with
    | some (.int m), some (.int n) => some (some (intOrder m n))
    | some a, some b => some (floatOrder? a.toFloat b.toFloat)
    | _, _ => none

/-- Whether an ordering satisfies a comparison. -/
def Comparison.admits : Comparison → Ordering → Bool
  | .eq, o => o == .eq
  | .ne, o => o != .eq
  | .lt, o => o == .lt
  | .le, o => o != .gt
  | .gt, o => o == .gt
  | .ge, o => o != .lt

/-- Whether a comparison of two values holds. -/
def compareValues (op : Comparison) (left right : Value) : Except Error Bool :=
  match op with
  | .eq => .ok (equal left right)
  | .ne => .ok (!equal left right)
  | .lt | .le | .gt | .ge =>
    match order? left right with
    | some (some o) => .ok (op.admits o)
    | some none => .ok false
    | none => .error (mismatch op.symbol left right)

end Stencil.Expr
