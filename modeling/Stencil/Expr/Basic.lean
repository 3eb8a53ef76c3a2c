import Stencil.Value

/-!
# Expressions

The tree of an expression: literals, names, signs, the six arithmetic operators, and chains of
comparisons such as `1 <= n < 10`.
-/

namespace Stencil

namespace Expr

/-- A sign in front of an operand. -/
inductive Sign where
  | plus
  | minus
  deriving DecidableEq, Repr

/-- The arithmetic operators. -/
inductive Operator where
  | add
  | sub
  | mul
  | div
  | mod
  | pow
  deriving DecidableEq, Repr

/-- The comparisons. -/
inductive Comparison where
  | eq
  | ne
  | lt
  | le
  | gt
  | ge
  deriving DecidableEq, Repr

/-- How an operator is written. -/
def Operator.symbol : Operator → String
  | .add => "+"
  | .sub => "-"
  | .mul => "*"
  | .div => "/"
  | .mod => "%"
  | .pow => "**"

/-- How a comparison is written. -/
def Comparison.symbol : Comparison → String
  | .eq => "=="
  | .ne => "!="
  | .lt => "<"
  | .le => "<="
  | .gt => ">"
  | .ge => ">="

/-- How error messages name a sign. -/
def Sign.symbol : Sign → String
  | .plus => "unary +"
  | .minus => "unary -"

end Expr

/-- An expression. -/
inductive Expr where
  | literal (value : Value)
  | name (name : String)
  | signed (sign : Expr.Sign) (operand : Expr)
  | binary (left : Expr) (op : Expr.Operator) (right : Expr)
  /-- A first operand and what each further one is compared with its neighbour by. -/
  | chain (first : Expr) (links : List (Expr.Comparison × Expr))
  deriving Inhabited

end Stencil
