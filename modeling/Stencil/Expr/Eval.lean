import Stencil.Expr.Builder
import Stencil.Expr.Compare
import Stencil.Expr.Scan

/-!
# Evaluating expressions

An expression is evaluated in a context of variables. A name that the context does not hold, or any
name where there is no context, is undefined. Operands are evaluated from left to right, all of
them, and the first failure is the result.
-/

namespace Stencil.Expr

/-- The value of a name. -/
def valueOf (context : Option Context) (name : String) : Value :=
  (context.bind (·.get? name)).getD .undefined

mutual

/-- The value of an expression. -/
def eval (context : Option Context) : Expr → Except Error Value
  | .literal value => .ok value
  | .name word => .ok (valueOf context word)
  | .signed s operand => do sign s (← eval context operand)
  | .binary left op right => do
    let a ← eval context left
    let b ← eval context right
    arithmetic op a b
  | .chain first links => do
    let a ← eval context first
    return .bool (← evalLinks context a links)

/-- Whether every link of a chain holds, when `left` stands in front of the first. -/
def evalLinks (context : Option Context) (left : Value) :
    List (Comparison × Expr) → Except Error Bool
  | [] => .ok true
  | (op, operand) :: links => do
    let right ← eval context operand
    let holds ← compareValues op left right
    let others ← evalLinks context right links
    return holds && others

end

/-- The expression that a text spells. -/
def parse (source : String) : Except Error Expr := do
  build (source.length + 1) (← scan 1 source.toList)

/-- The value of the expression that a text spells. -/
def evaluate (source : String) (context : Option Context) : Except Error Value := do
  eval context (← parse source)

end Stencil.Expr
