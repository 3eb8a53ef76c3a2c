/-!
# Failures of expressions

Why an expression has no value. Columns count characters from one.
-/

namespace Stencil.Expr

/-- Why an expression has no value. -/
inductive Error where
  /-- The text is no expression; `column` is where that shows. -/
  | malformed (message : String) (column : Nat)
  /-- The text uses a construct that the language leaves out. -/
  | unsupported (construct : String)
  /-- An operator does not apply to values of these kinds. -/
  | typeMismatch (operator left right : String)
  | divisionByZero
  /-- The exact result does not fit. -/
  | overflow (operator : String)
  deriving DecidableEq, Repr

/-- The wording of a failure. -/
def Error.message : Error → String
  | .malformed message column =>
    "Invalid expression at column " ++ toString column ++ ": " ++ message
  | .unsupported construct => "Unsupported expression syntax: " ++ construct
  | .typeMismatch operator left right =>
    "Unsupported operand types for " ++ operator ++ ": " ++ left ++ " and " ++ right
  | .divisionByZero => "Division by zero"
  | .overflow operator => "Integer overflow in " ++ operator

end Stencil.Expr
