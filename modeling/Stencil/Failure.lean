import Stencil.Expr.Error
import Stencil.Markup.Error

/-!
# Failures

Everything that can go wrong between a reference to a template and a finished page, with its
wording.
-/

namespace Stencil

/-- Why the templates that a page is made of do not form a chain. -/
inductive LineageError where
  /-- The parent that `child` refers to cannot be found or read. -/
  | unresolvable (reference child reason : String)
  /-- Following parents leads back to a template of the chain, whose ids are listed in order. -/
  | cycle (chain : List String)
  /-- A template names two different parents. -/
  | multipleParents (first second : String)
  deriving DecidableEq, Repr

/-- The wording of a broken chain. -/
def LineageError.message : LineageError → String
  | .unresolvable reference child reason =>
    "Parent template '" ++ reference ++ "' extended by '" ++ child ++
      "' could not be resolved: " ++ reason
  | .cycle chain => "Template inheritance cycle: " ++ " -> ".intercalate chain
  | .multipleParents first second =>
    "Template extends both '" ++ first ++ "' and '" ++ second ++ "'"

/-- Why there is no page. -/
inductive Failure where
  /-- The name of a new template is taken. -/
  | templateExists (name : String)
  /-- No template has this name. -/
  | missingTemplate (name : String)
  /-- A file or directory cannot be used. -/
  | disk (path message : String)
  /-- A pattern for paths is malformed. -/
  | badPattern (pattern message : String)
  | markup (error : Markup.Error)
  | expr (error : Expr.Error)
  | lineage (error : LineageError)
  deriving DecidableEq, Repr

/-- The wording of a failure. -/
def Failure.message : Failure → String
  | .templateExists name => "Template already exists: " ++ name
  | .missingTemplate name => "Template not found: " ++ name
  | .disk path message => "I/O error on " ++ path ++ ": " ++ message
  | .badPattern pattern message => "Invalid glob pattern '" ++ pattern ++ "': " ++ message
  | .markup error => error.message
  | .expr error => error.message
  | .lineage error => error.message

end Stencil
