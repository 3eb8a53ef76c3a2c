/-!
# Faults of a template source

Why a list of tokens is no template, and on which line it shows.
-/

namespace Stencil.Markup

/-- What is wrong with a template source. -/
inductive Fault where
  /-- A token stands where another one has to. -/
  | unexpectedToken (expected found : String)
  /-- The source ends too early; `expectation` is empty or says what was still to come. -/
  | unexpectedEnd (expectation : String)
  /-- A block marker starts with a word that is no keyword. -/
  | unknownKeyword (keyword : String)
  /-- A keyword of block markers stands in an expression marker. -/
  | misplacedKeyword (keyword : String)
  /-- A marker holds no word. -/
  | emptyMarker
  /-- A keyword lacks its argument. -/
  | missingArgument (keyword : String)
  /-- A keyword has one argument too many. -/
  | unexpectedArgument (keyword argument : String)
  /-- A marker of a block has no partner. -/
  | unbalanced (keyword reason : String)
  deriving DecidableEq, Repr

/-- The fault of a source that ends where `expected` should follow. -/
def Fault.unexpectedEndOf (expected : Option String) : Fault :=
  .unexpectedEnd <| match expected with
    | some what => " (expected '" ++ what ++ "')"
    | none => ""

/-- The wording of a fault. -/
def Fault.message : Fault → String
  | .unexpectedToken expected found => "Expected " ++ expected ++ ", found " ++ found
  | .unexpectedEnd expectation => "Unexpected EOF" ++ expectation
  | .unknownKeyword keyword => "Unknown keyword '" ++ keyword ++ "'"
  | .misplacedKeyword keyword => "'" ++ keyword ++ "' must be written inside '\x7b% %\x7d'"
  | .emptyMarker => "Empty marker"
  | .missingArgument keyword => "'" ++ keyword ++ "' requires an argument"
  | .unexpectedArgument keyword argument =>
    "Unexpected argument '" ++ argument ++ "' after '" ++ keyword ++ "'"
  | .unbalanced keyword reason => "'" ++ keyword ++ "' " ++ reason

/-- A fault and the line on which it shows. -/
structure Error where
  line : Nat
  fault : Fault
  deriving DecidableEq, Repr

/-- The wording of an error. -/
def Error.message (e : Error) : String :=
  "Parse error at line " ++ toString e.line ++ ": " ++ e.fault.message

end Stencil.Markup
