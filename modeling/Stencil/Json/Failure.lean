import Stencil.Failure
import Stencil.Json.Codec

/-!
# Failures as JSON

Each kind of failure is a case named for it, with the parts of the failure under their names.
-/

namespace Stencil.Codec

open Json

/-- One text under a name. -/
private def text₁ (name : String) : Codec String := record₁ name text

/-- Two texts under their names. -/
private def text₂ (name₁ name₂ : String) : Codec (String × String) :=
  record₂ name₁ text name₂ text

/-- Three texts under their names. -/
private def text₃ (name₁ name₂ name₃ : String) : Codec (String × String × String) :=
  record₃ name₁ text name₂ text name₃ text

/-- Faults of a template source. -/
def markupFault : Codec Markup.Fault where
  encode
    | .unexpectedToken expected found =>
      .ofCase "UnexpectedToken" ((text₂ "expected" "found").encode (expected, found))
    | .unexpectedEnd expectation =>
      .ofCase "UnexpectedEof" ((text₁ "expected_what").encode expectation)
    | .unknownKeyword keyword => .ofCase "UnknownKeyword" ((text₁ "keyword").encode keyword)
    | .misplacedKeyword keyword => .ofCase "MisplacedKeyword" ((text₁ "keyword").encode keyword)
    | .emptyMarker => .text "EmptyMarker"
    | .missingArgument keyword => .ofCase "MissingArgument" ((text₁ "keyword").encode keyword)
    | .unexpectedArgument keyword argument =>
      .ofCase "UnexpectedArgument" ((text₂ "keyword" "argument").encode (keyword, argument))
    | .unbalanced keyword reason =>
      .ofCase "Unbalanced" ((text₂ "keyword" "reason").encode (keyword, reason))
  decode? datum := do
    match ← datum.case? with
    | ("UnexpectedToken", some d) =>
      ((text₂ "expected" "found").decode? d).map fun p => .unexpectedToken p.1 p.2
    | ("UnexpectedEof", some d) => ((text₁ "expected_what").decode? d).map .unexpectedEnd
    | ("UnknownKeyword", some d) => ((text₁ "keyword").decode? d).map .unknownKeyword
    | ("MisplacedKeyword", some d) => ((text₁ "keyword").decode? d).map .misplacedKeyword
    | ("EmptyMarker", none) | ("EmptyMarker", some .null) => some .emptyMarker
    | ("MissingArgument", some d) => ((text₁ "keyword").decode? d).map .missingArgument
    | ("UnexpectedArgument", some d) =>
      ((text₂ "keyword" "argument").decode? d).map fun p => .unexpectedArgument p.1 p.2
    | ("Unbalanced", some d) =>
      ((text₂ "keyword" "reason").decode? d).map fun p => .unbalanced p.1 p.2
    | _ => none

/-- Faults with their lines. -/
def markupError : Codec Markup.Error where
  encode e := (record₂ "line" natural "kind" markupFault).encode (e.line, e.fault)
  decode? datum :=
    ((record₂ "line" natural "kind" markupFault).decode? datum).map fun p => ⟨p.1, p.2⟩

/-- Failures of expressions. -/
def exprError : Codec Expr.Error where
  encode
    | .malformed message column =>
      .ofCase "Syntax" ((record₂ "message" text "column" natural).encode (message, column))
    | .unsupported construct => .ofCase "Unsupported" ((text₁ "construct").encode construct)
    | .typeMismatch operator left right =>
      .ofCase "TypeMismatch" ((text₃ "operator" "left" "right").encode (operator, left, right))
    | .divisionByZero => .text "DivisionByZero"
    | .overflow operator => .ofCase "Overflow" ((text₁ "operator").encode operator)
  decode? datum := do
    match ← datum.case? with
    | ("Syntax", some d) =>
      ((record₂ "message" text "column" natural).decode? d).map fun p => .malformed p.1 p.2
    | ("Unsupported", some d) => ((text₁ "construct").decode? d).map .unsupported
    | ("TypeMismatch", some d) =>
      ((text₃ "operator" "left" "right").decode? d).map fun p => .typeMismatch p.1 p.2.1 p.2.2
    | ("DivisionByZero", none) | ("DivisionByZero", some .null) => some .divisionByZero
    | ("Overflow", some d) => ((text₁ "operator").decode? d).map .overflow
    | _ => none

/-- Broken chains of templates. -/
def lineageError : Codec LineageError where
  encode
    | .unresolvable reference child reason =>
      .ofCase "Unresolvable"
        ((text₃ "reference" "from" "reason").encode (reference, child, reason))
    | .cycle chain => .ofCase "Cycle" ((record₁ "chain" (list text)).encode chain)
    | .multipleParents first second =>
      .ofCase "MultipleParents" ((text₂ "first" "second").encode (first, second))
  decode? datum := do
    match ← datum.case? with
    | ("Unresolvable", some d) =>
      ((text₃ "reference" "from" "reason").decode? d).map fun p => .unresolvable p.1 p.2.1 p.2.2
    | ("Cycle", some d) => ((record₁ "chain" (list text)).decode? d).map .cycle
    | ("MultipleParents", some d) =>
      ((text₂ "first" "second").decode? d).map fun p => .multipleParents p.1 p.2
    | _ => none

/-- Failures. -/
def failure : Codec Failure where
  encode
    | .templateExists name => .ofCase "TemplateExists" ((text₁ "template_name").encode name)
    | .missingTemplate name => .ofCase "MissingTemplate" ((text₁ "template_name").encode name)
    | .disk path message => .ofCase "Io" ((text₂ "path" "message").encode (path, message))
    | .badPattern pattern message =>
      .ofCase "Pattern" ((text₂ "pattern" "message").encode (pattern, message))
    | .markup error => .ofCase "Parse" (markupError.encode error)
    | .expr error => .ofCase "Eval" (exprError.encode error)
    | .lineage error => .ofCase "Inheritance" (lineageError.encode error)
  decode? datum := do
    match ← datum.case? with
    | ("TemplateExists", some d) => ((text₁ "template_name").decode? d).map .templateExists
    | ("MissingTemplate", some d) => ((text₁ "template_name").decode? d).map .missingTemplate
    | ("Io", some d) => ((text₂ "path" "message").decode? d).map fun p => .disk p.1 p.2
    | ("Pattern", some d) =>
      ((text₂ "pattern" "message").decode? d).map fun p => .badPattern p.1 p.2
    | ("Parse", some d) => (markupError.decode? d).map .markup
    | ("Eval", some d) => (exprError.decode? d).map .expr
    | ("Inheritance", some d) => (lineageError.decode? d).map .lineage
    | _ => none

end Stencil.Codec
