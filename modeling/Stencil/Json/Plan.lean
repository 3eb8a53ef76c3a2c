import Stencil.Build
import Stencil.Json.Codec

/-!
# Plans as JSON

A plan is a record of its parts. The variables may be missing, and then there are none.
-/

namespace Stencil.Codec

open Json

/-- Plans of builds. -/
def plan : Codec Plan where
  encode plan := .object [
    ("source_root", text.encode plan.sourceRoot),
    ("pattern", text.encode plan.pattern),
    ("output_dir", text.encode plan.outputDir),
    ("variables", context.encode plan.context)]
  decode? datum := do
    match ← datum.parts? ["source_root", "pattern", "output_dir", "variables"] with
    | [some sourceRoot, some pattern, some outputDir, bindings] =>
      return {
        sourceRoot := ← text.decode? sourceRoot
        pattern := ← text.decode? pattern
        outputDir := ← text.decode? outputDir
        context := ← (bindings.map context.decode?).getD (some ∅) }
    | _ => none

end Stencil.Codec
