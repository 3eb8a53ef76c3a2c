import Stencil.Event
import Stencil.Library
import Stencil.Markup.Builder
import Stencil.Page
import Stencil.Unmet

/-!
# Chains of templates

A template may extend a parent, which may extend another one. Compiling a template renders it,
then its parent with the regions of the first page supplied, and so on up to a template without a
parent, whose page is the result. A reference back into the chain ends it as a cycle; since a
library has finitely many ids, one of the two comes to pass.
-/

namespace Stencil

namespace Chain

/-- The page of one template of a chain. A template that cannot be loaded is reported as the parent
of `extendedBy`, the id of its child and the reference there, if it has a child. -/
def page (library : Library) (context : Option Context) (id : String)
    (extendedBy : Option (String × String)) (supplied : Option Regions) :
    Except Failure Page := do
  let source ← (library.load id).mapError fun failure =>
    match extendedBy with
    | some (child, reference) =>
      .lineage (.unresolvable reference child failure.message)
    | none => failure
  let node ← (Markup.parse source).mapError .markup
  interpret node ⟨context, supplied⟩

/-- The regions at the end of a chain that has come to the template `id`, the last one of `chain`,
and what is noted on the way. -/
def climb (library : Library) (context : Option Context) (chain : List String) (id : String)
    (extendedBy : Option (String × String)) (supplied : Option Regions) :
    Except Failure Regions × List Event :=
  match page library context id extendedBy supplied with
  | .error failure => (.error failure, [])
  | .ok page =>
    let compiled := Event.compiled id page.regions.size
    match page.parent with
    | none => (.ok page.regions, [compiled])
    | some reference =>
      match _h : library.resolve (some id) reference with
      | .error failure => (.error failure, [compiled])
      | .ok parent =>
        if _hnew : parent ∈ chain then
          (.error (.lineage (.cycle (chain ++ [parent]))), [compiled])
        else
          let (result, later) := climb library context (chain ++ [parent]) parent
            (some (id, reference)) (some page.regions)
          (result, compiled :: .extending id parent :: later)
termination_by (unmet library.ids chain).length
decreasing_by exact length_unmet_lt (library.mem_ids _h) _hnew (by simp) (by simp)

end Chain

namespace Library

/-- Compiles the template that a reference stands for, with what is noted on the way. -/
def compile (library : Library) (reference : String) (context : Option Context) :
    Except Failure Regions × List Event :=
  match library.resolve none reference with
  | .error failure => (.error failure, [])
  | .ok id => Chain.climb library context [id] id none none

end Library

/-- Renders a source by itself, whatever parent it refers to. -/
def renderSource (source : String) (context : Option Context) : Except Failure Regions := do
  let node ← (Markup.parse source).mapError .markup
  return (← interpret node ⟨context, none⟩).regions

end Stencil
