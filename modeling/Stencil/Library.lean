import Stencil.Failure
import Stencil.Table

/-!
# Libraries of templates

A library finds templates: `resolve` turns a reference into the id of a template and `load` gives
the source behind an id. An id stands for one template however it was referred to, and a library
has finitely many, so that following references from template to template meets an id again sooner
or later.

A `Shelf` is a library held in memory. Its templates have names in one flat space, and a name is
its own id.
-/

namespace Stencil

/-- A place where templates are found. -/
structure Library where
  /-- Every id that a reference can have. -/
  ids : List String
  /-- The id of a reference, as it stands in the template with the id `child`, or by itself. -/
  resolve : (child : Option String) → (reference : String) → Except Failure String
  /-- The source of the template with a given id. -/
  load : String → Except Failure String
  /-- References have no other ids than those listed. -/
  mem_ids {child : Option String} {reference id : String} :
    resolve child reference = .ok id → id ∈ ids

/-- Templates in memory, by name. -/
structure Shelf where
  sources : Table String := ∅
  deriving DecidableEq

namespace Shelf

/-- The shelf with one more template, unless its name is taken. -/
def add (shelf : Shelf) (name source : String) : Except Failure Shelf :=
  if shelf.sources.contains name then .error (.templateExists name)
  else .ok ⟨shelf.sources.insert name source⟩

/-- The id of a reference: the name itself, if there is a template of that name. -/
def resolve (shelf : Shelf) (child : Option String) (reference : String) :
    Except Failure String :=
  if shelf.sources.contains reference then .ok reference
  else
    match child with
    | some child =>
      .error (.lineage (.unresolvable reference child "no template with that name"))
    | none => .error (.missingTemplate reference)

/-- The source of a template. -/
def load (shelf : Shelf) (name : String) : Except Failure String :=
  match shelf.sources.get? name with
  | some source => .ok source
  | none => .error (.missingTemplate name)

/-- A shelf as a library. -/
def library (shelf : Shelf) : Library where
  ids := shelf.sources.names
  resolve := shelf.resolve
  load := shelf.load
  mem_ids {child reference id} h := by
    unfold resolve at h
    split at h
    · rename_i hc
      simp only [Except.ok.injEq] at h
      exact h ▸ (Table.contains_iff_mem_names.1 hc)
    · split at h <;> simp at h

/-- A reference that a shelf resolves is the name of one of its templates. -/
theorem resolve_eq_ok {shelf : Shelf} {child : Option String} {reference id : String} :
    shelf.library.resolve child reference = .ok id
      ↔ shelf.sources.contains reference ∧ reference = id := by
  change shelf.resolve child reference = .ok id ↔ _
  unfold resolve
  split
  · rename_i hthere
    simp [hthere]
  · rename_i habsent
    split <;> simp [habsent]

/-- The source that a shelf loads is the one under the name. -/
theorem load_eq_ok {shelf : Shelf} {name source : String} :
    shelf.library.load name = .ok source ↔ shelf.sources.get? name = some source := by
  change shelf.load name = .ok source ↔ _
  unfold load
  cases shelf.sources.get? name <;> simp

end Shelf

end Stencil
