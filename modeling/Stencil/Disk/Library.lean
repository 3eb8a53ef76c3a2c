import Stencil.Disk.Basic
import Stencil.Library

/-!
# Templates on a disk

A disk is a library whose ids are canonical paths, so that a file is one template whichever way a
path leads to it. A reference in a template starts from the directory that holds the template.
-/

namespace Stencil.Disk

/-- The path that a reference stands for: from the directory of the template with the id `child`,
or by itself. -/
def candidate (child : Option String) (reference : String) : String :=
  match child.bind fun child => (Path.ofString child).parent? with
  | some directory => join directory.text reference
  | none => reference

/-- The id of a reference: the canonical path of what it stands for. -/
def resolve (disk : Disk) (child : Option String) (reference : String) :
    Except Failure String :=
  match disk.canonical? (candidate child reference), child with
  | .ok location, _ => .ok (pathOf location)
  | .error fault, some child => .error (.lineage (.unresolvable reference child fault.message))
  | .error fault, none => .error (.disk (candidate child reference) fault.message)

/-- The source of the template at a path. -/
def load (disk : Disk) (id : String) : Except Failure String :=
  (disk.readText? id).mapError fun fault => .disk id fault.message

/-- A disk as a library. -/
def library (disk : Disk) : Library where
  ids := disk.locations.map pathOf
  resolve := disk.resolve
  load := disk.load
  mem_ids {child reference id} h := by
    unfold resolve at h
    split at h
    · rename_i hlocation
      simp only [Except.ok.injEq] at h
      exact h ▸ List.mem_map_of_mem (mem_locations_of_canonical? hlocation)
    · simp at h
    · simp at h

end Stencil.Disk
