import Stencil.Disk.Path

/-!
# Disks

A disk holds files, directories and symbolic links, each at a location: the names that lead to it
from the root directory. A path names a location by way of links and of parts such as `..`;
`Disk.follow` finds it, counting the links so that a loop of links is an error.

Only a path up to a certain length can be used to read or write. `canonical?` takes the parts of a
path one by one and has no such limit; the canonical path that it finds is short enough for use.

Main definitions: `Disk.canonical?` finds what a path names, `read?` reads a file,
`makeDirectories` and `write?` change the disk, `names` lists a directory.
-/

namespace Stencil

namespace Disk

/-- The names that lead from the root directory to a place. -/
abbrev Location := List String

/-- Equality of bytes is that of core, whatever else is in scope. -/
local instance decideBytes : DecidableEq ByteArray := ByteArray.instDecidableEq

/-- What a location can hold. -/
inductive Entry where
  | file (content : ByteArray)
  | directory
  /-- A symbolic link, with the path it stands for. -/
  | link (target : String)
  deriving DecidableEq

/-- Why a path cannot be used. -/
inductive Fault where
  | notFound
  /-- Something is there already. -/
  | occupied
  | notDirectory
  | isDirectory
  | linkLoop
  | nameTooLong
  /-- A path holds the character that ends a name. -/
  | nulInName
  /-- The content is not text. -/
  | notText
  deriving DecidableEq, Repr

/-- The wording of a fault. -/
def Fault.message : Fault → String
  | .notFound => "No such file or directory (os error 2)"
  | .occupied => "File exists (os error 17)"
  | .notDirectory => "Not a directory (os error 20)"
  | .isDirectory => "Is a directory (os error 21)"
  | .linkLoop => "Too many levels of symbolic links (os error 40)"
  | .nameTooLong => "File name too long (os error 36)"
  | .nulInName => "file name contained an unexpected NUL byte"
  | .notText => "stream did not contain valid UTF-8"

end Disk

open Disk

/-- A disk and the working directory that its relative paths start from. -/
structure Disk where
  /-- What each location but the root directory holds, the latest location last. -/
  entries : List (Location × Entry)
  working : Location

namespace Disk

/-! ## Entries -/

/-- What a location holds, if anything. -/
def get? (disk : Disk) (location : Location) : Option Entry :=
  if location = [] then some .directory else disk.entries.lookup location

/-- The locations that hold something. -/
def locations (disk : Disk) : List Location := [] :: disk.entries.map (·.1)

/-- The entries with one more, in the place of an older one at the same location or else last. -/
def setEntry (location : Location) (entry : Entry) :
    List (Location × Entry) → List (Location × Entry)
  | [] => [(location, entry)]
  | e :: rest =>
    if e.1 = location then (location, entry) :: rest else e :: setEntry location entry rest

/-- The disk with an entry at a location, in place of an older one. -/
def put (disk : Disk) (location : Location) (entry : Entry) : Disk :=
  { disk with entries := setEntry location entry disk.entries }

/-- The names in a directory, the latest first. -/
def names (disk : Disk) (directory : Location) : List String :=
  disk.entries.reverse.filterMap fun e =>
    if e.1.dropLast = directory then e.1.getLast? else none

private theorem lookup_setEntry (location other : Location) (entry : Entry)
    (l : List (Location × Entry)) :
    (setEntry location entry l).lookup other =
      if other = location then some entry else l.lookup other := by
  induction l with
  | nil => by_cases h : other = location <;> simp [setEntry, List.lookup_cons, h, beq_false_of_ne]
  | cons e rest ih =>
    obtain ⟨key, value⟩ := e
    by_cases hkey : key = location <;> by_cases h : other = location <;>
      by_cases ho : other = key <;> simp_all [setEntry, List.lookup_cons, beq_false_of_ne]

/-- What a location holds after a write: what was put there, or what any other one held before. -/
theorem get?_put (disk : Disk) {location : Location} (h : location ≠ []) (other : Location)
    (entry : Entry) :
    (disk.put location entry).get? other =
      if other = location then some entry else disk.get? other := by
  unfold get? put
  by_cases hroot : other = []
  · simp [hroot, h.symm]
  · simp [hroot, lookup_setEntry]

private theorem mem_of_lookup {l : List (Location × Entry)} {location : Location} {entry : Entry}
    (h : l.lookup location = some entry) : location ∈ l.map (·.1) := by
  induction l with
  | nil => simp at h
  | cons e l ih =>
    obtain ⟨key, value⟩ := e
    simp only [List.lookup_cons] at h
    split at h
    · rename_i hk
      simp [eq_of_beq hk]
    · simp [ih h]

/-- A location that holds something is listed. -/
theorem mem_locations {disk : Disk} {location : Location} (h : (disk.get? location).isSome) :
    location ∈ disk.locations := by
  unfold get? at h
  split at h
  · rename_i hroot
    simp [locations, hroot]
  · obtain ⟨entry, he⟩ := Option.isSome_iff_exists.1 h
    exact List.mem_cons_of_mem _ (mem_of_lookup he)

/-! ## Following paths -/

/-- The number of links that a path may lead through. -/
def maxLinks : Nat := 40

/-- The number of bytes that a name may have. -/
def maxNameBytes : Nat := 255

/-- The number of bytes that a path may have if it is to be used. -/
def maxPathBytes : Nat := 4095

/-- The fault of a location that has to be a directory, if it is none. -/
def directoryFault? (disk : Disk) (location : Location) : Option Fault :=
  match disk.get? location with
  | some .directory => none
  | some _ => some .notDirectory
  | none => some .notFound

/-- The location that the parts of a path lead to from a location, through at most so many links.
Only the last part may be missing, and then the location holds nothing. Where `creating` says that
a file is to be made there, no slash may follow that part. -/
def follow (disk : Disk) (creating : Bool) (links : Nat) (start : Location) :
    List String → Except Fault Location
  | [] => .ok start
  | part :: parts =>
    match disk.directoryFault? start with
    | some fault => .error fault
    | none =>
      if isIdle part then disk.follow creating links start parts
      else if part = ".." then disk.follow creating links start.dropLast parts
      else if creating ∧ parts ≠ [] ∧ parts.all (· == "") then .error .isDirectory
      else if maxNameBytes < part.utf8ByteSize then .error .nameTooLong
      else
        match disk.get? (start ++ [part]), links with
        | some (.link _), 0 => .error .linkLoop
        | some (.link target), links + 1 =>
          disk.follow creating links (if isAbsolute target then [] else start)
            (partsOf target.toList ++ parts)
        | _, links => disk.follow creating links (start ++ [part]) parts
termination_by parts => (links, parts.length)

/-- Where a path starts. -/
def startOf? (disk : Disk) (path : String) : Except Fault Location :=
  if '\x00' ∈ path.toList then .error .nulInName
  else if path = "" then .error .notFound
  else .ok (if isAbsolute path then [] else disk.working)

/-- Where a path starts that is not too long to be used. -/
def usableStartOf? (disk : Disk) (path : String) : Except Fault Location := do
  let start ← disk.startOf? path
  if maxPathBytes < path.utf8ByteSize then .error .nameTooLong else .ok start

/-- The location that a path in use leads to, which may hold nothing. -/
def locate? (disk : Disk) (creating : Bool) (path : String) : Except Fault Location := do
  disk.follow creating maxLinks (← disk.usableStartOf? path) (partsOf path.toList)

/-- The canonical path of a location. -/
def pathOf (location : Location) : String := "/" ++ "/".intercalate location

/-- The location of what a path names, however long the path is. -/
def canonical? (disk : Disk) (path : String) : Except Fault Location := do
  let location ← disk.follow false maxLinks (← disk.startOf? path) (partsOf path.toList)
  if maxPathBytes < (pathOf location).utf8ByteSize then .error .nameTooLong
  else if (disk.get? location).isSome then .ok location
  else .error .notFound

/-- What a path names is listed among the locations. -/
theorem mem_locations_of_canonical? {disk : Disk} {path : String} {location : Location}
    (h : disk.canonical? path = .ok location) : location ∈ disk.locations := by
  unfold canonical? at h
  cases hstart : disk.startOf? path with
  | error e => simp [hstart, bind, Except.bind] at h
  | ok start =>
    cases hfound : disk.follow false maxLinks start (partsOf path.toList) with
    | error e => simp [hstart, hfound, bind, Except.bind] at h
    | ok found =>
      simp only [hstart, hfound, bind, Except.bind] at h
      by_cases hlong : maxPathBytes < (pathOf found).utf8ByteSize
      · simp [hlong] at h
      · by_cases hs : (disk.get? found).isSome
        · simp only [hlong, hs, if_true, if_false, Except.ok.injEq] at h
          exact h ▸ mem_locations hs
        · simp [hlong, hs] at h

/-! ## Reading -/

/-- Whether a path in use names a directory. -/
def isDirectory (disk : Disk) (path : String) : Bool :=
  match disk.locate? false path with
  | .ok location => disk.get? location = some .directory
  | .error _ => false

/-- The names in the directory that a path names. -/
def list? (disk : Disk) (path : String) : Except Fault (List String) := do
  let location ← disk.locate? false path
  match disk.directoryFault? location with
  | some fault => .error fault
  | none => .ok (disk.names location)

/-- The content of the file that a path names. -/
def read? (disk : Disk) (path : String) : Except Fault ByteArray := do
  match disk.get? (← disk.locate? false path) with
  | some (.file content) => .ok content
  | some .directory => .error .isDirectory
  | _ => .error .notFound

/-- The text of the file that a path names. -/
def readText? (disk : Disk) (path : String) : Except Fault String := do
  match String.fromUTF8? (← disk.read? path) with
  | some text => .ok text
  | none => .error .notText

/-! ## Writing -/

/-- The disk with a new entry at a path whose last part is missing. Links are followed up to the
last part and not there. -/
def create? (disk : Disk) (path : String) (entry : Entry) : Except Fault Disk := do
  let start ← disk.usableStartOf? path
  match (partsOf path.toList).reverse.dropWhile (· == "") with
  | [] => .error .occupied
  | last :: before =>
    let directory ← disk.follow false maxLinks start before.reverse
    match disk.directoryFault? directory with
    | some fault => .error fault
    | none =>
      if maxNameBytes < last.utf8ByteSize then .error .nameTooLong
      else if isIdle last ∨ last = ".." ∨ (disk.get? (directory ++ [last])).isSome then
        .error .occupied
      else .ok (disk.put (directory ++ [last]) entry)

/-- The disk with a directory at a path, whose last part may be one already. -/
def ensureDirectory (disk : Disk) (path : String) : Disk × Option Fault :=
  match disk.create? path .directory with
  | .ok made => (made, none)
  | .error fault => (disk, if disk.isDirectory path then none else some fault)

/-- The disk with a directory at a path and all the directories above it, and why the last of them
is missing if it is. Those made before a fault stay. -/
def makeDirectories (disk : Disk) (path : Path) : Disk × Option Fault :=
  if path.text = "" then (disk, none)
  else
    match disk.create? path.text .directory, _h : path.parent? with
    | .error .notFound, some parent =>
      match disk.makeDirectories parent with
      | (above, none) => above.ensureDirectory path.text
      | (above, some fault) => (above, some fault)
    | _, _ => disk.ensureDirectory path.text
termination_by path.depth
decreasing_by exact Path.depth_lt_of_parent? _h

/-- The disk with a file at a path, in place of an older one. -/
def write? (disk : Disk) (path : String) (content : ByteArray) : Except Fault Disk := do
  let location ← disk.locate? true path
  match disk.get? location with
  | some .directory => .error .isDirectory
  | _ => .ok (disk.put location (.file content))

end Disk

end Stencil
