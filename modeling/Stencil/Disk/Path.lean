/-!
# Paths

A path is a lead, which is the root directory, the working directory written as a dot, or nothing,
and parts separated by slashes. Parts that are empty or a single dot lead nowhere. The text of a
path is kept as it was written; only `parent?` looks at the parts.
-/

namespace Stencil.Disk

/-- How a path starts. -/
inductive Lead where
  /-- `/` -/
  | root
  /-- `.` -/
  | here
  /-- With its first part. -/
  | plain
  deriving DecidableEq, Repr

/-- A path taken apart. -/
structure Path where
  lead : Lead
  /-- The parts behind the lead, last first. -/
  parts : List String
  deriving DecidableEq, Repr

/-- A text cut at its slashes. -/
def cutAtSlashes : List Char → List (List Char)
  | [] => [[]]
  | c :: s =>
    match c, cutAtSlashes s with
    | '/', parts => [] :: parts
    | c, [] => [[c]]
    | c, part :: parts => (c :: part) :: parts

/-- The parts of a path, each as a text. -/
def partsOf (s : List Char) : List String := (cutAtSlashes s).map String.ofList

/-- Whether a path starts at the root directory. -/
def isAbsolute (path : String) : Bool := path.toList.head? == some '/'

/-- A part that leads nowhere. -/
def isIdle (part : String) : Bool := part == "" || part == "."

namespace Path

/-- The text of a lead. -/
def leadText : Lead → String
  | .root => "/"
  | .here => "."
  | .plain => ""

/-- Takes a path apart. A dot leads only where nothing but a slash follows it. -/
def ofString (path : String) : Path :=
  match path.toList with
  | '/' :: s => ⟨.root, (partsOf s).reverse⟩
  | ['.'] => ⟨.here, []⟩
  | '.' :: '/' :: s => ⟨.here, ("" :: partsOf s).reverse⟩
  | s => ⟨.plain, (partsOf s).reverse⟩

/-- The text of a path. -/
def text (path : Path) : String := leadText path.lead ++ "/".intercalate path.parts.reverse

/-- The path without its last part that leads somewhere. The root directory and the empty path have
no parent, and that of a single dot is empty. -/
def parent? (path : Path) : Option Path :=
  match path.parts.dropWhile isIdle, path.lead with
  | _ :: rest, lead => some ⟨lead, rest.dropWhile isIdle⟩
  | [], .here => some ⟨.plain, []⟩
  | [], .root | [], .plain => none

/-- A number that is smaller for a parent. -/
def depth (path : Path) : Nat := path.parts.length + if path.lead = .here then 1 else 0

private theorem length_dropWhile_le {α : Type} (p : α → Bool) (l : List α) :
    (l.dropWhile p).length ≤ l.length := (List.dropWhile_sublist p).length_le

/-- A parent is nearer to its lead. -/
theorem depth_lt_of_parent? {path parent : Path} (h : path.parent? = some parent) :
    parent.depth < path.depth := by
  unfold parent? at h
  have hle := length_dropWhile_le isIdle path.parts
  cases hparts : path.parts.dropWhile isIdle with
  | cons part rest =>
    rw [hparts] at h hle
    simp only [Option.some.injEq] at h
    subst h
    have := length_dropWhile_le isIdle rest
    simp only [depth, List.length_cons] at *
    omega
  | nil =>
    rw [hparts] at h
    cases hlead : path.lead <;> simp only [hlead, Option.some.injEq, reduceCtorEq] at h
    subst h
    simp [depth, hlead]

end Path

/-- The path of `name` as seen from the directory `directory`. An absolute one stays as it is. -/
def join (directory name : String) : String :=
  if isAbsolute name then name
  else if directory = "" ∨ directory.toList.getLast? = some '/' then directory ++ name
  else directory ++ "/" ++ name

end Stencil.Disk
