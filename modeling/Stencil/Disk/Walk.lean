import Stencil.Disk.Basic
import Stencil.Event
import Stencil.Failure
import Stencil.Unmet

/-!
# Walking a tree of directories

A walk lists the files below a directory whose paths are wanted. It enters each directory once,
also when links lead to it by several ways or back to where the walk came from, so that it comes to
an end on every disk. One directory can be left out.

The walk keeps an agenda of paths, each as the names that lead there from the root of the tree.
`Disk.collect` lists the wanted files in the order of their names.
-/

namespace Stencil.Disk

/-- The path of the names below a directory. -/
def pathBelow (directory : String) (names : List String) : String := names.foldl join directory

/-- What a walk looks for. -/
structure Search where
  /-- The path of the directory that the walk starts from. -/
  root : String
  /-- The directory that is left out below the root, if there is one. -/
  leftOut : Option Location
  /-- Whether a file is wanted, by its path from the root. -/
  wanted : String → Bool

namespace Search

/-- The path of the names below the root. -/
def path (search : Search) (names : List String) : String := pathBelow search.root names

/-- Whether the names lead to a file, or to something else that is no directory. The root counts
as a directory. -/
def isLeaf (search : Search) (disk : Disk) (names : List String) : Bool :=
  names ≠ [] && !disk.isDirectory (search.path names)

/-- Whether the names lead to the directory that is left out. The root never is. -/
def isLeftOut (search : Search) (disk : Disk) (names : List String) : Bool :=
  names ≠ [] && search.leftOut.any fun location =>
    (disk.canonical? (search.path names)).toOption = some location

/-- The wanted files among the paths of an agenda and below them, and what is noted on the way. No
directory in `visited` is entered. -/
def run (search : Search) (disk : Disk) (visited : List Location) :
    List (List String) → Except Failure (List (List String)) × List Event
  | [] => (.ok [], [])
  | names :: agenda =>
    if search.isLeaf disk names then
      let (found, events) := search.run disk visited agenda
      if search.wanted ("/".intercalate names) then (found.map (names :: ·), events)
      else (found, events)
    else if search.isLeftOut disk names then search.run disk visited agenda
    else
      match _h : disk.canonical? (search.path names) with
      | .error fault => (.error (.disk (search.path names) fault.message), [])
      | .ok location =>
        if _hnew : location ∈ visited then
          let (found, events) := search.run disk visited agenda
          (found, .revisited (search.path names) :: events)
        else
          match disk.list? (search.path names) with
          | .error fault => (.error (.disk (search.path names) fault.message), [])
          | .ok inside =>
            search.run disk (location :: visited) (inside.map (names ++ [·]) ++ agenda)
termination_by agenda => ((unmet disk.locations visited).length, agenda.length)
decreasing_by
  · exact Prod.Lex.right _ (by simp)
  · exact Prod.Lex.right _ (by simp)
  · exact Prod.Lex.right _ (by simp)
  · exact Prod.Lex.left _ _
      (length_unmet_lt (mem_locations_of_canonical? _h) _hnew (by simp) (by simp))

end Search

/-- The wanted files of a tree, each as the names that lead to it, in ascending order, and what is
noted on the way. -/
def collect (disk : Disk) (search : Search) : Except Failure (List (List String)) × List Event :=
  let (found, events) := search.run disk [] [[]]
  (found.map (·.mergeSort fun a b => !decide (b < a)), events)

end Stencil.Disk
