import Stencil.Chain
import Stencil.Disk.Library
import Stencil.Disk.Walk
import Stencil.Glob.Reader

/-!
# Building a tree of pages

A build compiles the templates below a directory whose paths match a glob, and writes each page to
the same path below the output directory. A template that fails is reported, and the others are
built all the same. The output directory is not searched for templates, so what a build has written
is not taken for a template by the next one.
-/

namespace Stencil

/-- What is to be built. -/
structure Plan where
  /-- The directory that is searched for templates. -/
  sourceRoot : String
  /-- The glob of the wanted paths, which start from `sourceRoot`. -/
  pattern : String
  /-- The directory that pages are written to. -/
  outputDir : String
  context : Context

/-- What has been built. -/
structure Report where
  /-- The paths of the pages. -/
  written : List String := []
  /-- The paths of the templates without a page, each with the reason. -/
  failed : List (String × Failure) := []

/-- Whether nothing failed. -/
def Report.isSuccess (report : Report) : Bool := report.failed.isEmpty

namespace Disk

/-- The disk with a text at a path, after the directories above it have been made, and why the text
could not be written if so. -/
def save (disk : Disk) (path text : String) : Disk × Option Failure :=
  let write (disk : Disk) : Disk × Option Failure :=
    match disk.write? path text.toUTF8 with
    | .ok written => (written, none)
    | .error fault => (disk, some (.disk path fault.message))
  match (Path.ofString path).parent? with
  | none => write disk
  | some parent =>
    match disk.makeDirectories parent with
    | (above, none) => write above
    | (above, some fault) => (above, some (.disk parent.text fault.message))

end Disk

namespace Plan

/-- A page that was written, or the reason why not. -/
structure Outcome where
  disk : Disk
  failure : Option Failure
  events : List Event

/-- Compiles the template that the names lead to and writes its page. -/
def buildPage (plan : Plan) (disk : Disk) (names : List String) : Outcome :=
  match disk.library.compile (Disk.pathBelow plan.sourceRoot names) (some plan.context) with
  | (.error failure, events) => ⟨disk, some failure, events⟩
  | (.ok regions, events) =>
    let (disk, failure) := disk.save (Disk.pathBelow plan.outputDir names) regions.root
    ⟨disk, failure, events⟩

/-- Builds the pages of several templates, one after the other. -/
def buildPages (plan : Plan) (disk : Disk) : List (List String) → Disk × Report × List Event
  | [] => (disk, {}, [])
  | names :: rest =>
    let source := Disk.pathBelow plan.sourceRoot names
    let target := Disk.pathBelow plan.outputDir names
    let page := plan.buildPage disk names
    let (disk, report, events) := plan.buildPages page.disk rest
    match page.failure with
    | none =>
      (disk, { report with written := target :: report.written },
        page.events ++ .wrote source target :: events)
    | some failure =>
      (disk, { report with failed := (source, failure) :: report.failed },
        page.events ++ .failed source failure.message :: events)

/-- What the walk of a build looks for. The output directory is left out if it exists. -/
def search (plan : Plan) (disk : Disk) (glob : Glob) : Disk.Search where
  root := plan.sourceRoot
  leftOut := (disk.canonical? plan.outputDir).toOption
  wanted := glob.accepts

/-- Runs a build: the disk afterwards, the report unless the templates could not be found, and what
is noted on the way. -/
def run (plan : Plan) (disk : Disk) : Disk × Except Failure Report × List Event :=
  match Glob.ofString? plan.pattern with
  | .error fault =>
    (disk, .error (.badPattern plan.pattern (fault.message plan.pattern)), [])
  | .ok glob =>
    match disk.collect (plan.search disk glob) with
    | (.error failure, noted) => (disk, .error failure, noted)
    | (.ok files, noted) =>
      let (after, report, events) := plan.buildPages disk files
      (after, .ok report, noted ++ .collected files.length plan.pattern :: events)

end Plan

end Stencil
