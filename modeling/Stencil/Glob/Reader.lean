import Stencil.Glob.Basic

/-!
# Reading globs

A glob is written with `?` for one byte, `*` for any run of bytes, `[...]` for one byte of a class,
`{...,...}` for branches and `\` before a character that stands for itself. Two stars in a row are
special where they fill all that is between two slashes, or between a slash and an end of the
pattern or of a branch.

The reader takes one character after the other. After a star it waits for the next character to
tell what the star is, and after two stars likewise. `Glob.ofString?` reads a whole pattern.
-/

namespace Stencil

namespace Glob

/-- Why a pattern is no glob. -/
inductive Fault where
  | unclosedClass
  /-- A range in a class ends before it starts. -/
  | invalidRange (first last : Char)
  | unclosedGroup
  | unopenedGroup
  /-- Nothing follows a backslash. -/
  | danglingEscape
  deriving DecidableEq, Repr

/-- The wording of a fault of a pattern. -/
def Fault.message (pattern : String) (fault : Fault) : String :=
  "error parsing glob '" ++ pattern ++ "': " ++ match fault with
    | .unclosedClass => "unclosed character class; missing ']'"
    | .invalidRange first last =>
      "invalid range; '" ++ first.toString ++ "' > '" ++ last.toString ++ "'"
    | .unclosedGroup =>
      "unclosed alternate group; missing '\x7d' (maybe escape '\x7b' with '[\x7b]'?)"
    | .unopenedGroup =>
      "unopened alternate group; missing '\x7b' (maybe escape '\x7d' with '[\x7d]'?)"
    | .danglingEscape => "dangling '\\'"

/-! ## Classes -/

/-- A class that is being read. -/
structure ClassReader where
  negated : Bool
  /-- The ranges so far, last first. -/
  ranges : List (Char × Char)
  /-- Whether the next character ends the last range. -/
  inRange : Bool := false

namespace ClassReader

/-- A class with one more character. -/
def add (reader : ClassReader) (c : Char) : Except Fault ClassReader :=
  match reader.inRange, reader.ranges with
  | true, (first, _) :: ranges =>
    if c < first then .error (.invalidRange first c)
    else .ok { reader with ranges := (first, c) :: ranges, inRange := false }
  | _, ranges => .ok { reader with ranges := (c, c) :: ranges, inRange := false }

/-- The finished class. A dash at its end stands for itself. -/
def piece (reader : ClassReader) : Piece :=
  let ranges := if reader.inRange then ('-', '-') :: reader.ranges else reader.ranges
  .oneOf reader.negated ranges.reverse

end ClassReader

/-! ## The reader -/

/-- What the next character is read as. -/
inductive Mode where
  /-- A piece of its own. -/
  | plain
  /-- The successor of a star, behind the character `before`. -/
  | star (before : Option Char)
  /-- The successor of two stars, behind the character `before`. -/
  | doubleStar (before : Option Char)
  /-- What a backslash stands before. -/
  | escaped
  /-- The first character of a class. -/
  | classStart
  /-- Part of a class. -/
  | inClass (reader : ClassReader)

/-- A group that is being read. -/
structure Group where
  /-- The finished branches, last first. -/
  branches : List (List Piece)
  /-- The pieces before the group, last first. -/
  before : List Piece

/-- A pattern that is being read. -/
structure Reader where
  mode : Mode := .plain
  /-- The character read last. -/
  last : Option Char := none
  /-- The pieces of the present branch, last first. -/
  pieces : List Piece := []
  /-- The open groups, innermost first. -/
  groups : List Group := []

namespace Reader

/-- Adds a piece to the present branch. -/
def push (reader : Reader) (piece : Piece) : Reader :=
  { reader with pieces := piece :: reader.pieces, mode := .plain }

/-- Whether pieces are nothing but choices without branches. -/
def isIdle (pieces : List Piece) : Bool :=
  pieces.all fun
    | .choice [] => true
    | _ => false

/-- Closes the innermost group. Its idle branches are dropped. -/
def closeGroup (reader : Reader) : Except Fault Reader :=
  match reader.groups with
  | [] => .error .unopenedGroup
  | group :: groups =>
    let branches := (reader.pieces.reverse :: group.branches).reverse
    .ok { reader with
      pieces := .choice (branches.filter (!isIdle ·)) :: group.before
      groups := groups }

/-- Begins another branch of the innermost group. A comma outside all groups stands for itself. -/
def nextBranch (reader : Reader) : Reader :=
  match reader.groups with
  | [] => reader.push (.literal ',')
  | group :: groups =>
    { reader with
      pieces := []
      groups := { group with branches := reader.pieces.reverse :: group.branches } :: groups }

/-- Reads the start of a piece. -/
def readPlain (reader : Reader) (c : Char) : Except Fault Reader :=
  match c with
  | '?' => .ok (reader.push .any)
  | '*' => .ok { reader with mode := .star reader.last }
  | '[' => .ok { reader with mode := .classStart }
  | '{' => .ok { reader with pieces := [], groups := ⟨[], reader.pieces⟩ :: reader.groups }
  | '}' => reader.closeGroup
  | ',' => .ok reader.nextBranch
  | '\\' => .ok { reader with mode := .escaped }
  | c => .ok (reader.push (.literal c))

/-- Puts the piece of two stars behind a slash in the place of that slash, unless the piece there
covers it. -/
def absorb (reader : Reader) (piece : Piece) : Reader :=
  match reader.pieces with
  | .leading :: _ | .trailing :: _ => { reader with mode := .plain }
  | pieces => { reader with mode := .plain, pieces := piece :: pieces.drop 1 }

/-- Settles what two stars behind the character `before` are by the character `next` that follows
them. Also says whether that character belongs to them. -/
def settle (reader : Reader) (before next : Option Char) : Reader × Bool :=
  let ordinary := ((reader.push .run).push .run, false)
  if reader.pieces.isEmpty then
    if next.all (· = '/') then (reader.push .leading, true) else ordinary
  else if before ≠ some '/' ∧
      (reader.groups.isEmpty ∨ before ≠ some ',' ∧ before ≠ some '{') then ordinary
  else
    match next with
    | none => (reader.absorb .trailing, false)
    | some '/' => (reader.absorb .between, true)
    | some c =>
      if (c = ',' ∨ c = '}') ∧ ¬ reader.groups.isEmpty then (reader.absorb .trailing, false)
      else ordinary

/-- Reads one character in the present mode. -/
def readIn (reader : Reader) (c : Char) : Except Fault Reader :=
  match reader.mode with
  | .plain => reader.readPlain c
  | .star before =>
    if c = '*' then .ok { reader with mode := .doubleStar before }
    else (reader.push .run).readPlain c
  | .doubleStar before =>
    match reader.settle before (some c) with
    | (settled, true) => .ok settled
    | (settled, false) => settled.readPlain c
  | .escaped => .ok (reader.push (.literal c))
  | .classStart =>
    if c = '!' ∨ c = '^' then .ok { reader with mode := .inClass ⟨true, [], false⟩ }
    else .ok { reader with mode := .inClass ⟨false, [(c, c)], false⟩ }
  | .inClass content =>
    if content.ranges.isEmpty then
      .ok { reader with mode := .inClass { content with ranges := [(c, c)] } }
    else
      match c with
      | ']' => .ok (reader.push content.piece)
      | '-' =>
        if content.inRange then do return { reader with mode := .inClass (← content.add '-') }
        else .ok { reader with mode := .inClass { content with inRange := true } }
      | c => do return { reader with mode := .inClass (← content.add c) }

/-- Reads one character. -/
def read (reader : Reader) (c : Char) : Except Fault Reader := do
  return { ← reader.readIn c with last := some c }

/-- The glob at the end of a pattern. -/
def finish (reader : Reader) : Except Fault Glob :=
  let reader? : Except Fault Reader := match reader.mode with
    | .plain => .ok reader
    | .star _ => .ok (reader.push .run)
    | .doubleStar before => .ok (reader.settle before none).1
    | .escaped => .error .danglingEscape
    | .classStart | .inClass _ => .error .unclosedClass
  reader?.bind fun reader =>
    if reader.groups.isEmpty then .ok ⟨reader.pieces.reverse⟩ else .error .unclosedGroup

end Reader

/-- Reads a pattern. -/
def ofString? (pattern : String) : Except Fault Glob := do
  (← pattern.toList.foldlM Reader.read {}).finish

end Glob

end Stencil
