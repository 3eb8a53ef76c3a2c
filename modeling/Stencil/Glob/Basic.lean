/-!
# Globs

A glob is a pattern for the paths of files. It is matched against the whole path, byte by byte in
UTF-8, and all that is special about a slash is said by the three pieces that double stars make.

A piece is matched at the start of a list of bytes, and may end at several places. `Piece.rests`
lists what can be left over, and `Glob.accepts` asks whether nothing can.
-/

namespace Stencil

namespace Glob

/-- What a glob is made of. -/
inductive Piece where
  /-- The character itself. -/
  | literal (c : Char)
  /-- One byte. -/
  | any
  /-- Any number of bytes. -/
  | run
  /-- Nothing, or the directories that a path starts with. -/
  | leading
  /-- A slash and all that follows. -/
  | trailing
  /-- A slash, or the directories between two slashes. -/
  | between
  /-- One byte that is in one of the ranges, or one that is in none of them. -/
  | oneOf (negated : Bool) (ranges : List (Char × Char))
  /-- One of several branches, none of which is idle; nothing if there is no branch. -/
  | choice (branches : List (List Piece))

/-- The bytes of a character. -/
def bytesOf (c : Char) : List UInt8 := String.utf8EncodeChar c

/-- The slash as a byte. -/
def slash : UInt8 := 47

/-- What is left over after any number of bytes. -/
def suffixes : List UInt8 → List (List UInt8)
  | [] => [[]]
  | b :: s => (b :: s) :: suffixes s

/-- What is left over after each slash. -/
def afterSlashes : List UInt8 → List (List UInt8)
  | [] => []
  | b :: s => if b = slash then s :: afterSlashes s else afterSlashes s

/-- What is left over after some bytes, if the list starts with them. -/
def afterBytes : List UInt8 → List UInt8 → List (List UInt8)
  | [], s => [s]
  | _ :: _, [] => []
  | a :: bytes, b :: s => if a = b then afterBytes bytes s else []

/-- What is left over after one byte with a property. -/
def afterOne (accepted : UInt8 → Bool) : List UInt8 → List (List UInt8)
  | [] => []
  | b :: s => if accepted b then [s] else []

/-- Whether a byte is in the range of two characters. The range runs from the last byte of the one
to the first byte of the other, and their further bytes stand for themselves. -/
def inRange (b : UInt8) (range : Char × Char) : Bool :=
  let first := bytesOf range.1
  let last := bytesOf range.2
  first.contains b || last.contains b ||
    range.1 != range.2 && first.getLast?.any (· ≤ b) && last.head?.any (b ≤ ·)

mutual

/-- What can be left over after a piece. -/
def Piece.rests : Piece → List UInt8 → List (List UInt8)
  | .literal c, s => afterBytes (bytesOf c) s
  | .any, s => afterOne (fun _ => true) s
  | .run, s => suffixes s
  | .leading, s => s :: afterSlashes s
  | .trailing, s => (afterOne (· == slash) s).flatMap suffixes
  | .between, s => (afterOne (· == slash) s).flatMap fun rest => rest :: afterSlashes rest
  | .oneOf negated ranges, s => afterOne (fun b => ranges.any (inRange b) != negated) s
  | .choice [], s => [s]
  | .choice (branch :: branches), s => restsOfAny (branch :: branches) s

/-- What can be left over after one branch of several. -/
def restsOfAny : List (List Piece) → List UInt8 → List (List UInt8)
  | [], _ => []
  | branch :: branches, s => restsOfAll branch [s] ++ restsOfAny branches s

/-- What can be left over after pieces in a row, from any of several starts. -/
def restsOfAll : List Piece → List (List UInt8) → List (List UInt8)
  | [], starts => starts
  | piece :: pieces, starts => restsOfAll pieces (starts.flatMap piece.rests).eraseDups

end

end Glob

/-- A pattern for paths. -/
structure Glob where
  pieces : List Glob.Piece

/-- Whether a glob stands for a path. Leading directories alone stand for every path. -/
def Glob.accepts (glob : Glob) (path : String) : Bool :=
  match glob.pieces with
  | [.leading] => true
  | pieces => (Glob.restsOfAll pieces [path.toUTF8.toList]).contains []

end Stencil
