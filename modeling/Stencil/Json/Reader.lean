import Stencil.Json.Lexeme

/-!
# Reading JSON

The reader takes one lexeme after the other and keeps the lists and objects that are still open.
`Datum.ofText?` reads a whole text, which holds one datum.
-/

namespace Stencil.Json

/-- A list or object that is still open, its parts last first. -/
inductive Frame where
  | list (items : List Datum)
  | object (members : List (Option String × Datum))
  /-- An object whose last member has only its name so far. -/
  | member (members : List (Option String × Datum)) (name : Option String)

/-- What the reader waits for. -/
inductive Need where
  | value
  /-- The first item of a list, or its end. -/
  | firstItem
  /-- The first name in an object, or its end. -/
  | firstName
  | name
  | colon
  /-- A comma, or the end of the innermost list or object. -/
  | more
  /-- Nothing: there is a whole datum. -/
  | done (datum : Datum)

/-- The state of the reader. -/
structure Reader where
  need : Need := .value
  /-- What is open, innermost first. -/
  frames : List Frame := []

/-- The object with members, if all of them have a name. -/
def objectOf (members : List (Option String × Datum)) : Datum :=
  match members.mapM fun m => m.1.map (·, m.2) with
  | some members => .object members
  | none => .valueless

namespace Reader

/-- Puts a finished datum where it belongs. -/
def deliver (datum : Datum) : List Frame → Option Reader
  | [] => some ⟨.done datum, []⟩
  | .list items :: frames => some ⟨.more, .list (datum :: items) :: frames⟩
  | .member members name :: frames => some ⟨.more, .object ((name, datum) :: members) :: frames⟩
  | .object _ :: _ => none

/-- Closes the innermost list or object. -/
def close (frames : List Frame) : Mark → Option Reader
  | .endList =>
    match frames with
    | .list items :: frames => deliver (.list items.reverse) frames
    | _ => none
  | .endObject =>
    match frames with
    | .object members :: frames => deliver (objectOf members.reverse) frames
    | _ => none
  | _ => none

/-- Reads the start of a datum. -/
def readValue (frames : List Frame) : Lexeme → Option Reader
  | .word datum => deliver datum frames
  | .text (some s) => deliver (.text s) frames
  | .text none => deliver .valueless frames
  | .mark .beginList => some ⟨.firstItem, .list [] :: frames⟩
  | .mark .beginObject => some ⟨.firstName, .object [] :: frames⟩
  | .mark _ => none

/-- Reads the name of a member. -/
def readName : List Frame → Lexeme → Option Reader
  | .object members :: frames, .text name => some ⟨.colon, .member members name :: frames⟩
  | _, _ => none

/-- Reads one lexeme. -/
def read (reader : Reader) (lexeme : Lexeme) : Option Reader :=
  match reader.need, lexeme with
  | .value, lexeme => readValue reader.frames lexeme
  | .firstItem, .mark .endList => close reader.frames .endList
  | .firstItem, lexeme => readValue reader.frames lexeme
  | .firstName, .mark .endObject => close reader.frames .endObject
  | .firstName, lexeme | .name, lexeme => readName reader.frames lexeme
  | .colon, .mark .colon => some ⟨.value, reader.frames⟩
  | .more, .mark .comma =>
    match reader.frames with
    | .list _ :: _ => some ⟨.value, reader.frames⟩
    | .object _ :: _ => some ⟨.name, reader.frames⟩
    | _ => none
  | .more, .mark m => close reader.frames m
  | _, _ => none

/-- The datum at the end of a text. -/
def finish (reader : Reader) : Option Datum :=
  match reader.need with
  | .done datum => some datum
  | _ => none

end Reader

/-- The datum of a list of lexemes. -/
def Datum.ofLexemes? (lexemes : List Lexeme) : Option Datum :=
  (lexemes.foldlM Reader.read {}).bind Reader.finish

/-- The datum of a text. -/
def Datum.ofText? (s : List Char) : Option Datum := (lexemes? s).bind Datum.ofLexemes?

end Stencil.Json
