import Stencil.Json.Datum

/-!
# Writing JSON

A datum is written without blanks. A text keeps all characters but quotes, backslashes and controls
as they are.
-/

namespace Stencil.Json

/-- The letter that stands for a character behind a backslash, if there is one. -/
def escapeLetter? : Char → Option Char
  | '"' => some '"'
  | '\\' => some '\\'
  | '\x08' => some 'b'
  | '\x0c' => some 'f'
  | '\n' => some 'n'
  | '\r' => some 'r'
  | '\t' => some 't'
  | _ => none

/-- A character as it is written between quotes. -/
def writeChar (c : Char) : List Char :=
  match escapeLetter? c with
  | some letter => ['\\', letter]
  | none =>
    if c < ' ' then
      ['\\', 'u', '0', '0', Nat.digitChar (c.toNat / 16), Nat.digitChar (c.toNat % 16)]
    else [c]

/-- A text between quotes. -/
def writeText (s : String) : List Char := '"' :: s.toList.flatMap writeChar ++ ['"']

/-- Floats are written with the fewest digits that identify them, positionally from `0.00001` to
below `10 ^ 16` and otherwise with a signed exponent. -/
def floatLayout : Decimal.Layout where
  plainFrom := -5
  plainBelow := 16
  exponentWidth := 1
  tie := .even

/-- The digits of a number. -/
def Number.write : Number → List Char
  | .whole n => Value.integerText n
  | .float x => floatLayout.write x

/-- A truth value as a word. -/
def writeBool (b : Bool) : List Char :=
  if b then ['t', 'r', 'u', 'e'] else ['f', 'a', 'l', 's', 'e']

mutual

/-- The text of a datum. What has no value is written as `null`. -/
def Datum.write : Datum → List Char
  | .null | .valueless => ['n', 'u', 'l', 'l']
  | .bool b => writeBool b
  | .number n => n.write
  | .text s => writeText s
  | .list items => '[' :: writeItems items ++ [']']
  | .object members => '{' :: writeMembers members ++ ['}']

/-- Items with commas between them. -/
def writeItems : List Datum → List Char
  | [] => []
  | [item] => item.write
  | item :: items => item.write ++ ',' :: writeItems items

/-- Members with commas between them. -/
def writeMembers : List (String × Datum) → List Char
  | [] => []
  | [(name, item)] => writeText name ++ ':' :: item.write
  | (name, item) :: members => writeText name ++ ':' :: item.write ++ ',' :: writeMembers members

end

end Stencil.Json
