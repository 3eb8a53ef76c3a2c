import Stencil.Json.Numeral

/-!
# The lexemes of JSON

A JSON text is cut into marks, texts between quotes, and words, which are numerals or one of three
names. The cutting machine takes one character after the other; `lexemes?` runs it over a text.
-/

namespace Stencil.Json

/-- A mark of a JSON text. -/
inductive Mark where
  | beginList
  | endList
  | beginObject
  | endObject
  | comma
  | colon
  deriving DecidableEq, Repr

/-- What a JSON text is cut into. -/
inductive Lexeme where
  | mark (m : Mark)
  /-- A text, unless its escapes name half of a surrogate pair. -/
  | text (s : Option String)
  /-- A datum that is a single word. -/
  | word (datum : Datum)

/-- The mark that a character is. -/
def markOf? : Char → Option Mark
  | '[' => some .beginList
  | ']' => some .endList
  | '{' => some .beginObject
  | '}' => some .endObject
  | ',' => some .comma
  | ':' => some .colon
  | _ => none

/-- Whether a character may stand between lexemes. -/
def isGap (c : Char) : Bool := c == ' ' || c == '\n' || c == '\r' || c == '\t'

/-! ## Words -/

/-- The datum that a word stands for. -/
def wordOf? (word : List Char) : Option Datum :=
  if word = ['n', 'u', 'l', 'l'] then some .null
  else if word = ['t', 'r', 'u', 'e'] then some (.bool true)
  else if word = ['f', 'a', 'l', 's', 'e'] then some (.bool false)
  else
    (Numeral.ofText? word).map fun numeral =>
      match numeral.number? with
      | some n => .number n
      | none => .valueless

/-! ## Texts -/

/-- The character that a letter behind a backslash stands for. -/
def escaped? : Char → Option Char
  | '"' => some '"'
  | '\\' => some '\\'
  | '/' => some '/'
  | 'b' => some '\x08'
  | 'f' => some '\x0c'
  | 'n' => some '\n'
  | 'r' => some '\r'
  | 't' => some '\t'
  | _ => none

/-- The value of a hexadecimal digit. -/
def hexValue? (c : Char) : Option Nat :=
  if c.isDigit then some (c.toNat - '0'.toNat)
  else if 'a' ≤ c ∧ c ≤ 'f' then some (c.toNat - 'a'.toNat + 10)
  else if 'A' ≤ c ∧ c ≤ 'F' then some (c.toNat - 'A'.toNat + 10)
  else none

/-- Whether a code is the first half of a surrogate pair. -/
def isHigh (code : Nat) : Bool := 0xD800 ≤ code && code < 0xDC00

/-- Whether a code is the second half of a surrogate pair. -/
def isLow (code : Nat) : Bool := 0xDC00 ≤ code && code < 0xE000

/-- The characters of codes, in which two halves of a surrogate pair in a row are one character and
a half by itself is none. -/
def charsOf? : List Nat → Option (List Char)
  | [] => some []
  | high :: low :: codes =>
    if isHigh high then
      if isLow low then
        (charsOf? codes).map
          (Char.ofNat (0x10000 + (high - 0xD800) * 0x400 + (low - 0xDC00)) :: ·)
      else none
    else if isLow high then none
    else (charsOf? (low :: codes)).map (Char.ofNat high :: ·)
  | [code] => if isHigh code || isLow code then none else some [Char.ofNat code]

/-! ## Cutting -/

/-- What the cutting machine is in the middle of. Characters and codes are listed last first. -/
inductive Inside where
  /-- A word, or the gap between lexemes if it has no characters yet. -/
  | word (chars : List Char)
  /-- A text. -/
  | text (codes : List Nat)
  /-- An escape of a text. -/
  | escape (codes : List Nat)
  /-- The digits of a code, of which so many are missing. -/
  | digits (codes : List Nat) (value missing : Nat)

/-- The state of the cutting machine. -/
structure Cutter where
  inside : Inside := .word []
  /-- The finished lexemes, last first. -/
  lexemes : List Lexeme := []

namespace Cutter

/-- Adds a lexeme and goes on between lexemes. -/
def push (cutter : Cutter) (lexeme : Lexeme) : Cutter := ⟨.word [], lexeme :: cutter.lexemes⟩

/-- Ends a word, if there is one. -/
def endWord (cutter : Cutter) : List Char → Option Cutter
  | [] => some cutter
  | chars => (wordOf? chars.reverse).map fun datum => cutter.push (.word datum)

/-- Reads one character in or after a word. -/
def readWord (cutter : Cutter) (chars : List Char) (c : Char) : Option Cutter :=
  if c = '"' then do return { ← cutter.endWord chars with inside := .text [] }
  else if isGap c then do return { ← cutter.endWord chars with inside := .word [] }
  else
    match markOf? c with
    | some m => (cutter.endWord chars).map (·.push (.mark m))
    | none => some { cutter with inside := .word (c :: chars) }

/-- Reads one character. -/
def read (cutter : Cutter) (c : Char) : Option Cutter :=
  match cutter.inside with
  | .word chars => cutter.readWord chars c
  | .text codes =>
    if c = '"' then some (cutter.push (.text ((charsOf? codes.reverse).map String.ofList)))
    else if c = '\\' then some { cutter with inside := .escape codes }
    else if c < ' ' then none
    else some { cutter with inside := .text (c.toNat :: codes) }
  | .escape codes =>
    if c = 'u' then some { cutter with inside := .digits codes 0 4 }
    else (escaped? c).map fun e => { cutter with inside := .text (e.toNat :: codes) }
  | .digits codes value missing =>
    (hexValue? c).map fun digit =>
      let code := 16 * value + digit
      if missing ≤ 1 then { cutter with inside := .text (code :: codes) }
      else { cutter with inside := .digits codes code (missing - 1) }

/-- The lexemes at the end of a text. -/
def finish (cutter : Cutter) : Option (List Lexeme) :=
  match cutter.inside with
  | .word chars => (cutter.endWord chars).map (·.lexemes.reverse)
  | _ => none

end Cutter

/-- The lexemes of a text. -/
def lexemes? (s : List Char) : Option (List Lexeme) :=
  (s.foldlM Cutter.read {}).bind Cutter.finish

end Stencil.Json
