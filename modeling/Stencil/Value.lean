import Stencil.Decimal.Layout
import Stencil.Table

/-!
# Values

A variable of a template, or the result of an expression, is a truth value, a 64-bit integer, a
float, a text, or undefined. Every value has a text, which is what the page shows of it, and
counts as true or false, which is what a condition sees of it.
-/

namespace Stencil

/-- The values of expressions. -/
inductive Value where
  | bool (b : Bool)
  | int (n : Int64)
  | float (x : Float)
  | str (s : String)
  /-- The value of a name that nothing defines. -/
  | undefined
  deriving Inhabited

/-- Variables by name. -/
abbrev Context := Table Value

namespace Value

/-- The 64-bit integer of an exact one, if it fits. -/
def int64? (n : Int) : Option Int64 :=
  if -2 ^ 63 ≤ n ∧ n < 2 ^ 63 then some (Int64.ofInt n) else none

/-- An integer that fits is kept as it is. -/
theorem toInt_of_int64? {n : Int} {i : Int64} (h : int64? n = some i) : i.toInt = n := by
  simp only [int64?] at h
  split at h
  · simp only [Option.some.injEq] at h
    rw [← h, Int64.toInt_ofInt, Int.bmod_eq_of_le] <;> simp only [Int64.size] <;> omega
  · simp at h

theorem int64?_toInt (i : Int64) : int64? i.toInt = some i := by
  rw [int64?, if_pos ⟨i.le_toInt, i.toInt_lt⟩, Int64.ofInt_toInt]

/-- Whether a condition with this value holds. Zero and the empty text do not count as true, and a
float that is not a number does. -/
def truthy : Value → Bool
  | .bool b => b
  | .int n => n != 0
  | .float x => x != 0
  | .str s => s != ""
  | .undefined => false

/-- The name of a value's kind, as error messages give it. -/
def kind : Value → String
  | .bool _ => "bool"
  | .int _ => "int"
  | .float _ => "float"
  | .str _ => "str"
  | .undefined => "undefined"

/-- Floats are shown with the fewest digits that identify them, positionally from `0.0001` to below
`10 ^ 16` and otherwise with a signed exponent of at least two digits. -/
def floatLayout : Decimal.Layout where
  plainFrom := -4
  plainBelow := 16
  exponentWidth := 2
  tie := .up

/-- The digits of an integer behind its sign. -/
def integerText (n : Int) : List Char :=
  (if n < 0 then ['-'] else []) ++ Nat.toDigits 10 n.natAbs

/-- The text of a float. -/
def floatText (x : Float) : List Char :=
  if x.isNaN then ['n', 'a', 'n']
  else if x.isInf then if 0 < x then ['i', 'n', 'f'] else ['-', 'i', 'n', 'f']
  else floatLayout.write x

/-- What a page shows of a value. -/
def text : Value → String
  | .bool b => if b then "true" else "false"
  | .int n => String.ofList (integerText n.toInt)
  | .float x => String.ofList (floatText x)
  | .str s => s
  | .undefined => ""

end Value

end Stencil
