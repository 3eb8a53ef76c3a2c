import Stencil.Json.Datum

/-!
# Reading numbers

A numeral is a sign, digits without a leading zero, a fraction and an exponent, of which the first
and the last two may be missing. Its digits are gathered into a significand of 64 bits. Digits of
the whole part that no longer fit scale the number by ten each, and those of the fraction are
dropped.

A numeral without fraction and exponent is a whole number if that fits 64 bits, the sign included.
Any other is a float: the significand, as a float, times or over a power of ten.
-/

namespace Stencil.Json

/-- A numeral taken apart. -/
structure Numeral where
  negative : Bool
  whole : List Char
  /-- The digits behind the point, at least one if there is a point. -/
  fraction : List Char
  exponent : Option Int
  deriving DecidableEq, Repr

/-- Whether digits are a single one or do not start with a zero. -/
def isCanonical : List Char → Bool
  | [] => false
  | ['0'] => true
  | d :: _ => d != '0'

namespace Numeral

/-- The digits behind a point and what follows them. Without a point there are none. -/
def fractionOf? : List Char → Option (List Char × List Char)
  | '.' :: s =>
    if s.head?.any Char.isDigit then some (s.takeWhile Char.isDigit, s.dropWhile Char.isDigit)
    else none
  | s => some ([], s)

/-- The exponent that is all the rest of a numeral, if there is a rest. -/
def exponentOf? : List Char → Option (Option Int)
  | [] => some none
  | mark :: s =>
    if Decimal.isExponentMark mark then (Decimal.exponentValue? s).map some else none

/-- Takes a numeral apart. -/
def ofText? (s : List Char) : Option Numeral := do
  let negative := s.head? == some '-'
  let s := if negative then s.drop 1 else s
  let whole := s.takeWhile Char.isDigit
  let (fraction, rest) ← fractionOf? (s.dropWhile Char.isDigit)
  let exponent ← exponentOf? rest
  if isCanonical whole then some ⟨negative, whole, fraction, exponent⟩ else none

/-- Appends digits to a significand as long as it stays below `2 ^ 64`, and counts the digits that
are left over. -/
def gather : Nat → List Char → Nat × Nat
  | n, [] => (n, 0)
  | n, d :: digits =>
    let more := 10 * n + (d.toNat - '0'.toNat)
    if more < 2 ^ 64 then gather more digits else (n, digits.length + 1)

/-- The float nearest to a power of ten. -/
def power (k : Nat) : Float := Decimal.toFloat ⟨1, k⟩

/-- A significand below `2 ^ 64` times `10 ^ e` in the arithmetic of floats, unless it is beyond
every float. Powers below `10 ^ (-308)` take two divisions, and two by `10 ^ 308` leave nothing. -/
def scaled (significand : Nat) (e : Int) : Option Float :=
  let x := Decimal.ofInt significand
  if significand = 0 ∨ e < -616 then some 0
  else if e < -308 then some (x / power 308 / power (-e - 308).toNat)
  else if e < 0 then some (x / power (-e).toNat)
  else if 308 < e ∨ (x * power e.toNat).isInf then none
  else some (x * power e.toNat)

/-- The number of a numeral, unless it is beyond every float. -/
def number? (numeral : Numeral) : Option Number :=
  let (whole, excess) := gather 0 numeral.whole
  let (significand, dropped) := gather whole numeral.fraction
  let signed (x : Float) : Number := .float (if numeral.negative then -x else x)
  if numeral.fraction = [] ∧ numeral.exponent = none ∧ excess = 0 then
    if ¬ numeral.negative then some (.whole significand)
    else if 0 < significand ∧ significand ≤ 2 ^ 63 then some (.whole (-significand))
    else some (signed (Decimal.ofInt significand))
  else
    let kept := numeral.fraction.length - dropped
    (scaled significand (excess - kept + numeral.exponent.getD 0)).map signed

end Numeral

end Stencil.Json
