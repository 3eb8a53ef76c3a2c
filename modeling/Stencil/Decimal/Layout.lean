import Stencil.Decimal.Shortest

/-!
# Writing floats

A layout fixes how the digits of a float are set out: where positional notation ends, how wide an
exponent is at least, and which way a tie between two shortest decimals goes. `Layout.write` sets
out a finite float by a layout, and `ofText?` reads the text of a number without a sign.
-/

namespace Stencil.Decimal

/-- How a float is set out. -/
structure Layout where
  /-- The least exponent of the leading digit that is written positionally. -/
  plainFrom : Int
  /-- The first exponent of the leading digit beyond positional notation. -/
  plainBelow : Int
  /-- The least number of digits of a written exponent. -/
  exponentWidth : Nat
  /-- Which of two equally near decimals is written. -/
  tie : Tie

/-- A run of zeros. -/
def zeros (n : Nat) : List Char := List.replicate n '0'

/-- The digits of an exponent, with zeros in front up to the least width. -/
def padded (width n : Nat) : List Char :=
  let digits := Nat.toDigits 10 n
  zeros (width - digits.length) ++ digits

/-- Digits with the leading one at the place of `10 ^ e`, in positional notation. -/
def plain (digits : List Char) (e : Int) : List Char :=
  if e < 0 then '0' :: '.' :: zeros (-e - 1).toNat ++ digits
  else
    let whole := e.toNat + 1
    if whole < digits.length then digits.take whole ++ '.' :: digits.drop whole
    else digits ++ zeros (whole - digits.length) ++ ['.', '0']

/-- Digits with the leading one at the place of `10 ^ e`, with an exponent. -/
def scientific (width : Nat) (digits : List Char) (e : Int) : List Char :=
  let fraction := if digits.length ≤ 1 then [] else '.' :: digits.drop 1
  digits.take 1 ++ fraction ++ 'e' :: (if e < 0 then '-' else '+') :: padded width e.natAbs

/-- The text of the positive float with the bits `bits`. -/
def Layout.writePositive (layout : Layout) (bits : Nat) : List Char :=
  let d := shortest layout.tie bits
  let digits := Nat.toDigits 10 d.digits
  let e := d.exponent + digits.length - 1
  if layout.plainFrom ≤ e ∧ e < layout.plainBelow then plain digits e
  else scientific layout.exponentWidth digits e

/-- The text of a finite float. -/
def Layout.write (layout : Layout) (x : Float) : List Char :=
  let bits := patternOf x
  (if isNegative x then ['-'] else []) ++
    if bits = 0 then ['0', '.', '0'] else layout.writePositive bits

/-! ## Reading -/

/-- The digits of an exponent behind its mark, with a sign in front or none. -/
def exponentValue? (s : List Char) : Option Int :=
  let (negative, digits) := match s with
    | '-' :: digits => (true, digits)
    | '+' :: digits => (false, digits)
    | digits => (false, digits)
  if digits = [] ∨ ¬ digits.all Char.isDigit then none
  else
    let n := Nat.ofDigitChars 10 digits 0
    some (if negative then -n else n)

/-- The decimal that a mantissa with at most one point stands for. -/
def mantissaValue? (s : List Char) : Option Decimal :=
  let whole := s.takeWhile (· != '.')
  let fraction := (s.dropWhile (· != '.')).drop 1
  let digits := whole ++ fraction
  if digits = [] ∨ ¬ digits.all Char.isDigit then none
  else some ⟨Nat.ofDigitChars 10 digits 0, -fraction.length⟩

/-- Whether a character marks an exponent. -/
def isExponentMark (c : Char) : Bool := c == 'e' || c == 'E'

/-- The decimal that a text stands for: digits with at most one point among them, then perhaps an
exponent. -/
def ofText? (s : List Char) : Option Decimal := do
  let mantissa ← mantissaValue? (s.takeWhile (!isExponentMark ·))
  match s.dropWhile (!isExponentMark ·) with
  | [] => some mantissa
  | _ :: exponent => return { mantissa with
      exponent := mantissa.exponent + (← exponentValue? exponent) }

/-- The float nearest to a decimal. -/
def toFloat (d : Decimal) : Float := ofPattern false d.pattern

end Stencil.Decimal
