/-!
# The nearest float of a quotient

A finite float without its sign is a natural number times a power of two. `Magnitude` is that
number, `Magnitude.ofPattern` reads it off the bits, and `nearestPattern` goes the other way: from
any positive quotient to the bits of the float nearest to it, an exact tie going to the even
neighbour. All of it is arithmetic on natural numbers.
-/

namespace Stencil

/-- Powers of numbers are those of core, whatever else is in scope. -/
@[default_instance high]
scoped instance corePow {α : Type} [NatPow α] : Pow α Nat := instPowNat

end Stencil

namespace Stencil.Decimal

/-- A natural number times a power of two. -/
structure Magnitude where
  significand : Nat
  exponent : Int
  deriving DecidableEq, Repr

/-- The number of stored significand bits. -/
def fractionBits : Nat := 52

/-- The exponent of the least positive float. -/
def leastExponent : Int := -1074

/-- The bits of infinity, above those of every finite magnitude. -/
def infinityPattern : Nat := 0x7FF * 2 ^ fractionBits

/-- The magnitude that a bit pattern without sign stands for, if it is that of a finite float. -/
def Magnitude.ofPattern (pattern : Nat) : Magnitude :=
  let stored := pattern % 2 ^ fractionBits
  let biased := pattern / 2 ^ fractionBits
  if biased = 0 then ⟨stored, leastExponent⟩
  else ⟨2 ^ fractionBits + stored, leastExponent + (biased - 1 : Nat)⟩

/-- The numerator of a magnitude. -/
def Magnitude.numerator (x : Magnitude) : Nat := x.significand * 2 ^ x.exponent.toNat

/-- The denominator of a magnitude, a power of two. -/
def Magnitude.denominator (x : Magnitude) : Nat := 2 ^ (-x.exponent).toNat

/-- The natural number nearest to a quotient; a tie goes to the even neighbour. -/
def roundQuotient (num den : Nat) : Nat :=
  let below := num / den
  match compare (2 * (num % den)) den with
  | .lt => below
  | .gt => below + 1
  | .eq => if below % 2 = 0 then below else below + 1

/-- The greatest power of two that is at most a positive quotient, by its exponent. -/
def floorLog2 (num den : Nat) : Int :=
  let k : Int := (num.log2 : Int) - den.log2
  if num * 2 ^ (-k).toNat < den * 2 ^ k.toNat then k - 1 else k

/-- The bits, without sign, of the float nearest to the positive quotient `num / den`. Rounding up
to the next power of two carries from the significand into the exponent, and past the greatest
finite float lies infinity. -/
def nearestPattern (num den : Nat) : Nat :=
  let e := max (floorLog2 num den - fractionBits) leastExponent
  let significand := roundQuotient (num * 2 ^ (-e).toNat) (den * 2 ^ e.toNat)
  min infinityPattern ((e - leastExponent).toNat * 2 ^ fractionBits + significand)

/-- The float with a sign and the bits of a magnitude. -/
def ofPattern (negative : Bool) (pattern : Nat) : Float :=
  Float.ofBits (UInt64.ofNat (if negative then 2 ^ 63 + pattern else pattern))

/-- The bits of a float without its sign. -/
def patternOf (x : Float) : Nat := x.toBits.toNat % 2 ^ 63

/-- Whether the sign bit of a float is set. -/
def isNegative (x : Float) : Bool := 2 ^ 63 ≤ x.toBits.toNat

/-- The float nearest to an integer. -/
def ofInt (n : Int) : Float :=
  ofPattern (decide (n < 0)) (if n = 0 then 0 else nearestPattern n.natAbs 1)

end Stencil.Decimal
