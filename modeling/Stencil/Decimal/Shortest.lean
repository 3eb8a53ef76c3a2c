import Stencil.Decimal.Nearest

/-!
# The fewest digits that read back

A float is written with the fewest significant digits that identify it: among the decimals that
read back as the float, one with the least number of digits, and of two such the nearer. Both
directions are here: `Decimal.pattern` reads a decimal, `shortest` finds the one to write.
`pattern_shortest` states that what is written reads back, given that the exact value does.
-/

namespace Stencil

/-- A natural number times a power of ten. -/
structure Decimal where
  digits : Nat
  exponent : Int
  deriving DecidableEq, Repr

namespace Decimal

/-- The number of digits of a natural number. -/
def digitCount (n : Nat) : Nat := (Nat.toDigits 10 n).length

/-- The bits, without sign, of the float nearest to a decimal. Decimals beyond every float are told
by the place of their leading digit, so that a long exponent costs nothing. -/
def pattern (d : Decimal) : Nat :=
  if d.digits = 0 then 0
  else
    let leading := d.exponent + digitCount d.digits
    if 310 < leading then infinityPattern
    else if leading < -330 then 0
    else nearestPattern (d.digits * 10 ^ d.exponent.toNat) (10 ^ (-d.exponent).toNat)

/-- What to do with a value that lies halfway between two decimals. -/
inductive Tie where
  /-- Take the greater. -/
  | up
  /-- Take the one whose last digit is even. -/
  | even
  deriving DecidableEq, Repr

/-- The least `k` with the value below `10 ^ k`. The estimate from the binary logarithm falls short
by two at most. -/
def scaleOf (x : Magnitude) : Int :=
  let below (k : Int) : Bool :=
    x.numerator * 10 ^ (-k).toNat < x.denominator * 10 ^ k.toNat
  let k := ((x.significand.log2 : Int) + x.exponent) * 30103 / 100000
  if below k then k else if below (k + 1) then k + 1 else k + 2

/-- A decimal without trailing zeros. -/
def stripped (digits : Nat) (exponent : Int) : Decimal :=
  if h : digits ≠ 0 ∧ digits % 10 = 0 then stripped (digits / 10) (exponent + 1)
  else ⟨digits, exponent⟩
termination_by digits
decreasing_by omega

/-- The decimal on the grid of multiples of `10 ^ grid` that reads back as the float with the bits
`bits`, if one of the two neighbours of its value does. -/
def onGrid? (tie : Tie) (bits : Nat) (grid : Int) : Option Decimal :=
  let x := Magnitude.ofPattern bits
  let num := x.numerator * 10 ^ (-grid).toNat
  let den := x.denominator * 10 ^ grid.toNat
  let lower := num / den
  let low := stripped lower grid
  let high := stripped (lower + 1) grid
  let candidates := match compare (2 * (num % den)) den with
    | .lt => [low, high]
    | .gt => [high, low]
    | .eq => if tie = Tie.even ∧ lower % 2 = 0 then [low, high] else [high, low]
  candidates.find? fun d => d.pattern == bits

/-- The exact value of the float with the bits `bits`. -/
def exact (bits : Nat) : Decimal :=
  let x := Magnitude.ofPattern bits
  if x.exponent < 0 then ⟨x.significand * 5 ^ (-x.exponent).toNat, x.exponent⟩
  else ⟨x.significand * 2 ^ x.exponent.toNat, 0⟩

/-- The decimal of fewest digits that reads back as the positive float with the bits `bits`. No
float needs more than seventeen digits; the exact value stands in for a search without result. -/
def shortest (tie : Tie) (bits : Nat) : Decimal :=
  let scale := scaleOf (Magnitude.ofPattern bits)
  ((List.range 17).findSome? fun n => onGrid? tie bits (scale - (n + 1 : Nat))).getD (exact bits)

/-- A decimal found on a grid reads back. -/
theorem pattern_of_onGrid? {tie : Tie} {bits : Nat} {grid : Int} {d : Decimal}
    (h : onGrid? tie bits grid = some d) : d.pattern = bits := by
  simpa using List.find?_some h

/-- What is written reads back, provided that the exact value does. -/
theorem pattern_shortest (tie : Tie) {bits : Nat} (h : (exact bits).pattern = bits) :
    (shortest tie bits).pattern = bits := by
  unfold shortest
  simp only
  cases hf : (List.range 17).findSome?
      fun n => onGrid? tie bits (scaleOf (Magnitude.ofPattern bits) - (n + 1 : Nat)) with
  | none => simpa using h
  | some d =>
    obtain ⟨n, -, hn⟩ := List.exists_of_findSome?_eq_some hf
    simpa using pattern_of_onGrid? hn

end Decimal

end Stencil
