import Mathlib
import Stencil.Decimal.Nearest

/-!
# Floats by their bits

A float is a sign bit and the bits of a magnitude. `unpacked` says which unpacked float these two
stand for, and `unpack_eq` and `pack_unpacked` that packing and unpacking are inverse to each other
on all floats that are numbers. What the type of floats offers is then read off the bits: which
floats are finite (`isFinite_iff`), what the opposite of a float is (`neg_ofPattern`), and that two
floats which are numbers compare as the integers `rank` makes of them (`lt_iff_rank`,
`beq_iff_rank`).
-/

namespace Stencil.Decimal

open Float.Model (Format UnpackedFloat)
open Float.Model.UnpackedFloat (Sign unpackMantissa unpackExponent unpackSign)

/-! ## Fields -/

theorem toNat_append {w v : Nat} (x : BitVec w) (y : BitVec v) :
    (x ++ y).toNat = x.toNat * 2 ^ v + y.toNat := by
  rw [BitVec.toNat_append, ← Nat.shiftLeft_add_eq_or_of_lt y.isLt, Nat.shiftLeft_eq]

/-- The stored significand is the last 52 bits. -/
theorem toNat_unpackMantissa (b : BitVec Format.binary64.numBits) :
    (unpackMantissa b).toNat = b.toNat % 2 ^ 52 := by
  simp [unpackMantissa]

/-- The stored exponent is the eleven bits in front of them. -/
theorem toNat_unpackExponent (b : BitVec Format.binary64.numBits) :
    (unpackExponent b).toNat = b.toNat / 2 ^ 52 % 2 ^ 11 := by
  simp [unpackExponent, Nat.shiftRight_eq_div_pow]

/-- The sign is the first bit. -/
theorem toNat_unpackSign (b : BitVec Format.binary64.numBits) :
    (unpackSign b).toNat = b.toNat / 2 ^ 63 := by
  have hlt : b.toNat < 2 ^ 64 := b.isLt
  have hmod : (unpackSign b).toNat = b.toNat / 2 ^ 63 % 2 := by
    simp [unpackSign, Nat.shiftRight_eq_div_pow]
  omega

/-! ## Unpacked floats -/

/-- A subnormal magnitude is its bits, at the least exponent. -/
theorem Magnitude.ofPattern_of_lt {p : Nat} (h : p < 2 ^ 52) :
    ofPattern p = ⟨p, -1074⟩ := by
  rw [ofPattern, fractionBits, if_pos (by omega), Nat.mod_eq_of_lt h, leastExponent]

/-- A normal magnitude has a one in front of its stored significand. -/
theorem Magnitude.ofPattern_of_le {p : Nat} (h : 2 ^ 52 ≤ p) :
    ofPattern p = ⟨2 ^ 52 + p % 2 ^ 52, (p / 2 ^ 52 : Nat) - 1075⟩ := by
  have hexponent : leastExponent + (p / 2 ^ 52 - 1 : Nat) = (p / 2 ^ 52 : Nat) - 1075 := by
    rw [leastExponent]
    omega
  rw [ofPattern, fractionBits, if_neg (by omega), hexponent]

/-- Only the magnitude zero has the significand zero. -/
theorem significand_pos {p : Nat} (h : p ≠ 0) : 0 < (Magnitude.ofPattern p).significand := by
  rcases Nat.lt_or_ge p (2 ^ 52) with hlt | hge
  · rw [Magnitude.ofPattern_of_lt hlt]
    exact Nat.pos_of_ne_zero h
  · rw [Magnitude.ofPattern_of_le hge]
    dsimp only
    omega

/-- The sign that a sign bit stands for. -/
def signOf (negative : Bool) : Sign := if negative then .negative else .positive

/-- The unpacked float with a sign and the bits of a magnitude. -/
def unpacked (negative : Bool) (p : Nat) : UnpackedFloat :=
  if infinityPattern < p then .notANumber
  else if p = infinityPattern then .infinity (signOf negative)
  else if h : p = 0 then .zero (signOf negative)
  else .finite (signOf negative) (Magnitude.ofPattern p).significand
    (Magnitude.ofPattern p).exponent (significand_pos h)

theorem infinityPattern_eq : infinityPattern = 2047 * 2 ^ 52 := rfl

/-- Bits behind those of infinity stand for no number. -/
theorem unpacked_of_lt {p : Nat} (negative : Bool) (h : infinityPattern < p) :
    unpacked negative p = .notANumber := if_pos h

theorem unpacked_infinity (negative : Bool) :
    unpacked negative infinityPattern = .infinity (signOf negative) := rfl

theorem unpacked_zero (negative : Bool) : unpacked negative 0 = .zero (signOf negative) := rfl

/-- Bits between zero and infinity stand for a finite float. -/
theorem unpacked_finite {p : Nat} (negative : Bool) (hzero : p ≠ 0) (h : p < infinityPattern) :
    unpacked negative p = .finite (signOf negative) (Magnitude.ofPattern p).significand
      (Magnitude.ofPattern p).exponent (significand_pos hzero) := by
  rw [unpacked, if_neg (by omega), if_neg (by omega), dif_neg hzero]

/-- Finite floats are the same where their numbers are, whatever proves these positive. -/
theorem finite_congr {s : Sign} {m m' : Nat} {e e' : Int} {h : 0 < m} {h' : 0 < m'}
    (hm : m = m') (he : e = e') : UnpackedFloat.finite s m e h = .finite s m' e' h' := by
  subst hm he
  rfl

/-- A float has a sign exactly if its first bit is set. -/
theorem ofBitVec_unpackSign (b : BitVec Format.binary64.numBits) :
    Sign.ofBitVec (unpackSign b) = signOf (decide (2 ^ 63 ≤ b.toNat)) := by
  have hzero : unpackSign b = 0#1 ↔ ¬ 2 ^ 63 ≤ b.toNat := by
    rw [← BitVec.toNat_inj, toNat_unpackSign, BitVec.toNat_ofNat]
    omega
  unfold Sign.ofBitVec signOf
  by_cases h : 2 ^ 63 ≤ b.toNat
  · rw [if_neg (by simpa [hzero] using h), if_pos (by simpa using h)]
  · rw [if_pos (hzero.2 h), if_neg (by simpa using h)]

/-- The bits of a float unpack to what its sign bit and the other bits stand for. -/
theorem unpack_eq (b : BitVec Format.binary64.numBits) :
    UnpackedFloat.unpack .binary64 b
      = unpacked (decide (2 ^ 63 ≤ b.toNat)) (b.toNat % 2 ^ 63) := by
  have hlt : b.toNat < 2 ^ 64 := b.isLt
  generalize hp : b.toNat % 2 ^ 63 = p
  have he : (unpackExponent b).toNat = p / 2 ^ 52 := by
    rw [toNat_unpackExponent]
    omega
  have hm : (unpackMantissa b).toNat = p % 2 ^ 52 := by
    rw [toNat_unpackMantissa]
    omega
  have hspecial : unpackExponent b = -1#_ ↔ p / 2 ^ 52 = 2047 := by
    rw [← BitVec.toNat_inj, he]
    rfl
  have hsmall : unpackExponent b = 0#_ ↔ p / 2 ^ 52 = 0 := by
    rw [← BitVec.toNat_inj, he]
    rfl
  have hzero : unpackMantissa b = 0#_ ↔ p % 2 ^ 52 = 0 := by
    rw [← BitVec.toNat_inj, hm]
    rfl
  have hbias : ((Format.binary64.exponentBias : Nat) : Int) = 1023 := rfl
  have hinfinity := infinityPattern_eq
  unfold UnpackedFloat.unpack
  extract_lets mantissa exponent value signBit sign
  have hsign : sign = signOf (decide (2 ^ 63 ≤ b.toNat)) := ofBitVec_unpackSign b
  rw [hsign]
  by_cases hs : p / 2 ^ 52 = 2047
  · rw [if_pos (hspecial.2 hs)]
    by_cases hz : p % 2 ^ 52 = 0
    · have heq : p = infinityPattern := by omega
      rw [if_pos (hzero.2 hz), heq, unpacked_infinity]
    · rw [if_neg (mt hzero.1 hz), unpacked_of_lt _ (by omega)]
  · rw [if_neg (mt hspecial.1 hs)]
    by_cases hsub : p / 2 ^ 52 = 0
    · rw [if_pos (hsmall.2 hsub)]
      by_cases hz : p % 2 ^ 52 = 0
      · have heq : p = 0 := by omega
        rw [dif_pos (hzero.2 hz), heq, unpacked_zero]
      · rw [dif_neg (mt hzero.1 hz), unpacked_finite _ (by omega) (by omega)]
        refine finite_congr ?_ ?_
        · rw [hm, Magnitude.ofPattern_of_lt (by omega), Nat.mod_eq_of_lt (by omega)]
        · rw [Magnitude.ofPattern_of_lt (by omega)]
          change ((unpackExponent b).toNat : Int) - (1023 + 52) + 1 = -1074
          omega
    · rw [if_neg (mt hsmall.1 hsub), unpacked_finite _ (by omega) (by omega)]
      refine finite_congr ?_ ?_
      · -- In front of the stored significand of a normal float stands a one.
        rw [toNat_append, hm, Magnitude.ofPattern_of_le (by omega)]
        rfl
      · rw [Magnitude.ofPattern_of_le (by omega)]
        change ((unpackExponent b).toNat : Int) - (1023 + 52) = (p / 2 ^ 52 : Nat) - 1075
        omega

/-- The bits with a sign and a magnitude, both of which are found again in them. -/
theorem unpack_of_toNat {negative : Bool} {p : Nat} (h : p < 2 ^ 63)
    {b : BitVec Format.binary64.numBits} (hb : b.toNat = (if negative then 2 ^ 63 else 0) + p) :
    UnpackedFloat.unpack .binary64 b = unpacked negative p := by
  have hsign : decide (2 ^ 63 ≤ b.toNat) = negative := by
    cases negative
    · simp [hb]
      omega
    · simp [hb]
  have hrest : b.toNat % 2 ^ 63 = p := by
    rw [hb]
    split <;> omega
  rw [unpack_eq, hsign, hrest]

/-- Packing undoes unpacking on the bits of a number, which only a `NaN` does not come back from. -/
theorem pack_unpacked {negative : Bool} {p : Nat} (h : p ≤ infinityPattern)
    {b : BitVec Format.binary64.numBits} (hb : b.toNat = (if negative then 2 ^ 63 else 0) + p) :
    (unpacked negative p).pack .binary64 = b := by
  have hinfinity := infinityPattern_eq
  have hnumber : ¬ UnpackedFloat.isNaNBits b := by
    simp only [UnpackedFloat.isNaNBits, decide_eq_true_eq, not_and, Decidable.not_not]
    intro hexponent
    rw [← BitVec.toNat_inj, toNat_unpackExponent] at hexponent
    rw [← BitVec.toNat_inj, toNat_unpackMantissa]
    change b.toNat / 2 ^ 52 % 2 ^ 11 = 2047 at hexponent
    change b.toNat % 2 ^ 52 = 0
    split at hb <;> omega
  rw [← unpack_of_toNat (by omega) hb, UnpackedFloat.pack_unpack, if_neg hnumber]

/-! ## Floats and their bits -/

/-- What a float stands for is given by its sign and the bits of its magnitude. -/
theorem unpack_toModel (x : Float) : x.toModel.unpack = unpacked (isNegative x) (patternOf x) :=
  unpack_eq _

/-- Floats of the same bits are the same. -/
theorem ext_bits {x y : Float} (h : x.toBits.toNat = y.toBits.toNat) : x = y :=
  Float.toBits_inj.1 (UInt64.toNat_inj.1 h)

/-- The bits of a float with a sign and the bits of a magnitude. -/
theorem toNat_toBits_ofPattern (negative : Bool) {p : Nat} (h : p ≤ infinityPattern) :
    (ofPattern negative p).toBits.toNat = (if negative then 2 ^ 63 else 0) + p := by
  have hinfinity := infinityPattern_eq
  let b : BitVec Format.binary64.numBits :=
    (UInt64.ofNat (if negative then 2 ^ 63 + p else p)).toBitVec
  have hb : b.toNat = (if negative then 2 ^ 63 else 0) + p := by
    have hmod : b.toNat = (if negative then 2 ^ 63 + p else p) % 2 ^ 64 := UInt64.toNat_ofNat
    rw [hmod]
    split <;> omega
  have hbits : (ofPattern negative p).toBits.toBitVec = b := by
    rw [← pack_unpacked h hb, ← unpack_of_toNat (by omega) hb]
    rfl
  rw [← hb, ← hbits]
  rfl

/-- The sign of a number is found again in its bits. -/
theorem isNegative_ofPattern (negative : Bool) {p : Nat} (h : p ≤ infinityPattern) :
    isNegative (ofPattern negative p) = negative := by
  have hinfinity := infinityPattern_eq
  rw [isNegative, toNat_toBits_ofPattern negative h]
  cases negative
  · simp
    omega
  · simp

/-- So are the bits of its magnitude. -/
theorem patternOf_ofPattern (negative : Bool) {p : Nat} (h : p ≤ infinityPattern) :
    patternOf (ofPattern negative p) = p := by
  have hinfinity := infinityPattern_eq
  rw [patternOf, toNat_toBits_ofPattern negative h]
  split <;> omega

/-- A float that is a number is given by its sign and the bits of its magnitude. -/
theorem ofPattern_patternOf {x : Float} (h : patternOf x ≤ infinityPattern) :
    ofPattern (isNegative x) (patternOf x) = x := by
  have hlt : x.toBits.toNat < 2 ^ 64 := x.toBits.toNat_lt
  refine ext_bits ?_
  rw [toNat_toBits_ofPattern _ h, isNegative, patternOf]
  split
  · rename_i hneg
    have := of_decide_eq_true hneg
    omega
  · rename_i hpos
    have : ¬ 2 ^ 63 ≤ x.toBits.toNat := by simpa using hpos
    omega

/-- The sign of a float is changed by changing its sign bit. -/
theorem neg_ofPattern {p : Nat} (h : p ≤ infinityPattern) :
    -(ofPattern false p) = ofPattern true p := by
  have hunpack : (ofPattern false p).toModel.unpack.neg = unpacked true p := by
    rw [unpack_toModel, isNegative_ofPattern _ h, patternOf_ofPattern _ h]
    unfold unpacked
    split
    · rfl
    · split
      · rfl
      · split <;> rfl
  have hbits : (-(ofPattern false p)).toBits.toBitVec = (ofPattern true p).toBits.toBitVec := by
    rw [← pack_unpacked h (toNat_toBits_ofPattern true h), ← hunpack]
    rfl
  exact Float.toBits_inj.1 (UInt64.toBitVec_inj.1 hbits)

/-! ## Kinds of floats -/

/-- The magnitude of what is no number lies behind infinity. -/
theorem isNaN_iff (x : Float) : x.isNaN = true ↔ infinityPattern < patternOf x := by
  have hunpack : x.isNaN = (unpacked (isNegative x) (patternOf x)).isNaN := by
    rw [← unpack_toModel]
    rfl
  rw [hunpack, unpacked]
  split
  · simpa [UnpackedFloat.isNaN] using ‹_›
  · split
    · simp [UnpackedFloat.isNaN]
      omega
    · split <;> simp [UnpackedFloat.isNaN] <;> omega

/-- The magnitude of an infinite float is infinity. -/
theorem isInf_iff (x : Float) : x.isInf = true ↔ patternOf x = infinityPattern := by
  have hunpack : x.isInf = (unpacked (isNegative x) (patternOf x)).isInf := by
    rw [← unpack_toModel]
    rfl
  rw [hunpack, unpacked]
  split
  · simp [UnpackedFloat.isInf]
    omega
  · split
    · simpa [UnpackedFloat.isInf] using ‹_›
    · split <;> simp [UnpackedFloat.isInf] <;> omega

/-- The magnitude of a finite float lies before infinity. -/
theorem isFinite_iff (x : Float) : x.isFinite = true ↔ patternOf x < infinityPattern := by
  have hunpack : x.isFinite = (unpacked (isNegative x) (patternOf x)).isFinite := by
    rw [← unpack_toModel]
    rfl
  rw [hunpack, unpacked]
  split
  · simp [UnpackedFloat.isFinite]
    omega
  · split
    · simp [UnpackedFloat.isFinite]
      omega
    · split <;> simp [UnpackedFloat.isFinite] <;> omega

/-- Bits up to those of infinity make a number. -/
theorem not_isNaN_ofPattern (negative : Bool) {p : Nat} (h : p ≤ infinityPattern) :
    ¬ (ofPattern negative p).isNaN := by
  rw [isNaN_iff, patternOf_ofPattern _ h]
  omega

theorem nearestPattern_le (num den : Nat) : nearestPattern num den ≤ infinityPattern :=
  min_le_left _ _

/-- An integer is rounded to infinity at most. -/
theorem patternOf_ofInt_le (n : Int) :
    (if n = 0 then 0 else nearestPattern n.natAbs 1) ≤ infinityPattern := by
  split
  · exact Nat.zero_le _
  · exact nearestPattern_le _ _

theorem not_isNaN_ofInt (n : Int) : ¬ (ofInt n).isNaN :=
  not_isNaN_ofPattern _ (patternOf_ofInt_le n)

/-! ## The order of floats -/

/-- Magnitudes are ordered by exponent and significand as by their bits. -/
theorem compare_ofPattern_of_lt {p q : Nat} (h : p < q) :
    (compare (Magnitude.ofPattern p).exponent (Magnitude.ofPattern q).exponent).then
      (compare (Magnitude.ofPattern p).significand (Magnitude.ofPattern q).significand) = .lt := by
  have hlt : (Magnitude.ofPattern p).exponent < (Magnitude.ofPattern q).exponent ∨
      (Magnitude.ofPattern p).exponent = (Magnitude.ofPattern q).exponent ∧
        (Magnitude.ofPattern p).significand < (Magnitude.ofPattern q).significand := by
    rcases Nat.lt_or_ge p (2 ^ 52) with hp | hp
    · rcases Nat.lt_or_ge q (2 ^ 52) with hq | hq
      · simpa [Magnitude.ofPattern_of_lt hp, Magnitude.ofPattern_of_lt hq]
      · simp only [Magnitude.ofPattern_of_lt hp, Magnitude.ofPattern_of_le hq]
        omega
    · simp only [Magnitude.ofPattern_of_le hp, Magnitude.ofPattern_of_le (le_trans hp h.le)]
      omega
  rcases hlt with hexponent | ⟨hexponent, hsignificand⟩
  · rw [compare_lt_iff_lt.2 hexponent]
    rfl
  · rw [compare_eq_iff_eq.2 hexponent, compare_lt_iff_lt.2 hsignificand]
    rfl

/-- Magnitudes compare like their bits. -/
theorem compare_ofPattern (p q : Nat) :
    (compare (Magnitude.ofPattern p).exponent (Magnitude.ofPattern q).exponent).then
      (compare (Magnitude.ofPattern p).significand (Magnitude.ofPattern q).significand)
      = compare p q := by
  rcases lt_trichotomy p q with h | rfl | h
  · rw [compare_ofPattern_of_lt h, compare_lt_iff_lt.2 h]
  · simp
  · rw [compare_gt_iff_gt.2 h, ← Ordering.swap_inj, Ordering.swap_then, Int.compare_swap,
      Nat.compare_swap]
    exact compare_ofPattern_of_lt h

/-- The integer that a sign and the bits of a magnitude make. -/
def rankOf (negative : Bool) (p : Nat) : Int := if negative then -p else p

theorem compare_neg_neg (p q : Nat) : compare (-(p : Int)) (-q) = (compare p q).swap := by
  rcases lt_trichotomy p q with h | rfl | h
  · rw [compare_lt_iff_lt.2 h, compare_gt_iff_gt.2 (by omega), Ordering.swap]
  · simp
  · rw [compare_gt_iff_gt.2 h, compare_lt_iff_lt.2 (by omega), Ordering.swap]

theorem compare_cast (p q : Nat) : compare (p : Int) q = compare p q := by
  rcases lt_trichotomy p q with h | rfl | h
  · rw [compare_lt_iff_lt.2 h, compare_lt_iff_lt.2 (by omega)]
  · simp
  · rw [compare_gt_iff_gt.2 h, compare_gt_iff_gt.2 (by omega)]

/-- The bits of a number's magnitude are those of zero, of infinity, or between the two. -/
theorem pattern_cases {p : Nat} (h : p ≤ infinityPattern) :
    p = 0 ∨ p = infinityPattern ∨ p ≠ 0 ∧ p < infinityPattern := by
  omega

/-- Unpacked floats are ordered as the integers that sign and bits make. -/
theorem compare_unpacked (negative negative' : Bool) {p q : Nat} (hp : p ≤ infinityPattern)
    (hq : q ≤ infinityPattern) :
    (unpacked negative p).compare (unpacked negative' q)
      = some (compare (rankOf negative p) (rankOf negative' q)) := by
  have hinfinity := infinityPattern_eq
  symm
  rcases pattern_cases hp with rfl | rfl | ⟨hpzero, hplt⟩ <;>
    rcases pattern_cases hq with rfl | rfl | ⟨hqzero, hqlt⟩
  case inr.inr.inr.inr =>
    -- Only two finite floats of one sign are compared by more than their kinds and signs.
    rw [unpacked_finite negative hpzero hplt, unpacked_finite negative' hqzero hqlt]
    cases negative <;> cases negative' <;>
      simp only [UnpackedFloat.compare, rankOf, signOf, Bool.false_eq_true, if_false, if_true,
        compare_ofPattern, compare_neg_neg, compare_cast, Option.some.injEq, compare_lt_iff_lt,
        compare_gt_iff_gt] <;>
      omega
  case inl.inr.inr | inr.inl.inr.inr =>
    rw [unpacked_finite negative' hqzero hqlt]
    cases negative <;> cases negative' <;>
      simp [unpacked_zero, unpacked_infinity, UnpackedFloat.compare, rankOf, signOf,
        compare_lt_iff_lt, compare_gt_iff_gt] <;>
      omega
  case inr.inr.inl | inr.inr.inr.inl =>
    rw [unpacked_finite negative hpzero hplt]
    cases negative <;> cases negative' <;>
      simp [unpacked_zero, unpacked_infinity, UnpackedFloat.compare, rankOf, signOf,
        compare_lt_iff_lt, compare_gt_iff_gt] <;>
      omega
  all_goals cases negative <;> cases negative' <;> rfl

/-- The place of a float that is a number among the others: opposite floats have opposite places,
and both zeros the same. -/
def rank (x : Float) : Int := rankOf (isNegative x) (patternOf x)

/-- The rank of a float with a sign and the bits of a magnitude. -/
theorem rank_ofPattern (negative : Bool) {p : Nat} (h : p ≤ infinityPattern) :
    rank (ofPattern negative p) = rankOf negative p := by
  rw [rank, isNegative_ofPattern _ h, patternOf_ofPattern _ h]

/-- The magnitude of a number is infinity at most. -/
theorem patternOf_le {x : Float} (h : ¬ x.isNaN) : patternOf x ≤ infinityPattern :=
  not_lt.1 (mt (isNaN_iff x).2 h)

/-- Two numbers compare like their ranks. -/
theorem compare_unpack {x y : Float} (hx : ¬ x.isNaN) (hy : ¬ y.isNaN) :
    x.toModel.unpack.compare y.toModel.unpack = some (compare (rank x) (rank y)) := by
  rw [unpack_toModel, unpack_toModel]
  exact compare_unpacked _ _ (patternOf_le hx) (patternOf_le hy)

/-- One number is less than another exactly if its rank is. -/
theorem lt_iff_rank {x y : Float} (hx : ¬ x.isNaN) (hy : ¬ y.isNaN) :
    x < y ↔ rank x < rank y := by
  have hlt : x < y ↔ x.toModel.unpack.compare y.toModel.unpack == some .lt :=
    decide_eq_true_iff
  rw [hlt, compare_unpack hx hy, ← compare_lt_iff_lt]
  simp

/-- Two numbers are equal exactly if their ranks are, which zeros of both signs have in common. -/
theorem beq_iff_rank {x y : Float} (hx : ¬ x.isNaN) (hy : ¬ y.isNaN) :
    (x == y) = true ↔ rank x = rank y := by
  have heq : (x == y) = (x.toModel.unpack.compare y.toModel.unpack == some .eq) := rfl
  rw [heq, compare_unpack hx hy, ← compare_eq_iff_eq]
  simp

end Stencil.Decimal
