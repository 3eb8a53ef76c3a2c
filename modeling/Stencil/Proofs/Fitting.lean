import Mathlib.Tactic.ByContra
import Stencil.Proofs.Exactness

/-!
# Integers that fit

The result of an operator on two integers is the exact one if that fits in 64 bits, and an overflow
is reported if it does not (`eval_of_applies`); the same holds of a minus sign
(`eval_minus_of_int`). There are two kinds of operands for which an overflow is reported although
the exact result fits (`eval_of_refused`): a remainder is not computed where the quotient does not
fit, and a power is not computed where the exponent has more than 32 bits. A division by zero is
reported for remainders by zero only (`eval_eq_divisionByZero_iff`).
-/

namespace Stencil

namespace Value

/-- Whether an exact integer has no more than 64 bits. -/
def Fits (n : Int) : Prop := -2 ^ 63 ≤ n ∧ n < 2 ^ 63

instance : DecidablePred Fits := fun _ => inferInstanceAs (Decidable (_ ∧ _))

theorem fits_toInt (i : Int64) : Fits i.toInt := ⟨i.le_toInt, i.toInt_lt⟩

/-- An integer that fits is held in 64 bits as it is. -/
theorem int64?_eq_some {n : Int} {i : Int64} : int64? n = some i ↔ i.toInt = n := by
  constructor
  · exact toInt_of_int64?
  · rintro rfl
    exact int64?_toInt i

/-- One that does not fit is not held. -/
theorem int64?_eq_none {n : Int} : int64? n = none ↔ ¬ Fits n := by
  unfold int64? Fits
  rw [ite_eq_right_iff]
  simp

end Value

namespace Expr

open Value (int64? Fits)

variable {op : Operator} {x y : Int64}

/-! ## Powers -/

/-- From the sixty-fourth on, the powers of an integer with a magnitude above one do not fit. -/
theorem not_fits_pow {x : Int} {n : Nat} (hx : 1 < x.natAbs) (hn : 64 ≤ n) : ¬ Fits (x ^ n) := by
  have hlarge : 2 ^ 64 ≤ (x ^ n).natAbs := by
    calc 2 ^ 64 ≤ 2 ^ n := Nat.pow_le_pow_right (by omega) hn
      _ ≤ x.natAbs ^ n := Nat.pow_le_pow_left hx n
      _ = (x ^ n).natAbs := (Int.natAbs_pow x n).symm
  unfold Fits
  omega

/-- A power is the exact one if it fits, unless the exponent is too great and the base is zero, one
or minus one. -/
theorem intPow?_eq {n : Nat} (h : n ≤ maxExponent ∨ 1 < x.toInt.natAbs) :
    intPow? x n = int64? (x.toInt ^ n) := by
  cases hpow : intPow? x n with
  | some r => rw [← toInt_of_intPow? hpow, Value.int64?_toInt]
  | none =>
    -- Each guard that refuses a power does so where it does not fit.
    symm
    unfold intPow? at hpow
    split at hpow
    · rename_i hgreat
      have hlong : 64 ≤ n := Nat.le_trans (by decide) (Nat.le_of_lt hgreat)
      exact Value.int64?_eq_none.2 (not_fits_pow (by omega) hlong)
    split at hpow
    · split at hpow
      · cases hpow
      · split at hpow <;> cases hpow
    · split at hpow
      · exact Value.int64?_eq_none.2 (not_fits_pow (by omega) ‹_›)
      · exact hpow

/-! ## Remainders -/

/-- The one quotient that does not fit is that of the least integer by minus one. -/
theorem fits_tdiv {x : Int} (hx : Fits x) (y : Int) :
    Fits (x.tdiv y) ↔ ¬ (x = -2 ^ 63 ∧ y = -1) := by
  unfold Fits at *
  constructor
  · rintro ⟨-, hlt⟩ ⟨rfl, rfl⟩
    exact absurd hlt (by decide)
  · intro hnot
    have hquotient : (x.tdiv y).natAbs = x.natAbs / y.natAbs := Int.natAbs_tdiv x y
    by_cases hone : y.natAbs = 1
    · obtain rfl | rfl : y = 1 ∨ y = -1 := by omega
      · rwa [Int.tdiv_one]
      · rw [Int.tdiv_neg, Int.tdiv_one]
        omega
    · -- By zero the quotient is zero, and by any other divisor at most half the dividend.
      have hhalf : x.natAbs / y.natAbs ≤ x.natAbs / 2 := by
        obtain hzero | hpos := Nat.eq_zero_or_pos y.natAbs
        · rw [hzero, Nat.div_zero]
          exact Nat.zero_le _
        · exact Nat.div_le_div_left (by omega) (by decide)
      omega

/-- A remainder is the exact one, unless the quotient does not fit. -/
theorem intMod?_eq (h : ¬ (x = Int64.minValue ∧ y = -1)) :
    intMod? x y = int64? (x.toInt.fmod y.toInt) := by
  have hfits : Fits (x.toInt.tdiv y.toInt) := by
    rw [fits_tdiv (Value.fits_toInt x)]
    rintro ⟨hx, hy⟩
    exact h ⟨Int64.toInt_inj.1 hx, Int64.toInt_inj.1 hy⟩
  rw [intMod?, if_neg]
  rw [Option.isNone_iff_eq_none, Value.int64?_eq_none]
  exact not_not_intro hfits

/-! ## Operators on integers -/

/-- The operands for which an overflow is reported although the exact result fits. -/
inductive Refused : Operator → Int64 → Int64 → Prop
  /-- The remainder is zero. -/
  | mod : Refused .mod Int64.minValue (-1)
  /-- The power is zero, one or minus one. -/
  | pow {x y : Int64} (hbase : x.toInt.natAbs ≤ 1) (hexponent : maxExponent < y.toInt.toNat) :
    Refused .pow x y

/-- An operator yields an integer of two integers, unless it is a division, a remainder by zero or a
power with a negative exponent. -/
theorem exists_applies {x y : Int} (hdiv : op ≠ .div) (hmod : op = .mod → y ≠ 0)
    (hpow : op = .pow → 0 ≤ y) : ∃ r, Applies op x y r := by
  cases op with
  | add => exact ⟨_, .add x y⟩
  | sub => exact ⟨_, .sub x y⟩
  | mul => exact ⟨_, .mul x y⟩
  | div => exact absurd rfl hdiv
  | mod => exact ⟨_, .mod (isRemainder_fmod x (hmod rfl))⟩
  | pow =>
    obtain ⟨n, rfl⟩ := Int.eq_ofNat_of_zero_le (hpow rfl)
    exact ⟨_, .pow x n⟩

/-- An operator on two integers has the exact result, which has to fit, unless it is refused. -/
theorem intArithmetic_of_applies {r : Int} (happlies : Applies op x.toInt y.toInt r)
    (hallowed : ¬ Refused op x y) : intArithmetic op x y = exactly op (int64? r) := by
  cases op with
  | add => rw [happlies.unique (.add ..), intArithmetic]
  | sub => rw [happlies.unique (.sub ..), intArithmetic]
  | mul => rw [happlies.unique (.mul ..), intArithmetic]
  | div => cases happlies
  | mod =>
    have hne : y.toInt ≠ 0 := by
      cases happlies with
      | mod h =>
        have hbetween := h.between
        omega
    have hy : y ≠ 0 := fun hzero => hne (hzero ▸ rfl)
    have hquotient : ¬ (x = Int64.minValue ∧ y = -1) := by
      rintro ⟨rfl, rfl⟩
      exact hallowed .mod
    rw [happlies.unique (.mod (isRemainder_fmod _ hne)), intArithmetic, if_neg hy,
      intMod?_eq hquotient]
  | pow =>
    generalize hexponent : y.toInt = exponent at happlies
    cases happlies with
    | pow _ n =>
      have hy : 0 ≤ y := by
        rw [Int64.le_iff_toInt_le, hexponent]
        exact Int.natCast_nonneg n
      -- The power is computed, as its exponent is small or its base is not trivial.
      have hcomputed : n ≤ maxExponent ∨ 1 < x.toInt.natAbs := by
        by_contra hnot
        refine hallowed (.pow (by omega) ?_)
        rw [hexponent, Int.toNat_natCast]
        omega
      rw [intArithmetic, if_pos hy, hexponent, Int.toNat_natCast, intPow?_eq hcomputed]

/-- What is refused is an overflow, although the exact result fits. -/
theorem intArithmetic_of_refused (h : Refused op x y) :
    intArithmetic op x y = .error (.overflow op.symbol) ∧
      ∃ r, Applies op x.toInt y.toInt r ∧ Fits r := by
  cases h with
  | mod => exact ⟨rfl, 0, .mod ⟨⟨2 ^ 63, rfl⟩, .inr ⟨by decide, Int.le_refl 0⟩⟩, by decide⟩
  | pow hbase hexponent =>
    have hnat : ((y.toInt.toNat : Nat) : Int) = y.toInt := by omega
    have hy : 0 ≤ y := by
      rw [Int64.le_iff_toInt_le, ← hnat]
      exact Int.natCast_nonneg _
    have happlies := Applies.pow x.toInt y.toInt.toNat
    rw [hnat] at happlies
    refine ⟨?_, _, happlies, ?_⟩
    · rw [intArithmetic, if_pos hy, intPow?, if_pos hexponent]
      rfl
    · rw [pow_of_natAbs_le_one hbase (by omega)]
      have hcases : x.toInt = 0 ∨ x.toInt = 1 ∨ x.toInt = -1 := by omega
      obtain h | h | h := hcases
      all_goals
        rw [h]
        split <;> decide

/-! ## Evaluating operators -/

/-- The checked result is the exact one. -/
theorem exactly_eq_int {r : Int} {n : Int64} :
    exactly op (int64? r) = .ok (.int n) ↔ n.toInt = r := by
  rw [← Value.int64?_eq_some]
  cases int64? r <;> simp [exactly]

/-- It overflows exactly where the exact one does not fit. -/
theorem exactly_eq_overflow {r : Int} :
    exactly op (int64? r) = .error (.overflow op.symbol) ↔ ¬ Fits r := by
  rw [← Value.int64?_eq_none]
  cases int64? r <;> simp [exactly]

section

variable {context : Option Context} {left right : Expr}
  (hleft : eval context left = .ok (.int x)) (hright : eval context right = .ok (.int y))
include hleft hright

/-- An operation with two integers is done in 64 bits. -/
theorem eval_binary_of_ints :
    eval context (.binary left op right) = intArithmetic op x y := by
  rw [eval, hleft, hright]
  cases op <;> rfl

/-- Unless it is refused, an operator on two integers evaluates to the exact integer that it yields,
or to an overflow exactly if that does not fit. -/
theorem eval_of_applies {r : Int} (happlies : Applies op x.toInt y.toInt r)
    (hallowed : ¬ Refused op x y) :
    (∀ n, eval context (.binary left op right) = .ok (.int n) ↔ n.toInt = r) ∧
      (eval context (.binary left op right) = .error (.overflow op.symbol) ↔ ¬ Fits r) := by
  rw [eval_binary_of_ints hleft hright, intArithmetic_of_applies happlies hallowed]
  exact ⟨fun n => exactly_eq_int, exactly_eq_overflow⟩

/-- An operator that is refused evaluates to an overflow, although the integer that it yields
fits. -/
theorem eval_of_refused (h : Refused op x y) :
    eval context (.binary left op right) = .error (.overflow op.symbol) ∧
      ∃ r, Applies op x.toInt y.toInt r ∧ Fits r := by
  rw [eval_binary_of_ints hleft hright]
  exact intArithmetic_of_refused h

/-- Where an operator on two integers is not computed with floats, a division by zero is a remainder
by zero. -/
theorem eval_eq_divisionByZero_iff (hdiv : op ≠ .div) (hpow : op = .pow → 0 ≤ y) :
    eval context (.binary left op right) = .error .divisionByZero ↔ op = .mod ∧ y = 0 := by
  rw [eval_binary_of_ints hleft hright]
  constructor
  · intro hzero
    by_contra hnot
    obtain ⟨r, happlies⟩ : ∃ r, Applies op x.toInt y.toInt r := by
      refine exists_applies hdiv (fun hmod hy => hnot ⟨hmod, Int64.toInt_inj.1 hy⟩) fun h => ?_
      exact Int64.le_iff_toInt_le.1 (hpow h)
    by_cases hrefused : Refused op x y
    · rw [(intArithmetic_of_refused hrefused).1] at hzero
      cases hzero
    · rw [intArithmetic_of_applies happlies hrefused] at hzero
      cases hfound : int64? r <;> rw [hfound] at hzero <;> cases hzero
  · rintro ⟨rfl, rfl⟩
    rfl

end

/-- A minus sign in front of an integer evaluates to its exact negative, or to an overflow exactly
if that does not fit. -/
theorem eval_minus_of_int {context : Option Context} {operand : Expr}
    (h : eval context operand = .ok (.int x)) :
    (∀ n, eval context (.signed .minus operand) = .ok (.int n) ↔ n.toInt = -x.toInt) ∧
      (eval context (.signed .minus operand) = .error (.overflow Sign.minus.symbol)
        ↔ ¬ Fits (-x.toInt)) := by
  have heval : eval context (.signed .minus operand) = sign .minus (.int x) := by
    rw [eval, h]
    rfl
  rw [heval, ← Value.int64?_eq_none]
  constructor
  · intro n
    rw [← Value.int64?_eq_some]
    cases hneg : int64? (-x.toInt) <;> simp [sign, Number.ofValue?, hneg]
  · cases hneg : int64? (-x.toInt) <;> simp [sign, Number.ofValue?, hneg]

example : eval none (.binary (.literal (.int Int64.minValue)) .mod (.literal (.int (-1))))
    = .error (.overflow "%") := rfl

example : eval none (.binary (.literal (.int 1)) .pow (.literal (.int (2 ^ 32))))
    = .error (.overflow "**") := rfl

end Expr

end Stencil
