import Mathlib.Algebra.Order.Field.Power
import Mathlib.Algebra.Order.Field.Rat
import Mathlib.Tactic.FieldSimp
import Mathlib.Tactic.Linarith
import Mathlib.Tactic.Positivity
import Mathlib.Tactic.Ring
import Stencil.Proofs.Floats

/-!
# Rounding to the nearest float

`nearestPattern` rounds a quotient in natural numbers. Here it is related to the rational number
that the quotient is: `Rounding` says which exponent and which significand that number is rounded
to, and `exists_rounding` that these make the bits of the nearest float.

Main statements: `nearestPattern_mono`, that a greater number is not rounded to a lesser float, so
that the result depends on the number alone; `nearestPattern_eq`, that the value of a float is
rounded to this float; and `valueOf_nearestPattern`, that a whole number of at most 53 bits is
rounded to a float with that value.
-/

namespace Stencil.Decimal

/-! ## Natural numbers nearest to a quotient -/

/-- A natural number is nearest to `t`, and even if another one is as near. -/
structure RoundsTo (t : ℚ) (n : Nat) : Prop where
  low : 2 * (n : ℚ) - 1 ≤ 2 * t
  high : 2 * t ≤ 2 * n + 1
  tie : 2 * t = 2 * n - 1 ∨ 2 * t = 2 * n + 1 → n % 2 = 0

/-- Rounding to an integer keeps the order. -/
theorem RoundsTo.mono {t u : ℚ} {m n : Nat} (hm : RoundsTo t m) (hn : RoundsTo u n) (h : t ≤ u) :
    m ≤ n := by
  by_contra hlt
  have hle : (n : ℚ) + 1 ≤ m := by exact_mod_cast not_le.1 hlt
  have hmlow := hm.low
  have hnhigh := hn.high
  -- Both are a tie between `n` and `n + 1`, of which only one is even.
  have hsame : (m : ℚ) = n + 1 := by linarith
  have hm2 := hm.tie (.inl (by linarith))
  have hn2 := hn.tie (.inr (by linarith))
  have : m = n + 1 := by exact_mod_cast hsame
  omega

/-- An integer is rounded to itself. -/
theorem roundsTo_natCast (n : Nat) : RoundsTo n n where
  low := by linarith
  high := by linarith
  tie := by rintro (h | h) <;> linarith

/-- The quotient of two integers is rounded to the integer nearest to it. -/
theorem roundsTo_roundQuotient (num : Nat) {den : Nat} (hden : 0 < den) :
    RoundsTo (num / den) (roundQuotient num den) := by
  have hdenq : (0 : ℚ) < den := by exact_mod_cast hden
  have hsplit : (num : ℚ) = den * (num / den : Nat) + (num % den : Nat) := by
    exact_mod_cast (Nat.div_add_mod num den).symm
  have hlt : ((num % den : Nat) : ℚ) < den := by exact_mod_cast Nat.mod_lt num hden
  have hpos : (0 : ℚ) ≤ (num % den : Nat) := by positivity
  generalize hbelow : num / den = below at *
  generalize hrest : num % den = rest at *
  have ht : (num : ℚ) / den = below + rest / den := by
    rw [hsplit]
    field_simp
  rw [roundQuotient, hbelow, hrest, ht]
  -- What is left is less than half of the denominator, half of it, or more.
  rcases lt_trichotomy (2 * rest) den with h | h | h
  · have hq : 2 * (rest / den : ℚ) < 1 := by
      rw [← mul_div_assoc, div_lt_one hdenq]
      exact_mod_cast h
    have hq0 : 0 ≤ (rest / den : ℚ) := by positivity
    simp only [compare_lt_iff_lt.2 h]
    exact ⟨by linarith, by linarith, by rintro (h | h) <;> linarith⟩
  · have hq : 2 * (rest / den : ℚ) = 1 := by
      rw [← mul_div_assoc, div_eq_one_iff_eq hdenq.ne']
      exact_mod_cast h
    simp only [compare_eq_iff_eq.2 h]
    split
    · exact ⟨by linarith, by linarith, fun _ => ‹_›⟩
    · refine ⟨by push_cast; linarith, by push_cast; linarith, fun _ => by omega⟩
  · have hq : 1 < 2 * (rest / den : ℚ) := by
      rw [← mul_div_assoc, one_lt_div hdenq]
      exact_mod_cast h
    have hq1 : (rest / den : ℚ) < 1 := by rwa [div_lt_one hdenq]
    simp only [compare_gt_iff_gt.2 h]
    refine ⟨by push_cast; linarith, by push_cast; linarith, ?_⟩
    push_cast
    rintro (h | h) <;> linarith

/-! ## Powers as quotients -/

/-- A power with an integer exponent is a quotient of two powers with natural exponents. -/
theorem zpow_eq_div (b : Nat) (hb : b ≠ 0) (e : Int) :
    (b : ℚ) ^ e = ((b ^ e.toNat : Nat) : ℚ) / ((b ^ (-e).toNat : Nat) : ℚ) := by
  have hbq : (b : ℚ) ≠ 0 := by exact_mod_cast hb
  rw [Nat.cast_pow, Nat.cast_pow, ← zpow_natCast, ← zpow_natCast, ← zpow_sub₀ hbq]
  congr 1
  omega

/-- Scaling a quotient by a power. -/
theorem scaled_div (num den b : Nat) (hb : b ≠ 0) (e : Int) :
    ((num * b ^ (-e).toNat : Nat) : ℚ) / ((den * b ^ e.toNat : Nat) : ℚ)
      = num / den / (b : ℚ) ^ e := by
  rw [zpow_eq_div b hb, Nat.cast_mul, Nat.cast_mul, div_div_div_eq]

/-- The comparison of a scaled numerator with a scaled denominator. -/
theorem scaled_lt_iff {num den b : Nat} (hden : 0 < den) (hb : 0 < b) (e : Int) :
    num * b ^ (-e).toNat < den * b ^ e.toNat ↔ (num / den : ℚ) < (b : ℚ) ^ e := by
  have hbq : (0 : ℚ) < b := by exact_mod_cast hb
  have hscaled : 0 < den * b ^ e.toNat := Nat.mul_pos hden (Nat.pow_pos hb)
  rw [← div_lt_one (zpow_pos hbq e), ← scaled_div num den b hb.ne' e,
    div_lt_one (by exact_mod_cast hscaled), Nat.cast_lt]

/-- The binary logarithm of a quotient, rounded down. -/
theorem floorLog2_spec {num den : Nat} (hnum : 0 < num) (hden : 0 < den) :
    (2 : ℚ) ^ floorLog2 num den ≤ num / den ∧ (num / den : ℚ) < 2 ^ (floorLog2 num den + 1) := by
  have hdenq : (0 : ℚ) < den := by exact_mod_cast hden
  have hnumlow : (2 : ℚ) ^ (num.log2 : Int) ≤ num := by
    rw [zpow_natCast]
    exact_mod_cast Nat.log2_self_le hnum.ne'
  have hnumhigh : (num : ℚ) < 2 ^ (num.log2 + 1 : Int) := by
    exact_mod_cast Nat.lt_log2_self
  have hdenlow : (2 : ℚ) ^ (den.log2 : Int) ≤ den := by
    rw [zpow_natCast]
    exact_mod_cast Nat.log2_self_le hden.ne'
  have hdenhigh : (den : ℚ) < 2 ^ (den.log2 + 1 : Int) := by
    exact_mod_cast Nat.lt_log2_self
  -- The two logarithms leave two candidates, between which the comparison decides.
  have hlow : (2 : ℚ) ^ ((num.log2 : Int) - den.log2 - 1) ≤ num / den := by
    rw [le_div_iff₀ hdenq]
    calc (2 : ℚ) ^ ((num.log2 : Int) - den.log2 - 1) * den
        ≤ 2 ^ ((num.log2 : Int) - den.log2 - 1) * 2 ^ (den.log2 + 1 : Int) := by gcongr
      _ = 2 ^ (num.log2 : Int) := by
        rw [← zpow_add₀ two_ne_zero]
        congr 1
        omega
      _ ≤ num := hnumlow
  have hhigh : (num / den : ℚ) < 2 ^ ((num.log2 : Int) - den.log2 + 1) := by
    rw [div_lt_iff₀ hdenq]
    calc (num : ℚ) < 2 ^ (num.log2 + 1 : Int) := hnumhigh
      _ = 2 ^ ((num.log2 : Int) - den.log2 + 1) * 2 ^ (den.log2 : Int) := by
        rw [← zpow_add₀ two_ne_zero]
        congr 1
        omega
      _ ≤ 2 ^ ((num.log2 : Int) - den.log2 + 1) * den := by gcongr
  unfold floorLog2
  dsimp only
  split
  · rename_i hbelow
    rw [scaled_lt_iff hden Nat.two_pos] at hbelow
    rw [sub_add_cancel]
    exact ⟨hlow, hbelow⟩
  · rename_i habove
    rw [scaled_lt_iff hden Nat.two_pos, not_lt] at habove
    exact ⟨habove, hhigh⟩

/-! ## Rounding to a float -/

/-- The exponent and the significand that a positive number is rounded to: the exponent puts the
number below `2 ^ 53` units, and not below `2 ^ 52` of them unless it is the least one. -/
structure Rounding (x : ℚ) (e : Int) (n : Nat) : Prop where
  least : -1074 ≤ e
  below : x < 2 ^ (e + 53)
  above : e = -1074 ∨ 2 ^ (e + 52) ≤ x
  rounds : RoundsTo (x / 2 ^ e) n

/-- The bits of a float with an exponent and a significand. -/
def patternWith (e : Int) (n : Nat) : Nat := (e + 1074).toNat * 2 ^ 52 + n

/-- The nearest float comes from a rounding of the quotient. -/
theorem exists_rounding {num den : Nat} (hnum : 0 < num) (hden : 0 < den) :
    ∃ e n, Rounding (num / den) e n ∧
      nearestPattern num den = min infinityPattern (patternWith e n) := by
  obtain ⟨hlow, hhigh⟩ := floorLog2_spec hnum hden
  generalize he : max (floorLog2 num den - 52) (-1074) = e
  refine ⟨e, roundQuotient (num * 2 ^ (-e).toNat) (den * 2 ^ e.toNat), ⟨by omega, ?_, ?_, ?_⟩, ?_⟩
  · exact hhigh.trans_le (zpow_le_zpow_right₀ one_le_two (by omega))
  · rcases Int.le_total (floorLog2 num den - 52) (-1074) with h | h
    · exact .inl (by omega)
    · exact .inr (hlow.trans' (zpow_le_zpow_right₀ one_le_two (by omega)))
  · have hround := roundsTo_roundQuotient (num * 2 ^ (-e).toNat)
      (Nat.mul_pos hden (Nat.two_pow_pos e.toNat))
    rwa [scaled_div num den 2 two_ne_zero] at hround
  · subst he
    rfl

namespace Rounding

variable {x y : ℚ} {e d : Int} {m n : Nat}

/-- A rounded significand takes at most 53 bits, up to a carry. -/
theorem le (h : Rounding x e n) : n ≤ 2 ^ 53 := by
  have hlt : x / 2 ^ e < 2 ^ (53 : Int) := by
    rw [div_lt_iff₀ (by positivity), ← zpow_add₀ two_ne_zero, add_comm]
    exact h.below
  rw [zpow_ofNat] at hlt
  have hlow := h.rounds.low
  have hn : 2 * n < 2 * 2 ^ 53 + 1 := by
    have : (2 * n : ℚ) < 2 * 2 ^ 53 + 1 := by linarith
    exact_mod_cast this
  omega

/-- A rounded significand takes 53 bits at least where the exponent is not the least. -/
theorem ge (h : Rounding x e n) (he : e ≠ -1074) : 2 ^ 52 ≤ n := by
  have hge : 2 ^ (52 : Int) ≤ x / 2 ^ e := by
    rw [le_div_iff₀ (by positivity), ← zpow_add₀ two_ne_zero, add_comm]
    exact h.above.resolve_left he
  rw [zpow_ofNat] at hge
  have hhigh := h.rounds.high
  have hn : 2 * 2 ^ 52 ≤ 2 * n + 1 := by
    have : (2 * 2 ^ 52 : ℚ) ≤ 2 * n + 1 := by linarith
    exact_mod_cast this
  omega

/-- Greater numbers have no lesser exponent. -/
theorem exponent_mono (hx : Rounding x e m) (hy : Rounding y d n) (h : x ≤ y) : e ≤ d := by
  rcases hx.above with rfl | habove
  · exact hy.least
  · have hlt : (2 : ℚ) ^ (e + 52) < 2 ^ (d + 53) := (habove.trans h).trans_lt hy.below
    have := (zpow_lt_zpow_iff_right₀ one_lt_two).1 hlt
    omega

/-- A greater number is not rounded to a lesser float. -/
theorem patternWith_mono (hx : Rounding x e m) (hy : Rounding y d n) (h : x ≤ y) :
    patternWith e m ≤ patternWith d n := by
  have hleast := hx.least
  have hm := hx.le
  unfold patternWith
  rcases (hx.exponent_mono hy h).eq_or_lt with rfl | hlt
  · have := hx.rounds.mono hy.rounds (div_le_div_of_nonneg_right h (by positivity))
    omega
  · -- A carry of the lesser one goes no further than where the greater one begins.
    have := hy.ge (by omega)
    omega

end Rounding

/-- A greater quotient has no lesser float nearest to it. -/
theorem nearestPattern_mono {num den num' den' : Nat} (hnum : 0 < num) (hden : 0 < den)
    (hnum' : 0 < num') (hden' : 0 < den') (h : (num / den : ℚ) ≤ num' / den') :
    nearestPattern num den ≤ nearestPattern num' den' := by
  obtain ⟨e, m, hx, hpattern⟩ := exists_rounding hnum hden
  obtain ⟨d, n, hy, hpattern'⟩ := exists_rounding hnum' hden'
  rw [hpattern, hpattern']
  exact min_le_min_left _ (hx.patternWith_mono hy h)

/-! ## The values of floats -/

/-- The number that a magnitude is. -/
def Magnitude.value (x : Magnitude) : ℚ := x.significand * 2 ^ x.exponent

/-- The number that the bits of a magnitude stand for. -/
def valueOf (p : Nat) : ℚ := (Magnitude.ofPattern p).value

/-- The bits for an exponent and a significand have the value of these two. -/
theorem valueOf_patternWith {e : Int} {n : Nat} (he : -1074 ≤ e) (hle : n ≤ 2 ^ 53)
    (hge : e = -1074 ∨ 2 ^ 52 ≤ n) : valueOf (patternWith e n) = n * 2 ^ e := by
  unfold patternWith valueOf Magnitude.value
  rcases Nat.lt_or_ge ((e + 1074).toNat * 2 ^ 52 + n) (2 ^ 52) with hlt | hnormal
  · have hleast : e = -1074 := by omega
    subst hleast
    rw [Magnitude.ofPattern_of_lt hlt]
    simp
  · rw [Magnitude.ofPattern_of_le hnormal]
    dsimp only
    rcases hle.eq_or_lt with rfl | hlt
    · -- The carry is into the exponent.
      have hmod : ((e + 1074).toNat * 2 ^ 52 + 2 ^ 53) % 2 ^ 52 = 0 := by omega
      have hdiv : ((((e + 1074).toNat * 2 ^ 52 + 2 ^ 53) / 2 ^ 52 : Nat) : Int) - 1075 = e + 1 := by
        omega
      rw [hmod, hdiv, zpow_add_one₀ two_ne_zero]
      push_cast
      ring
    · have hmod : 2 ^ 52 + ((e + 1074).toNat * 2 ^ 52 + n) % 2 ^ 52 = n := by omega
      have hdiv : ((((e + 1074).toNat * 2 ^ 52 + n) / 2 ^ 52 : Nat) : Int) - 1075 = e := by
        omega
      rw [hmod, hdiv]

/-- The bits of a magnitude are those that its value is rounded to. -/
theorem rounding_valueOf (p : Nat) :
    Rounding (valueOf p) (Magnitude.ofPattern p).exponent (Magnitude.ofPattern p).significand ∧
      patternWith (Magnitude.ofPattern p).exponent (Magnitude.ofPattern p).significand = p := by
  unfold valueOf Magnitude.value patternWith
  have hexact (n : Nat) (e : Int) : RoundsTo ((n : ℚ) * 2 ^ e / 2 ^ e) n := by
    rw [mul_div_cancel_right₀ _ (by positivity)]
    exact roundsTo_natCast n
  have hbelow {n : Nat} (e : Int) (hn : n < 2 ^ 53) : (n : ℚ) * 2 ^ e < 2 ^ (e + 53) := by
    rw [zpow_add₀ two_ne_zero, mul_comm]
    gcongr
    exact_mod_cast hn
  rcases Nat.lt_or_ge p (2 ^ 52) with hlt | hge
  · rw [Magnitude.ofPattern_of_lt hlt]
    refine ⟨⟨le_rfl, hbelow _ (by dsimp only; omega), .inl rfl, hexact _ _⟩, by simp⟩
  · rw [Magnitude.ofPattern_of_le hge]
    refine ⟨⟨by dsimp only; omega, hbelow _ (by dsimp only; omega), .inr ?_, hexact _ _⟩,
      by dsimp only; omega⟩
    rw [zpow_add₀ two_ne_zero, mul_comm]
    gcongr
    dsimp only
    rw [zpow_ofNat]
    exact_mod_cast Nat.le_add_right _ _

/-- The float nearest to the value of a finite float is this float. -/
theorem nearestPattern_eq {num den p : Nat} (hnum : 0 < num) (hden : 0 < den)
    (hp : p ≤ infinityPattern) (h : (num / den : ℚ) = valueOf p) : nearestPattern num den = p := by
  obtain ⟨e, n, hx, hpattern⟩ := exists_rounding hnum hden
  obtain ⟨hy, hp'⟩ := rounding_valueOf p
  have heq := le_antisymm (hx.patternWith_mono hy h.le) (hy.patternWith_mono hx h.ge)
  rw [hpattern, heq, hp', min_eq_right hp]

/-! ## Beyond all floats -/

/-- From twice the greatest power of two among the floats on, infinity is nearest. -/
theorem nearestPattern_of_le {num den : Nat} (hnum : 0 < num) (hden : 0 < den)
    (h : (2 : ℚ) ^ (1024 : Int) ≤ num / den) : nearestPattern num den = infinityPattern := by
  obtain ⟨e, n, hx, hpattern⟩ := exists_rounding hnum hden
  have hlt := (zpow_lt_zpow_iff_right₀ one_lt_two).1 (h.trans_lt hx.below)
  have hge := hx.ge (by omega)
  rw [hpattern, min_eq_left]
  rw [infinityPattern_eq, patternWith]
  omega

/-- Below half the least positive float, zero is nearest. -/
theorem nearestPattern_of_lt {num den : Nat} (hnum : 0 < num) (hden : 0 < den)
    (h : (num / den : ℚ) < 2 ^ (-1075 : Int)) : nearestPattern num den = 0 := by
  obtain ⟨e, n, hx, hpattern⟩ := exists_rounding hnum hden
  have he : e = -1074 := by
    refine hx.above.resolve_right fun habove => ?_
    have := (zpow_lt_zpow_iff_right₀ one_lt_two).1 (habove.trans_lt h)
    have := hx.least
    omega
  subst he
  have hhalf : 2 * ((num / den : ℚ) / 2 ^ (-1074 : Int)) < 1 := by
    rw [← mul_div_assoc, div_lt_one (by positivity), ← lt_div_iff₀' two_pos]
    rwa [div_eq_mul_inv (_ ^ _), ← zpow_sub_one₀ (two_ne_zero' ℚ)]
  have hn : 2 * n < 2 := by
    have : (2 * n : ℚ) < 2 := by
      have := hx.rounds.low
      linarith
    exact_mod_cast this
  have hn0 : n = 0 := by omega
  rw [hpattern, hn0]
  rfl

/-! ## Whole numbers -/

/-- It is rounded to nothing else. -/
theorem RoundsTo.eq {n k : Nat} (h : RoundsTo k n) : n = k :=
  le_antisymm (h.mono (roundsTo_natCast k) le_rfl) ((roundsTo_natCast k).mono h le_rfl)

/-- A whole number of at most 53 bits is the value of the float nearest to it. -/
theorem valueOf_nearestPattern {k : Nat} (hk : 0 < k) (hle : k ≤ 2 ^ 53) :
    nearestPattern k 1 < infinityPattern ∧ valueOf (nearestPattern k 1) = k := by
  obtain ⟨e, n, hx, hpattern⟩ := exists_rounding hk one_pos
  rw [Nat.cast_one, div_one] at hx
  have hleq : (k : ℚ) ≤ 2 ^ (53 : Int) := by
    rw [zpow_ofNat]
    exact_mod_cast hle
  have he : e ≤ 1 := by
    rcases hx.above with rfl | habove
    · omega
    · have := (zpow_le_zpow_iff_right₀ one_lt_two).1 (habove.trans hleq)
      omega
  have hn := hx.le
  have hlt : patternWith e n < infinityPattern := by
    rw [infinityPattern_eq, patternWith]
    omega
  have hvalue : (n : ℚ) * 2 ^ e = k := by
    have hrounds := hx.rounds
    rcases lt_or_ge 0 e with hpos | hneg
    · -- The one number of 54 bits is even.
      have hone : e = 1 := by omega
      subst hone
      have hk53 : k = 2 ^ 53 := by
        have := hx.above.resolve_left (by omega)
        norm_num at this
        omega
      have hhalf : (k : ℚ) / 2 ^ (1 : Int) = (2 ^ 52 : Nat) := by
        rw [hk53]
        norm_num
      rw [hhalf] at hrounds
      rw [hrounds.eq, ← hhalf]
      norm_num
    · have hscaled : (k : ℚ) / 2 ^ e = (k * 2 ^ (-e).toNat : Nat) := by
        rw [div_eq_mul_inv, ← zpow_neg, Nat.cast_mul, Nat.cast_pow, ← zpow_natCast,
          Int.toNat_of_nonneg (by omega)]
        rfl
      rw [hscaled] at hrounds
      rw [hrounds.eq, ← hscaled, div_mul_cancel₀ _ (by positivity)]
  rw [hpattern, min_eq_right hlt.le]
  refine ⟨hlt, ?_⟩
  rw [valueOf_patternWith hx.least hn (or_iff_not_imp_left.2 hx.ge), hvalue]

end Stencil.Decimal
