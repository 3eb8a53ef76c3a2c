import Mathlib.Data.List.TakeWhile
import Stencil.Decimal.Layout
import Stencil.Proofs.Nearest

/-!
# Written floats

A decimal is read as the float nearest to its value (`pattern_eq`), so two decimals of one value are
read alike (`pattern_congr`), and the exact value of a float is read as this float
(`pattern_exact`). This is what `pattern_shortest` asks for: the shortest decimal of a float is read
as this float too.

`IsFloat` says which texts are those of floats and which decimals they stand for, and
`IsFloat.ofText?` that the reader agrees. Every layout writes such texts: in positional notation
(`isFloat_plain`) and with an exponent (`isFloat_scientific`) the value of the digits is kept.

Main statement: `isFloat_writePositive`, that what a layout writes for a positive float is the text
of a float and is read as this one.
-/

namespace Stencil.Decimal

/-! ## The values of decimals -/

/-- The number that a decimal is. -/
def value (d : Decimal) : ℚ := d.digits * 10 ^ d.exponent

/-- The quotient that is rounded when a decimal is read. -/
theorem value_eq_div (d : Decimal) :
    d.value = ((d.digits * 10 ^ d.exponent.toNat : Nat) : ℚ) /
      ((10 ^ (-d.exponent).toNat : Nat) : ℚ) := by
  have hpow : (10 : ℚ) ^ d.exponent
      = ((10 ^ d.exponent.toNat : Nat) : ℚ) / ((10 ^ (-d.exponent).toNat : Nat) : ℚ) :=
    zpow_eq_div 10 (by decide) d.exponent
  rw [value, hpow, Nat.cast_mul, mul_div_assoc]

/-- A number is less than the power of ten with as many zeros as it has digits. -/
theorem lt_pow_digitCount (n : Nat) : n < 10 ^ digitCount n :=
  (Nat.length_toDigits_le_iff (by decide) Nat.length_toDigits_pos).1 le_rfl

/-- It is at least the power with one zero less, unless it is zero. -/
theorem pow_digitCount_le {n : Nat} (h : n ≠ 0) : 10 ^ (digitCount n - 1) ≤ n := by
  rcases Nat.eq_zero_or_pos (digitCount n - 1) with hone | hmore
  · rw [hone]
    exact Nat.pos_of_ne_zero h
  · rw [← not_lt, ← Nat.length_toDigits_le_iff (by decide) hmore]
    change ¬ digitCount n ≤ digitCount n - 1
    omega

theorem digitCount_pos (n : Nat) : 0 < digitCount n := Nat.length_toDigits_pos

/-- The value of a decimal is told up to a factor of ten by the place of its leading digit. -/
theorem value_lt (d : Decimal) : d.value < 10 ^ (d.exponent + digitCount d.digits) := by
  rw [value, zpow_add₀ (by norm_num), mul_comm]
  gcongr
  rw [zpow_natCast]
  exact_mod_cast lt_pow_digitCount d.digits

/-- A decimal is at least the power of ten that its first digit stands for. -/
theorem le_value {d : Decimal} (h : d.digits ≠ 0) :
    10 ^ (d.exponent + digitCount d.digits - 1) ≤ d.value := by
  have hsplit : d.exponent + digitCount d.digits - 1
      = d.exponent + ((digitCount d.digits - 1 : Nat) : Int) := by
    have := digitCount_pos d.digits
    omega
  rw [value, hsplit, zpow_add₀ (by norm_num), mul_comm]
  gcongr
  rw [zpow_natCast]
  exact_mod_cast pow_digitCount_le h

/-! ## Reading decimals -/

/-- What is beyond `10 ^ 310` is beyond all finite floats. -/
theorem two_zpow_le_ten_zpow : (2 : ℚ) ^ (1024 : Int) ≤ 10 ^ (310 : Int) := by
  have h : ((2 ^ 1024 : Nat) : ℚ) ≤ (10 ^ 310 : Nat) := Nat.cast_le.2 (by decide +kernel)
  rwa [Nat.cast_pow, Nat.cast_pow, Nat.cast_ofNat, Nat.cast_ofNat] at h

/-- What is below `10 ^ -331` is below half the least positive float. -/
theorem ten_zpow_lt_two_zpow : (10 : ℚ) ^ (-331 : Int) < 2 ^ (-1075 : Int) := by
  have h : ((2 ^ 1075 : Nat) : ℚ) < (10 ^ 331 : Nat) := Nat.cast_lt.2 (by decide +kernel)
  rw [Nat.cast_pow, Nat.cast_pow, Nat.cast_ofNat, Nat.cast_ofNat] at h
  rw [zpow_neg, zpow_neg]
  exact inv_strictAnti₀ (by positivity) h

/-- A decimal is read as the float nearest to its value; that its leading digit may tell that this
is infinity or zero makes no difference. -/
theorem pattern_eq {d : Decimal} (h : d.digits ≠ 0) :
    d.pattern = nearestPattern (d.digits * 10 ^ d.exponent.toNat) (10 ^ (-d.exponent).toNat) := by
  have hnum : 0 < d.digits * 10 ^ d.exponent.toNat := by positivity
  have hden : 0 < 10 ^ (-d.exponent).toNat := by positivity
  rw [pattern, if_neg h]
  dsimp only
  split
  · -- Such a value is beyond all floats.
    refine (nearestPattern_of_le hnum hden ?_).symm
    rw [← value_eq_div]
    refine (two_zpow_le_ten_zpow.trans ?_).trans (le_value h)
    exact zpow_le_zpow_right₀ (by norm_num) (by omega)
  · split
    · -- Such a value is nearer to zero than to any other float.
      refine (nearestPattern_of_lt hnum hden ?_).symm
      rw [← value_eq_div]
      refine ((value_lt d).trans_le ?_).trans ten_zpow_lt_two_zpow
      exact zpow_le_zpow_right₀ (by norm_num) (by omega)
    · rfl

/-- A decimal is zero where its digits are. -/
theorem value_eq_zero_iff (d : Decimal) : d.value = 0 ↔ d.digits = 0 := by
  rw [value, mul_eq_zero, Nat.cast_eq_zero, or_iff_left (zpow_ne_zero _ (by norm_num))]

/-- Decimals of one value are read alike. -/
theorem pattern_congr {d d' : Decimal} (h : d.value = d'.value) : d.pattern = d'.pattern := by
  have hle {c c' : Decimal} (hc : c.digits ≠ 0) (hc' : c'.digits ≠ 0) (heq : c.value = c'.value) :
      c.pattern ≤ c'.pattern := by
    rw [pattern_eq hc, pattern_eq hc']
    refine nearestPattern_mono (by positivity) (by positivity) (by positivity) (by positivity) ?_
    rw [← value_eq_div, ← value_eq_div, heq]
  have hiff : d.digits = 0 ↔ d'.digits = 0 := by
    rw [← value_eq_zero_iff, ← value_eq_zero_iff, h]
  by_cases hzero : d.digits = 0
  · rw [pattern, if_pos hzero, pattern, if_pos (hiff.1 hzero)]
  · have hzero' := mt hiff.2 hzero
    exact le_antisymm (hle hzero hzero' h) (hle hzero' hzero h.symm)

/-- The exact decimal of a magnitude has its value. -/
theorem value_exact (bits : Nat) : (exact bits).value = valueOf bits := by
  unfold exact valueOf Magnitude.value value
  dsimp only
  split
  · rename_i hneg
    have hfive : ((5 ^ (-(Magnitude.ofPattern bits).exponent).toNat : Nat) : ℚ)
        = 5 ^ (-(Magnitude.ofPattern bits).exponent) := by
      rw [Nat.cast_pow, ← zpow_natCast, Int.toNat_of_nonneg (by omega)]
      rfl
    have hten : (10 : ℚ) ^ (Magnitude.ofPattern bits).exponent
        = 5 ^ (Magnitude.ofPattern bits).exponent * 2 ^ (Magnitude.ofPattern bits).exponent := by
      rw [← mul_zpow]
      norm_num
    rw [Nat.cast_mul, hfive, hten, mul_assoc, ← mul_assoc (5 ^ _),
      zpow_neg_mul_zpow_self _ (by norm_num), one_mul]
  · rename_i hpos
    simp only [zpow_zero, mul_one]
    push_cast
    rw [← zpow_natCast, Int.toNat_of_nonneg (by omega)]

/-- The exact value of a finite float is read as this float. -/
theorem pattern_exact {bits : Nat} (h : bits ≠ 0) (hlt : bits ≤ infinityPattern) :
    (exact bits).pattern = bits := by
  have hpos : 0 < (exact bits).value := by
    rw [value_exact]
    have := significand_pos h
    unfold valueOf Magnitude.value
    positivity
  have hdigits : (exact bits).digits ≠ 0 := (value_eq_zero_iff _).not.1 hpos.ne'
  rw [pattern_eq hdigits]
  refine nearestPattern_eq (by positivity) (by positivity) hlt ?_
  rw [← value_eq_div, value_exact]

/-! ## The texts of numbers -/

/-- A text of digits. -/
def Digits (s : List Char) : Prop := ∀ c ∈ s, c.isDigit = true

theorem Digits.append {s t : List Char} (hs : Digits s) (ht : Digits t) : Digits (s ++ t) := by
  intro c hc
  exact (List.mem_append.1 hc).elim (hs c) (ht c)

/-- A number is written in digits. -/
theorem digits_toDigits (n : Nat) : Digits (Nat.toDigits 10 n) := fun _ hc =>
  Nat.isDigit_of_mem_toDigits (by decide) (by decide) hc

theorem digits_zeros (n : Nat) : Digits (zeros n) := by
  intro c hc
  rw [List.eq_of_mem_replicate hc]
  rfl

/-- A text of digits with perhaps a point among or behind them, and the decimal it stands for. -/
inductive IsMantissa : List Char → Decimal → Prop
  | whole {s : List Char} (hne : s ≠ []) (hs : Digits s) : IsMantissa s ⟨Nat.ofDigitChars 10 s 0, 0⟩
  | point {s t : List Char} (hne : s ≠ []) (hs : Digits s) (ht : Digits t) :
    IsMantissa (s ++ '.' :: t) ⟨Nat.ofDigitChars 10 (s ++ t) 0, -t.length⟩

/-- A text of a sign and digits, and the exponent that it stands for. -/
inductive IsExponent : List Char → Int → Prop
  | plus {s : List Char} (hne : s ≠ []) (hs : Digits s) :
    IsExponent ('+' :: s) (Nat.ofDigitChars 10 s 0)
  | minus {s : List Char} (hne : s ≠ []) (hs : Digits s) :
    IsExponent ('-' :: s) (-(Nat.ofDigitChars 10 s 0 : Nat))

/-- The text of a float, which has a point or an exponent, and the decimal it stands for. -/
inductive IsFloat : List Char → Decimal → Prop
  | point {s t : List Char} (hne : s ≠ []) (hs : Digits s) (ht : Digits t) :
    IsFloat (s ++ '.' :: t) ⟨Nat.ofDigitChars 10 (s ++ t) 0, -t.length⟩
  | exponent {s t : List Char} {d : Decimal} {e : Int} (hs : IsMantissa s d)
    (ht : IsExponent t e) : IsFloat (s ++ 'e' :: t) ⟨d.digits, d.exponent + e⟩

section

variable {p : Char → Bool} {s : List Char} {c : Char} (hs : ∀ d ∈ s, p d = true) (hc : p c = false)

include hs hc

theorem takeWhile_append_cons (t : List Char) : (s ++ c :: t).takeWhile p = s := by
  rw [List.takeWhile_append_of_pos hs, List.takeWhile_cons_of_neg (by simp [hc]), List.append_nil]

theorem dropWhile_append_cons (t : List Char) : (s ++ c :: t).dropWhile p = c :: t := by
  rw [List.dropWhile_append_of_pos hs, List.dropWhile_cons_of_neg (by simp [hc])]

end

/-- A digit is neither the point nor the mark of an exponent. -/
theorem digit_ne {c : Char} (hc : c.isDigit = true) :
    (c != '.') = true ∧ isExponentMark c = false := by
  constructor
  · rw [bne_iff_ne]
    rintro rfl
    contradiction
  · rw [isExponentMark, Bool.or_eq_false_iff, beq_eq_false_iff_ne, beq_eq_false_iff_ne]
    constructor <;>
    · rintro rfl
      contradiction

theorem Digits.all {s : List Char} (hs : Digits s) : s.all Char.isDigit = true :=
  List.all_eq_true.2 hs

/-- A mantissa is read as the decimal that it is written for. -/
theorem IsMantissa.mantissaValue? {s : List Char} {d : Decimal} (h : IsMantissa s d) :
    Decimal.mantissaValue? s = some d := by
  cases h with
  | whole hne hs =>
    have hpoint : ∀ c ∈ s, (c != '.') = true := fun c hc => (digit_ne (hs c hc)).1
    have htake := List.takeWhile_eq_self_iff.2 hpoint
    have hdrop := List.dropWhile_eq_nil_iff.2 hpoint
    simp [Decimal.mantissaValue?, htake, hdrop, hne, hs.all]
  | @point s t hne hs ht =>
    have hpoint : ∀ c ∈ s, (c != '.') = true := fun c hc => (digit_ne (hs c hc)).1
    have htake := takeWhile_append_cons hpoint (c := '.') rfl t
    have hdrop := dropWhile_append_cons hpoint (c := '.') rfl t
    simp [Decimal.mantissaValue?, htake, hdrop, hne, hs.all, ht.all]

/-- No exponent mark stands in a mantissa. -/
theorem IsMantissa.unmarked {s : List Char} {d : Decimal} (h : IsMantissa s d) :
    ∀ c ∈ s, (!isExponentMark c) = true := by
  have hdigits {t : List Char} (ht : Digits t) : ∀ c ∈ t, (!isExponentMark c) = true := by
    intro c hc
    rw [(digit_ne (ht c hc)).2]
    rfl
  cases h with
  | whole hne hs => exact hdigits hs
  | point hne hs ht =>
    intro c hc
    rcases List.mem_append.1 hc with hc | hc
    · exact hdigits hs c hc
    · rcases List.mem_cons.1 hc with rfl | hc
      · rfl
      · exact hdigits ht c hc

/-- An exponent is read as the number that it is written for. -/
theorem IsExponent.exponentValue? {s : List Char} {e : Int} (h : IsExponent s e) :
    Decimal.exponentValue? s = some e := by
  cases h with
  | plus hne hs => simp [Decimal.exponentValue?, hne, hs.all]
  | minus hne hs => simp [Decimal.exponentValue?, hne, hs.all]

/-- The text of a float stands for one decimal. -/
theorem IsFloat.ofText? {s : List Char} {d : Decimal} (h : IsFloat s d) :
    Decimal.ofText? s = some d := by
  cases h with
  | point hne hs ht =>
    have hmantissa := IsMantissa.point hne hs ht
    have htake := List.takeWhile_eq_self_iff.2 hmantissa.unmarked
    have hdrop := List.dropWhile_eq_nil_iff.2 hmantissa.unmarked
    rw [Decimal.ofText?, htake, hmantissa.mantissaValue?, hdrop]
    rfl
  | @exponent s t d e hs ht =>
    have htake := takeWhile_append_cons hs.unmarked (c := 'e') rfl t
    have hdrop := dropWhile_append_cons hs.unmarked (c := 'e') rfl t
    rw [Decimal.ofText?, htake, hs.mantissaValue?, hdrop]
    simp [ht.exponentValue?]

/-! ## What is written -/

/-- Zeros in front do not change a number. -/
theorem ofDigitChars_zeros_append (k : Nat) (s : List Char) :
    Nat.ofDigitChars 10 (zeros k ++ s) 0 = Nat.ofDigitChars 10 s 0 := by
  induction k with
  | zero => rfl
  | succ k ih =>
    rw [zeros, List.replicate_succ, List.cons_append, Nat.ofDigitChars_cons]
    exact ih

/-- Zeros behind a number multiply it by a power of ten. -/
theorem ofDigitChars_append_zeros (s : List Char) (k : Nat) :
    Nat.ofDigitChars 10 (s ++ zeros k) 0 = Nat.ofDigitChars 10 s 0 * 10 ^ k := by
  have hzeros : Nat.ofDigitChars 10 (zeros k) 0 = 0 := by
    simpa using ofDigitChars_zeros_append k []
  rw [Nat.ofDigitChars_append, Nat.ofDigitChars_eq_ofDigitChars_zero, hzeros, zeros,
    List.length_replicate, Nat.add_zero, Nat.mul_comm]

/-- A decimal with its leading digit at the place of `10 ^ e`. -/
def leadingAt (n : Nat) (e : Int) : ℚ := n * 10 ^ (e + 1 - digitCount n)

/-- Digits around a point stand for all of them together, counted in units of the last one. -/
theorem exists_isFloat_point {s t : List Char} (hne : s ≠ []) (hs : Digits s) (ht : Digits t) :
    ∃ d, IsFloat (s ++ '.' :: t) d ∧
      d.value = Nat.ofDigitChars 10 (s ++ t) 0 * 10 ^ (-t.length : Int) :=
  ⟨_, .point hne hs ht, rfl⟩

/-- Positional notation keeps the value. -/
theorem isFloat_plain (n : Nat) (e : Int) :
    ∃ d, IsFloat (plain (Nat.toDigits 10 n) e) d ∧ d.value = leadingAt n e := by
  have hdigits := digits_toDigits n
  have hne : Nat.toDigits 10 n ≠ [] := Nat.toDigits_ne_nil
  have hlength : (Nat.toDigits 10 n).length = digitCount n := rfl
  unfold plain
  split
  · -- The leading digit stands behind the point, perhaps with zeros between them.
    obtain ⟨d, hd, hvalue⟩ := exists_isFloat_point (s := ['0']) (by simp) (by simp [Digits])
      ((digits_zeros (-e - 1).toNat).append hdigits)
    have hall : Nat.ofDigitChars 10 (['0'] ++ (zeros (-e - 1).toNat ++ Nat.toDigits 10 n)) 0
        = n := by
      rw [List.singleton_append, Nat.ofDigitChars_cons]
      exact (ofDigitChars_zeros_append _ _).trans Nat.ofDigitChars_ten_toDigits
    have hunit : -((zeros (-e - 1).toNat ++ Nat.toDigits 10 n).length : Int)
        = e + 1 - digitCount n := by
      rw [List.length_append, zeros, List.length_replicate, hlength]
      omega
    exact ⟨d, hd, by rw [hvalue, hall, hunit, leadingAt]⟩
  · dsimp only
    split
    · -- The point stands among the digits.
      obtain ⟨d, hd, hvalue⟩ := exists_isFloat_point
        (s := (Nat.toDigits 10 n).take (e.toNat + 1)) (t := (Nat.toDigits 10 n).drop (e.toNat + 1))
        (by simp [hne]) (fun c hc => hdigits c (List.mem_of_mem_take hc))
        (fun c hc => hdigits c (List.mem_of_mem_drop hc))
      have hunit : -(((Nat.toDigits 10 n).drop (e.toNat + 1)).length : Int)
          = e + 1 - digitCount n := by
        rw [List.length_drop, hlength]
        omega
      refine ⟨d, hd, ?_⟩
      rw [hvalue, List.take_append_drop, Nat.ofDigitChars_ten_toDigits, hunit, leadingAt]
    · -- The digit behind the point counts as one more zero.
      obtain ⟨d, hd, hvalue⟩ := exists_isFloat_point (t := ['0'])
        (by simp [hne]) (hdigits.append (digits_zeros (e.toNat + 1 - (Nat.toDigits 10 n).length)))
        (by simp [Digits])
      refine ⟨d, by simpa using hd, ?_⟩
      have hall : Nat.ofDigitChars 10 (Nat.toDigits 10 n ++
          zeros (e.toNat + 1 - (Nat.toDigits 10 n).length) ++ ['0']) 0
          = n * 10 ^ (e.toNat + 1 - digitCount n) * 10 ^ 1 := by
        change Nat.ofDigitChars 10 (_ ++ zeros 1) 0 = _
        rw [ofDigitChars_append_zeros, ofDigitChars_append_zeros, Nat.ofDigitChars_ten_toDigits,
          hlength]
      rw [hvalue, hall, leadingAt]
      have hexponent :
          e + 1 - (digitCount n : Int) = ((e.toNat + 1 - digitCount n : Nat) : Int) := by
        omega
      rw [hexponent, zpow_natCast]
      push_cast
      simp

/-- An exponent is written with its sign and perhaps zeros in front. -/
theorem isExponent_padded (width : Nat) (e : Int) :
    IsExponent ((if e < 0 then '-' else '+') :: padded width e.natAbs) e := by
  have hdigits : Digits (padded width e.natAbs) := (digits_zeros _).append (digits_toDigits _)
  have hne : padded width e.natAbs ≠ [] := by simp [padded, Nat.toDigits_ne_nil]
  have hvalue : Nat.ofDigitChars 10 (padded width e.natAbs) 0 = e.natAbs :=
    (ofDigitChars_zeros_append _ _).trans Nat.ofDigitChars_ten_toDigits
  split
  · have hminus := IsExponent.minus hne hdigits
    rwa [hvalue, show (-(e.natAbs : Nat) : Int) = e by omega] at hminus
  · have hplus := IsExponent.plus hne hdigits
    rwa [hvalue, show ((e.natAbs : Nat) : Int) = e by omega] at hplus

/-- Notation with an exponent keeps the value. -/
theorem isFloat_scientific (width n : Nat) (e : Int) :
    ∃ d, IsFloat (scientific width (Nat.toDigits 10 n) e) d ∧ d.value = leadingAt n e := by
  have hdigits := digits_toDigits n
  have hne : (Nat.toDigits 10 n).take 1 ≠ [] := by simp [Nat.toDigits_ne_nil]
  have hlength : (Nat.toDigits 10 n).length = digitCount n := rfl
  have hpos := digitCount_pos n
  have hmantissa : IsMantissa ((Nat.toDigits 10 n).take 1 ++
      if (Nat.toDigits 10 n).length ≤ 1 then [] else '.' :: (Nat.toDigits 10 n).drop 1)
      ⟨n, 1 - digitCount n⟩ := by
    split
    · rename_i hone
      have hwhole := IsMantissa.whole Nat.toDigits_ne_nil hdigits
      rw [Nat.ofDigitChars_ten_toDigits] at hwhole
      rwa [List.append_nil, List.take_of_length_le hone,
        show (1 - digitCount n : Int) = 0 by omega]
    · have hpoint := IsMantissa.point hne (fun c hc => hdigits c (List.mem_of_mem_take hc))
        (fun c hc => hdigits c (List.mem_of_mem_drop hc) : Digits ((Nat.toDigits 10 n).drop 1))
      rwa [List.take_append_drop, Nat.ofDigitChars_ten_toDigits, List.length_drop, hlength,
        show (-(digitCount n - 1 : Nat) : Int) = 1 - digitCount n by omega] at hpoint
  refine ⟨_, .exponent hmantissa (isExponent_padded width e), ?_⟩
  rw [value, leadingAt]
  dsimp only
  congr 2
  omega

/-- What a layout writes for a positive float is the text of a float that is read as this one. -/
theorem isFloat_writePositive (layout : Layout) {bits : Nat} (hbits : bits ≠ 0)
    (hle : bits ≤ infinityPattern) :
    ∃ d, IsFloat (layout.writePositive bits) d ∧ d.pattern = bits := by
  have hshortest := pattern_shortest layout.tie (pattern_exact hbits hle)
  unfold Layout.writePositive
  generalize shortest layout.tie bits = short at hshortest ⊢
  have hvalue : leadingAt short.digits (short.exponent + (Nat.toDigits 10 short.digits).length - 1)
      = short.value := by
    rw [leadingAt, value]
    congr 2
    change short.exponent + (digitCount short.digits : Int) - 1 + 1 - _ = _
    omega
  rw [← hshortest]
  dsimp only
  -- Either notation may write other digits than the shortest ones, but of the same value.
  split
  · obtain ⟨d, hd, hplain⟩ := isFloat_plain short.digits _
    exact ⟨d, hd, pattern_congr (hplain.trans hvalue)⟩
  · obtain ⟨d, hd, hscientific⟩ := isFloat_scientific layout.exponentWidth short.digits _
    exact ⟨d, hd, pattern_congr (hscientific.trans hvalue)⟩

end Stencil.Decimal
