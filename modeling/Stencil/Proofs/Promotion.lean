import Stencil.Proofs.Comparing
import Stencil.Proofs.Exactness
import Stencil.Proofs.Nearest

/-!
# Comparing across kinds

Two integers are compared exactly, and an integer and a float by the float nearest to the integer.
A greater integer has no lesser float nearest to it (`rank_ofInt_mono`), so the comparisons of
numbers are a total preorder and an equivalence but for one arrangement: a float between two
different integers that is nearest to both (`Merged`). Such a float is equal to either of them, and
there is none unless one of the integers takes more than 53 bits (`rank_ofInt_injOn`).

Main statement: `comparison_transitive_iff`, that the comparisons of numbers are transitive exactly
where no float merges two integers.
-/

namespace Stencil

/-! ## The floats nearest to integers -/

namespace Decimal

/-- The bits of the float nearest to a natural number. -/
def wholePattern (k : Nat) : Nat := if k = 0 then 0 else nearestPattern k 1

theorem wholePattern_le (k : Nat) : wholePattern k ≤ infinityPattern := by
  unfold wholePattern
  split
  · exact Nat.zero_le _
  · exact nearestPattern_le _ _

/-- An integer is rounded to the float of its sign nearest to its size. -/
theorem rank_ofInt (n : Int) :
    rank (ofInt n) = rankOf (decide (n < 0)) (wholePattern n.natAbs) := by
  have hpattern : (if n = 0 then 0 else nearestPattern n.natAbs 1) = wholePattern n.natAbs := by
    simp only [wholePattern, Int.natAbs_eq_zero]
  rw [ofInt, hpattern, rank_ofPattern _ (wholePattern_le _)]

/-- A greater number is not rounded to less. -/
theorem wholePattern_mono {k l : Nat} (h : k ≤ l) : wholePattern k ≤ wholePattern l := by
  unfold wholePattern
  split
  · exact Nat.zero_le _
  · rw [if_neg (by omega)]
    refine nearestPattern_mono (by omega) one_pos (by omega) one_pos ?_
    gcongr

/-- Up to 53 bits, no two natural numbers have the same nearest float. -/
theorem wholePattern_injOn {k l : Nat} (hk : k ≤ 2 ^ 53) (hl : l ≤ 2 ^ 53)
    (h : wholePattern k = wholePattern l) : k = l := by
  have hvalue {j : Nat} (hj : j ≤ 2 ^ 53) : valueOf (wholePattern j) = j := by
    unfold wholePattern
    split
    · rename_i hzero
      simp [hzero, valueOf, Magnitude.value, Magnitude.ofPattern]
    · exact (valueOf_nearestPattern (by omega) hj).2
  have heq : (k : ℚ) = l := by rw [← hvalue hk, ← hvalue hl, h]
  exact_mod_cast heq

/-- The rank that an integer without a sign is rounded to. -/
theorem rank_ofInt_of_nonneg {n : Int} (h : 0 ≤ n) : rank (ofInt n) = wholePattern n.natAbs := by
  simp [rank_ofInt, rankOf, not_lt.2 h]

/-- The rank that an integer with a sign is rounded to. -/
theorem rank_ofInt_of_neg {n : Int} (h : n < 0) : rank (ofInt n) = -wholePattern n.natAbs := by
  simp [rank_ofInt, rankOf, h]

/-- A greater integer has no lesser float nearest to it. -/
theorem rank_ofInt_mono {m n : Int} (h : m ≤ n) : rank (ofInt m) ≤ rank (ofInt n) := by
  rcases lt_or_ge m 0 with hm | hm
  · rw [rank_ofInt_of_neg hm]
    rcases lt_or_ge n 0 with hn | hn
    · rw [rank_ofInt_of_neg hn]
      have := wholePattern_mono (show n.natAbs ≤ m.natAbs by omega)
      omega
    · rw [rank_ofInt_of_nonneg hn]
      omega
  · rw [rank_ofInt_of_nonneg hm, rank_ofInt_of_nonneg (hm.trans h)]
    have := wholePattern_mono (show m.natAbs ≤ n.natAbs by omega)
    omega

/-- Up to 53 bits, no two integers have the same nearest float. -/
theorem rank_ofInt_injOn {m n : Int} (hm : m.natAbs ≤ 2 ^ 53) (hn : n.natAbs ≤ 2 ^ 53)
    (h : rank (ofInt m) = rank (ofInt n)) : m = n := by
  wlog hle : m ≤ n generalizing m n
  · exact (this hn hm h.symm (by omega)).symm
  rcases lt_or_ge m 0 with hmneg | hmpos
  · rw [rank_ofInt_of_neg hmneg] at h
    rcases lt_or_ge n 0 with hnneg | hnpos
    · rw [rank_ofInt_of_neg hnneg] at h
      have := wholePattern_injOn hm hn (by omega)
      omega
    · -- Numbers on both sides of zero have no float in common but zero.
      rw [rank_ofInt_of_nonneg hnpos] at h
      have hzero : wholePattern m.natAbs = wholePattern 0 := by
        have : wholePattern 0 = 0 := rfl
        omega
      have := wholePattern_injOn hm (Nat.zero_le _) hzero
      omega
  · rw [rank_ofInt_of_nonneg hmpos, rank_ofInt_of_nonneg (hmpos.trans hle)] at h
    have := wholePattern_injOn hm hn (by omega)
    omega

end Decimal

/-! ## Comparisons of numbers -/

namespace Expr

/-- A comparison of two values comes to true. -/
def IsTrue (op : Comparison) (left right : Value) : Prop := compareValues op left right = .ok true

/-- The values that compare as numbers: truth values, integers, and floats that are numbers. -/
def IsNumber (v : Value) : Prop := ∃ a, StandsFor v a

/-- A float that is nearest to two integers at once. -/
def Merged (a b c : Value) (m n : Int) : Prop :=
  integer? a = some m ∧ integer? c = some n ∧
    ∃ x, b = .float x ∧ (Decimal.ofInt m == x) = true ∧ (Decimal.ofInt n == x) = true

/-- The place of a number among the floats. -/
def place (a : Number) : Int := Decimal.rank a.toFloat

/-- Two integers compare exactly, and all other numbers by their places. -/
theorem numberOrder_eq (a b : Number) :
    (∃ m n, a = .int m ∧ b = .int n ∧ numberOrder a b = compare m.toInt n.toInt) ∨
      numberOrder a b = compare (place a) (place b) := by
  cases a with
  | int m =>
    cases b with
    | int n => exact .inl ⟨m, n, rfl, rfl, rfl⟩
    | float y => exact .inr rfl
  | float x => exact .inr rfl

/-- A number that is at most another one is not beyond it among the floats. -/
theorem place_le {a b : Number} (h : numberOrder a b ≠ .gt) : place a ≤ place b := by
  obtain ⟨m, n, rfl, rfl, horder⟩ | horder := numberOrder_eq a b
  · rw [horder, ne_eq, compare_gt_iff_gt, not_lt] at h
    exact Decimal.rank_ofInt_mono h
  · rwa [horder, ne_eq, compare_gt_iff_gt, not_lt] at h

/-- Numbers that are equal are at one place among the floats. -/
theorem place_eq {a b : Number} (h : numberOrder a b = .eq) : place a = place b := by
  have hswap : numberOrder b a = .eq := by rw [← numberOrder_swap, h, Ordering.swap]
  exact le_antisymm (place_le (by simp [h])) (place_le (by simp [hswap]))

theorem numberOrder_self (a : Number) : numberOrder a a = .eq := by
  obtain ⟨m, n, rfl, hn, horder⟩ | horder := numberOrder_eq a a
  · cases hn
    rw [horder, compare_eq_iff_eq]
  · rw [horder, compare_eq_iff_eq]

/-- A float between two integers, all three at one place among the floats. -/
inductive Merging : Number → Number → Number → Int → Int → Prop
  | intro {m n : Int64} {x : Float} (hm : place (.int m) = place (.float x))
    (hn : place (.int n) = place (.float x)) :
    Merging (.int m) (.float x) (.int n) m.toInt n.toInt

/-- A number is between two others, and these are ordered the other way round, only if it merges
them. -/
theorem numberOrder_gt_iff {a b c : Number} (hab : numberOrder a b ≠ .gt)
    (hbc : numberOrder b c ≠ .gt) :
    numberOrder a c = .gt ↔ ∃ m n, Merging a b c m n ∧ n < m := by
  have hplace := place_le hab
  have hplace' := place_le hbc
  constructor
  · intro hac
    obtain ⟨m, n, rfl, rfl, horder⟩ | horder := numberOrder_eq a c
    · rw [horder, compare_gt_iff_gt] at hac
      -- Three integers are compared exactly, so it is a float that is between them.
      cases b with
      | int k =>
        simp only [numberOrder, ne_eq, compare_gt_iff_gt, not_lt] at hab hbc
        omega
      | float x =>
        have hmono : place (.int n) ≤ place (.int m) := Decimal.rank_ofInt_mono hac.le
        exact ⟨_, _, .intro (by omega) (by omega), hac⟩
    · rw [horder, compare_gt_iff_gt] at hac
      omega
  · rintro ⟨_, _, ⟨-, -⟩, hlt⟩
    simpa only [numberOrder, compare_gt_iff_gt] using hlt

/-- A number is equal to two others, and these differ, only if it merges them. -/
theorem numberOrder_ne_iff {a b c : Number} (hab : numberOrder a b = .eq)
    (hbc : numberOrder b c = .eq) :
    numberOrder a c ≠ .eq ↔ ∃ m n, Merging a b c m n ∧ m ≠ n := by
  have hplace := place_eq hab
  have hplace' := place_eq hbc
  constructor
  · intro hac
    obtain ⟨m, n, rfl, rfl, horder⟩ | horder := numberOrder_eq a c
    · rw [horder, ne_eq, compare_eq_iff_eq] at hac
      cases b with
      | int k =>
        simp only [numberOrder, compare_eq_iff_eq] at hab hbc
        omega
      | float x => exact ⟨_, _, .intro hplace hplace'.symm, hac⟩
    · rw [horder, ne_eq, compare_eq_iff_eq] at hac
      omega
  · rintro ⟨_, _, ⟨-, -⟩, hne⟩
    simpa only [numberOrder, ne_eq, compare_eq_iff_eq] using hne

/-! ## Comparisons of values that are numbers -/

/-- A value is an integer if what it stands for is. -/
theorem integer?_eq_some_iff {v : Value} {a : Number} (ha : Number.ofValue? v = some a) (k : Int) :
    integer? v = some k ↔ ∃ m, a = .int m ∧ m.toInt = k := by
  cases v with
  | bool b => cases ha; cases b <;> simp [integer?]
  | int n => cases ha; simp [integer?]
  | float x => cases ha; simp [integer?]
  | str s => cases ha
  | undefined => cases ha

section

variable {left right : Value} {a b : Number} (ha : StandsFor left a) (hb : StandsFor right b)

include ha hb

/-- One value is at most another exactly if their numbers do not stand the other way round. -/
theorem isTrue_le_iff : IsTrue .le left right ↔ numberOrder a b ≠ .gt := by
  rw [IsTrue, (compared_numbers ha hb).compareValues_eq]
  simp [Comparison.admits]

/-- Two values are equal exactly if their numbers are. -/
theorem isTrue_eq_iff : IsTrue .eq left right ↔ numberOrder a b = .eq := by
  rw [IsTrue, (compared_numbers ha hb).compareValues_eq]
  simp [Comparison.admits]

end

/-- An integer is equal to a float that is a number if it is at its place. -/
theorem ofInt_beq_iff {x : Float} (hx : ¬ x.isNaN) (n : Int) :
    (Decimal.ofInt n == x) = true ↔ Decimal.rank (Decimal.ofInt n) = Decimal.rank x :=
  Decimal.beq_iff_rank (Decimal.not_isNaN_ofInt n) hx

/-- Values are merged exactly if the numbers they stand for are. -/
theorem merged_iff {a b c : Value} {p q r : Number} (ha : StandsFor a p) (hb : StandsFor b q)
    (hc : StandsFor c r) (k l : Int) : Merged a b c k l ↔ Merging p q r k l := by
  rw [Merged, integer?_eq_some_iff ha.number, integer?_eq_some_iff hc.number]
  obtain ⟨hnumber, hnan⟩ := hb
  constructor
  · rintro ⟨⟨m, rfl, rfl⟩, ⟨n, rfl, rfl⟩, x, rfl, hm, hn⟩
    cases hnumber
    exact .intro ((ofInt_beq_iff hnan _).1 hm) ((ofInt_beq_iff hnan _).1 hn)
  · rintro ⟨hm, hn⟩
    cases b with
    | float x =>
      cases hnumber
      exact ⟨⟨_, rfl, rfl⟩, ⟨_, rfl, rfl⟩, _, rfl, (ofInt_beq_iff hnan _).2 hm,
        (ofInt_beq_iff hnan _).2 hn⟩
    | bool _ => cases hnumber
    | int _ => cases hnumber
    | str _ => cases hnumber
    | undefined => cases hnumber

/-- Of two different integers with a float that is nearest to both, one takes more than 53 bits. -/
theorem Merged.natAbs_lt {a b c : Value} {m n : Int} (h : Merged a b c m n) (hb : IsNumber b)
    (hne : m ≠ n) : 2 ^ 53 < m.natAbs ∨ 2 ^ 53 < n.natAbs := by
  obtain ⟨-, -, x, rfl, hm, hn⟩ := h
  obtain ⟨_, -, hnan⟩ := hb
  rw [ofInt_beq_iff hnan] at hm hn
  by_contra hsmall
  exact hne (Decimal.rank_ofInt_injOn (by omega) (by omega) (hm.trans hn.symm))

/-- The comparisons of numbers are total, reflexive and symmetric, and they are transitive exactly
where the number in the middle is no float that merges two different integers. One of these takes
more than 53 bits. -/
theorem comparison_transitive_iff {a b c : Value} (ha : IsNumber a) (hb : IsNumber b)
    (hc : IsNumber c) :
    (IsTrue .eq a a ∧ (IsTrue .eq a b → IsTrue .eq b a) ∧ (IsTrue .le a b ∨ IsTrue .le b a)) ∧
      (IsTrue .le a b → IsTrue .le b c →
        (¬ IsTrue .le a c ↔ ∃ m n, Merged a b c m n ∧ n < m)) ∧
      (IsTrue .eq a b → IsTrue .eq b c →
        (¬ IsTrue .eq a c ↔ ∃ m n, Merged a b c m n ∧ m ≠ n)) ∧
      ∀ m n, Merged a b c m n → m ≠ n → 2 ^ 53 < m.natAbs ∨ 2 ^ 53 < n.natAbs := by
  have hbnumber := hb
  obtain ⟨p, ha⟩ := ha
  obtain ⟨q, hb⟩ := hb
  obtain ⟨r, hc⟩ := hc
  have hmerged := merged_iff ha hb hc
  rw [isTrue_eq_iff ha ha, isTrue_eq_iff ha hb, isTrue_eq_iff hb ha, isTrue_eq_iff hb hc,
    isTrue_eq_iff ha hc, isTrue_le_iff ha hb, isTrue_le_iff hb ha, isTrue_le_iff hb hc,
    isTrue_le_iff ha hc]
  refine ⟨⟨numberOrder_self p, fun hab => ?_, ?_⟩, fun hab hbc => ?_, fun hab hbc => ?_,
    fun m n h hne => h.natAbs_lt hbnumber hne⟩
  · rw [← numberOrder_swap, hab, Ordering.swap]
  · rw [← numberOrder_swap p q]
    cases numberOrder p q <;> simp
  · simp only [hmerged, not_not, numberOrder_gt_iff hab hbc]
  · simp only [hmerged]
    exact numberOrder_ne_iff hab hbc

/-- The float of `2 ^ 53` merges `2 ^ 53 + 1` and `2 ^ 53`. -/
theorem comparison_transitive_iff_of_merged :
    let a : Value := .int 9007199254740993
    let b : Value := .float (Decimal.ofPattern false 0x4340000000000000)
    let c : Value := .int 9007199254740992
    (IsNumber a ∧ IsNumber b ∧ IsNumber c) ∧
      (IsTrue .le a b ∧ IsTrue .le b c ∧
        (¬ IsTrue .le a c ↔ ∃ m n, Merged a b c m n ∧ n < m)) ∧
      (IsTrue .eq a b ∧ IsTrue .eq b c ∧
        (¬ IsTrue .eq a c ↔ ∃ m n, Merged a b c m n ∧ m ≠ n)) ∧
      Merged a b c 9007199254740993 9007199254740992 ∧
        (2 ^ 53 < Int.natAbs 9007199254740993 ∨ 2 ^ 53 < Int.natAbs 9007199254740992) := by
  intro a b c
  have ha : IsNumber a := ⟨_, rfl, id⟩
  have hb : IsNumber b := ⟨_, rfl, Decimal.not_isNaN_ofPattern false (by decide)⟩
  have hc : IsNumber c := ⟨_, rfl, id⟩
  obtain ⟨-, hle, heq, hlarge⟩ := comparison_transitive_iff ha hb hc
  have hab : IsTrue .le a b ∧ IsTrue .eq a b := by
    unfold IsTrue
    decide +kernel
  have hbc : IsTrue .le b c ∧ IsTrue .eq b c := by
    unfold IsTrue
    decide +kernel
  have hmerged : Merged a b c 9007199254740993 9007199254740992 :=
    ⟨by decide, by decide, _, rfl, by decide +kernel, by decide +kernel⟩
  exact ⟨⟨ha, hb, hc⟩, ⟨hab.1, hbc.1, hle hab.1 hbc.1⟩, ⟨hab.2, hbc.2, heq hab.2 hbc.2⟩, hmerged,
    hlarge _ _ hmerged (by decide)⟩

/-- The float of `2 ^ 53` is equal to `2 ^ 53 + 1` and to `2 ^ 53`, and these two differ. -/
theorem comparison_of_merged_integers :
    let m : Value := .int 9007199254740993
    let x : Value := .float (Decimal.ofPattern false 0x4340000000000000)
    let n : Value := .int 9007199254740992
    (IsNumber m ∧ IsNumber x ∧ IsNumber n) ∧
      (IsTrue .le m x ∧ IsTrue .le x n ∧ ¬ IsTrue .le m n) ∧
      IsTrue .eq m x ∧ IsTrue .eq x n ∧ ¬ IsTrue .eq m n := by
  intro m x n
  have hx : ¬ IsNaN x := Decimal.not_isNaN_ofPattern false (by decide)
  refine ⟨⟨⟨_, rfl, id⟩, ⟨_, rfl, hx⟩, _, rfl, id⟩, ?_⟩
  unfold IsTrue
  decide +kernel

end Expr

end Stencil
