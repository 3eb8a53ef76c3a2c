import Stencil.Expr.Eval
import Stencil.Proofs.Results

/-!
# Integers are exact

An expression of integers, truth values, signs and arithmetic operators denotes an integer, computed
without any bound: `Denotes` says which, and `Applies` what each operator yields. A division, or a
power with a negative exponent, denotes none.

The evaluator works on 64 bits, so it may have to refuse such an expression, and it goes over to
floats where an integer is no answer. Main statement: `eval_integer_exact`, that an integer it does
return is the one denoted, and that none of its parts was a float.
-/

namespace Stencil.Expr

/-! ## What expressions denote -/

/-- The integer that a value stands for: a truth value counts as zero or one. -/
def integer? : Value → Option Int
  | .int n => some n.toInt
  | .bool b => some (if b then 1 else 0)
  | .float _ | .str _ | .undefined => none

/-- What is left of `x` by a multiple of `y`, between zero and `y`: it has the sign of `y`. -/
structure IsRemainder (x y r : Int) : Prop where
  multiple : ∃ q, x = q * y + r
  between : (0 ≤ r ∧ r < y) ∨ (y < r ∧ r ≤ 0)

/-- The integer that an operator yields of two integers. -/
inductive Applies : Operator → Int → Int → Int → Prop
  | add (x y : Int) : Applies .add x y (x + y)
  | sub (x y : Int) : Applies .sub x y (x - y)
  | mul (x y : Int) : Applies .mul x y (x * y)
  | mod {x y r : Int} (h : IsRemainder x y r) : Applies .mod x y r
  | pow (x : Int) (n : Nat) : Applies .pow x n (x ^ n)

section

variable (context : Option Context)

/-- The integer that an expression denotes. -/
inductive Denotes : Expr → Int → Prop
  | literal {value : Value} {n : Int} (h : integer? value = some n) : Denotes (.literal value) n
  | name {word : String} {n : Int} (h : integer? (valueOf context word) = some n) :
    Denotes (.name word) n
  | plus {operand : Expr} {n : Int} (h : Denotes operand n) : Denotes (.signed .plus operand) n
  | minus {operand : Expr} {n : Int} (h : Denotes operand n) :
    Denotes (.signed .minus operand) (-n)
  | binary {left right : Expr} {op : Operator} {x y r : Int} (hleft : Denotes left x)
    (hright : Denotes right y) (hop : Applies op x y r) : Denotes (.binary left op right) r

/-- The expressions of integers: their leaves stand for integers, and they compare nothing. -/
inductive Integral : Expr → Prop
  | literal {value : Value} (h : (integer? value).isSome) : Integral (.literal value)
  | name {word : String} (h : (integer? (valueOf context word)).isSome) : Integral (.name word)
  | signed (s : Sign) {operand : Expr} (h : Integral operand) : Integral (.signed s operand)
  | binary {left right : Expr} (op : Operator) (hleft : Integral left)
    (hright : Integral right) : Integral (.binary left op right)

end

/-- The expressions that an expression is made of, itself among them. -/
inductive Part : Expr → Expr → Prop
  | whole (e : Expr) : Part e e
  | operand {part operand : Expr} (s : Sign) (h : Part part operand) :
    Part part (.signed s operand)
  | left {part left : Expr} (op : Operator) (right : Expr) (h : Part part left) :
    Part part (.binary left op right)
  | right {part right : Expr} (left : Expr) (op : Operator) (h : Part part right) :
    Part part (.binary left op right)
  | first {part first : Expr} (links : List (Comparison × Expr)) (h : Part part first) :
    Part part (.chain first links)
  | link {part operand : Expr} {op : Comparison} (first : Expr)
    {links : List (Comparison × Expr)} (hlink : (op, operand) ∈ links)
    (h : Part part operand) : Part part (.chain first links)

variable {context : Option Context}

/-! ## An expression denotes one integer -/

/-- Two numbers between zero and `y` that differ by a multiple of `y` are equal. -/
theorem IsRemainder.unique {x y r r' : Int} (h : IsRemainder x y r) (h' : IsRemainder x y r') :
    r = r' := by
  obtain ⟨⟨q, hq⟩, hr⟩ := h
  obtain ⟨⟨q', hq'⟩, hr'⟩ := h'
  have hdiff : (q - q') * y = r' - r := by
    rw [Int.sub_mul]
    omega
  have hlt : (r' - r).natAbs < y.natAbs := by omega
  have hmul : (q - q').natAbs * y.natAbs = (r' - r).natAbs := by
    rw [← Int.natAbs_mul, hdiff]
  rcases Nat.eq_zero_or_pos (q - q').natAbs with hzero | hpos
  · rw [hzero, Nat.zero_mul] at hmul
    omega
  · have hle : 1 * y.natAbs ≤ (q - q').natAbs * y.natAbs := Nat.mul_le_mul_right _ hpos
    omega

/-- An operation on integers has one result at most. -/
theorem Applies.unique {op : Operator} {x y r r' : Int} (h : Applies op x y r)
    (h' : Applies op x y r') : r = r' := by
  rcases h with _ | _ | _ | h | ⟨x, n⟩
  · cases h'
    rfl
  · cases h'
    rfl
  · cases h'
    rfl
  · cases h' with
    | mod h' => exact h.unique h'
  · generalize hn : (n : Int) = y at h'
    cases h' with
    | pow x m =>
      have hnm : n = m := by omega
      rw [hnm]

/-- An expression denotes one integer at most. -/
theorem Denotes.unique {e : Expr} {m n : Int} (hm : Denotes context e m)
    (hn : Denotes context e n) : m = n := by
  induction hm generalizing n with
  | literal h =>
    cases hn with
    | literal h' => exact Option.some.inj (h.symm.trans h')
  | name h =>
    cases hn with
    | name h' => exact Option.some.inj (h.symm.trans h')
  | plus h ih =>
    cases hn with
    | plus h' => exact ih h'
  | minus h ih =>
    cases hn with
    | minus h' => rw [ih h']
  | binary hleft hright hop ihleft ihright =>
    cases hn with
    | binary hleft' hright' hop' =>
      rw [← ihleft hleft', ← ihright hright'] at hop'
      exact hop.unique hop'

/-! ## Arithmetic on 64 bits -/

/-- The remainder by `Int.fmod` has the sign of the divisor. -/
theorem isRemainder_fmod (x : Int) {y : Int} (hy : y ≠ 0) : IsRemainder x y (x.fmod y) := by
  refine ⟨⟨x.fdiv y, ?_⟩, ?_⟩
  · rw [Int.mul_comm]
    exact (Int.mul_fdiv_add_fmod x y).symm
  · rcases Int.lt_or_gt_of_ne hy with hneg | hpos
    · -- with both signs changed the divisor is positive
      have hflip : x.fmod y = -(-x).fmod (-y) := by rw [Int.neg_fmod_neg, Int.neg_neg]
      have hnonneg := Int.fmod_nonneg_of_pos (-x) (b := -y) (by omega)
      have hlt := Int.fmod_lt_of_pos (-x) (b := -y) (by omega)
      omega
    · exact .inl ⟨Int.fmod_nonneg_of_pos x hpos, Int.fmod_lt_of_pos x hpos⟩

/-- A power of zero, one or minus one, by the parity of the exponent. -/
theorem pow_of_natAbs_le_one {x : Int} (hx : x.natAbs ≤ 1) {n : Nat} (hn : n ≠ 0) :
    x ^ n = if n % 2 = 1 then x else x * x := by
  have hcases : x = 0 ∨ x = 1 ∨ x = -1 := by omega
  rcases hcases with rfl | rfl | rfl
  · simp [Int.zero_pow hn]
  · rw [Int.one_pow, Int.one_mul, ite_self]
  · split
    · rename_i hodd
      obtain ⟨k, rfl⟩ : ∃ k, n = 2 * k + 1 := ⟨n / 2, by omega⟩
      rw [Int.pow_succ, Int.pow_mul]
      simp only [Int.reducePow, Int.one_pow, Int.one_mul]
    · rename_i heven
      obtain ⟨k, rfl⟩ : ∃ k, n = 2 * k := ⟨n / 2, by omega⟩
      rw [Int.pow_mul]
      simp only [Int.reducePow, Int.one_pow, Int.reduceMul]

/-- A power that fits is the exact one, also where it is not computed as a power. -/
theorem toInt_of_intPow? {x r : Int64} {n : Nat} (h : intPow? x n = some r) :
    r.toInt = x.toInt ^ n := by
  unfold intPow? at h
  by_cases hlarge : maxExponent < n
  · simp [hlarge] at h
  by_cases hsmall : x.toInt.natAbs ≤ 1
  · by_cases hzero : n = 0
    · simp [hsmall, hzero] at h
      simp [← h, hzero]
    · rw [pow_of_natAbs_le_one hsmall hzero]
      by_cases hodd : n % 2 = 1
      · simp [hlarge, hsmall, hzero, hodd] at h
        simp [← h, hodd]
      · simp only [hlarge, hsmall, hzero, hodd, if_true, if_false, Option.some.injEq] at h
        rw [if_neg hodd, ← h, Int64.toInt_mul]
        have hcases : x.toInt = 0 ∨ x.toInt = 1 ∨ x.toInt = -1 := by omega
        rcases hcases with hx | hx | hx <;> simp [hx, Int.bmod]
  · by_cases hlong : 64 ≤ n
    · simp [hlarge, hsmall, hlong] at h
    · simp only [hlarge, hsmall, hlong, if_false] at h
      exact Value.toInt_of_int64? h

/-! ## Results that are floats or exact -/

/-- A value is a float, or else an integer of which `exact` holds. -/
def FloatOr (exact : Int → Prop) (value : Value) : Prop :=
  (∃ x, value = .float x) ∨ ∃ n, value = .int n ∧ exact n.toInt

theorem FloatOr.mono {p q : Int → Prop} {value : Value} (h : FloatOr p value)
    (hpq : ∀ n, p n → q n) : FloatOr q value := by
  rcases h with hfloat | ⟨n, hn, hp⟩
  · exact .inl hfloat
  · exact .inr ⟨n, hn, hpq _ hp⟩

/-- A result computed with floats is a float. -/
theorem floatOr_of_float {p : Int → Prop} {found : Except Error Float} {value : Value}
    (h : (do return Value.float (← found)) = .ok value) : FloatOr p value := by
  obtain ⟨x, -, hx⟩ := bind_eq_ok.1 h
  exact .inl ⟨x, (Except.ok.inj hx).symm⟩

/-- A result that had to fit is an integer. -/
theorem floatOr_of_exactly {p : Int → Prop} {op : Operator} {found : Option Int64} {value : Value}
    (h : exactly op found = .ok value) (hp : ∀ n, found = some n → p n.toInt) :
    FloatOr p value := by
  cases found with
  | none => cases h
  | some n => exact .inr ⟨n, (Except.ok.inj h).symm, hp n rfl⟩

/-- An operator on two integers returns the exact integer or a float. -/
theorem floatOr_of_intArithmetic {op : Operator} {x y : Int64} {value : Value}
    (h : intArithmetic op x y = .ok value) : FloatOr (Applies op x.toInt y.toInt) value := by
  cases op with
  | add =>
    refine floatOr_of_exactly h fun n hn => ?_
    rw [Value.toInt_of_int64? hn]
    exact .add ..
  | sub =>
    refine floatOr_of_exactly h fun n hn => ?_
    rw [Value.toInt_of_int64? hn]
    exact .sub ..
  | mul =>
    refine floatOr_of_exactly h fun n hn => ?_
    rw [Value.toInt_of_int64? hn]
    exact .mul ..
  | div => exact floatOr_of_float h
  | mod =>
    by_cases hy : y = 0
    · simp [intArithmetic, hy] at h
    · simp only [intArithmetic, hy, if_false] at h
      refine floatOr_of_exactly h fun n hn => ?_
      have hne : y.toInt ≠ 0 := fun hzero => hy (Int64.toInt_inj.1 hzero)
      unfold intMod? at hn
      split at hn
      · cases hn
      · rw [Value.toInt_of_int64? hn]
        exact .mod (isRemainder_fmod _ hne)
  | pow =>
    by_cases hy : 0 ≤ y
    · -- A power with a negative exponent is a float, any other one is exact or fails.
      simp only [intArithmetic, hy, if_true] at h
      refine floatOr_of_exactly h fun n hn => ?_
      have hnat : ((y.toInt.toNat : Nat) : Int) = y.toInt :=
        Int.toNat_of_nonneg (Int64.le_iff_toInt_le.1 hy)
      have happlies := Applies.pow x.toInt y.toInt.toNat
      rw [hnat] at happlies
      rwa [toInt_of_intPow? hn]
    · simp only [intArithmetic, hy, if_false] at h
      split at h
      · cases h
      · exact floatOr_of_float h

/-! ## Values that are numbers -/

/-- A value that stands for an integer is taken for it. -/
theorem integer?_of_ofValue? {value : Value} {n : Int64}
    (h : Number.ofValue? value = some (.int n)) : integer? value = some n.toInt := by
  cases value with
  | int m =>
    cases h
    rfl
  | bool b =>
    cases b <;>
      · cases h
        rfl
  | float x => cases h
  | str s => cases h
  | undefined => cases h

/-- A value that is taken for an integer stands for it. -/
theorem ofValue?_of_integer? {value : Value} {n : Int} (h : integer? value = some n) :
    ∃ m : Int64, Number.ofValue? value = some (.int m) ∧ m.toInt = n := by
  cases value with
  | int m =>
    cases h
    exact ⟨m, rfl, rfl⟩
  | bool b =>
    cases b <;>
      · cases h
        exact ⟨_, rfl, rfl⟩
  | float x => cases h
  | str s => cases h
  | undefined => cases h

/-- An operator on numbers returns the exact integer of two integers, or a float. -/
theorem floatOr_of_arithmetic {op : Operator} {left right value : Value} {a b : Number}
    (hleft : Number.ofValue? left = some a) (hright : Number.ofValue? right = some b)
    (h : arithmetic op left right = .ok value) :
    FloatOr (fun n => ∃ x y, integer? left = some x ∧ integer? right = some y ∧ Applies op x y n)
      value := by
  have hnumbers : arithmetic op left right = numberArithmetic op a b := by
    cases left <;> cases right <;> cases op <;> simp_all [arithmetic, Number.ofValue?]
  rw [hnumbers] at h
  cases a with
  | float x => exact floatOr_of_float h
  | int x =>
    cases b with
    | float y => exact floatOr_of_float h
    | int y =>
      refine (floatOr_of_intArithmetic h).mono fun n hn => ⟨x.toInt, y.toInt, ?_, ?_, hn⟩
      · exact integer?_of_ofValue? hleft
      · exact integer?_of_ofValue? hright

/-- A sign in front of a number returns the exact integer, or a float. -/
theorem floatOr_of_sign {s : Sign} {operand value : Value} (h : sign s operand = .ok value) :
    FloatOr (fun n => ∃ x, integer? operand = some x ∧ n = if s = .plus then x else -x) value := by
  unfold sign at h
  cases hoperand : Number.ofValue? operand with
  | none => cases s <;> simp [hoperand] at h
  | some a =>
    cases a with
    | float x => cases s <;> simp [hoperand] at h <;> exact .inl ⟨_, h.symm⟩
    | int x =>
      have hx := integer?_of_ofValue? hoperand
      cases s with
      | plus =>
        simp only [hoperand, Except.ok.injEq] at h
        exact .inr ⟨x, h.symm, x.toInt, hx, rfl⟩
      | minus =>
        simp only [hoperand] at h
        cases hneg : Value.int64? (-x.toInt) with
        | none => simp [hneg] at h
        | some m =>
          simp only [hneg, Except.ok.injEq] at h
          exact .inr ⟨m, h.symm, x.toInt, hx, Value.toInt_of_int64? hneg⟩

/-! ## Evaluating expressions of integers -/

/-- What the value of an expression of integers can be. -/
inductive Stands (context : Option Context) (e : Expr) : Value → Prop
  | float (x : Float) : Stands context e (.float x)
  /-- The value stands for the integer that the expression denotes. -/
  | integer {value : Value} {n : Int} (hvalue : integer? value = some n)
    (hdenotes : Denotes context e n) : Stands context e value

namespace Stands

variable {e : Expr} {value : Value}

/-- An integral expression comes to a number. -/
theorem exists_number (h : Stands context e value) : ∃ a, Number.ofValue? value = some a := by
  rcases h with x | ⟨hvalue, -⟩
  · exact ⟨.float x, rfl⟩
  · obtain ⟨m, hm, -⟩ := ofValue?_of_integer? hvalue
    exact ⟨.int m, hm⟩

/-- If it comes to an integer, then to the one it denotes. -/
theorem denotes (h : Stands context e value) {n : Int} (hn : integer? value = some n) :
    Denotes context e n := by
  rcases h with x | ⟨hvalue, hdenotes⟩
  · cases hn
  · exact Option.some.inj (hn.symm.trans hvalue) ▸ hdenotes

end Stands

/-- A sign is applied to what its operand comes to, exactly unless it is a float. -/
theorem exists_operand_of_eval {s : Sign} {operand : Expr} {value : Value}
    (h : eval context (.signed s operand) = .ok value) :
    ∃ w, eval context operand = .ok w ∧
      FloatOr (fun n => ∃ x, integer? w = some x ∧ n = if s = .plus then x else -x) value := by
  rw [eval] at h
  obtain ⟨w, hw, hsign⟩ := bind_eq_ok.1 h
  exact ⟨w, hw, floatOr_of_sign hsign⟩

/-- An operator is applied to what its operands come to. -/
theorem exists_operands_of_eval {left right : Expr} {op : Operator} {value : Value}
    (h : eval context (.binary left op right) = .ok value) :
    ∃ a b, eval context left = .ok a ∧ eval context right = .ok b ∧
      arithmetic op a b = .ok value := by
  rw [eval] at h
  obtain ⟨a, ha, h⟩ := bind_eq_ok.1 h
  obtain ⟨b, hb, h⟩ := bind_eq_ok.1 h
  exact ⟨a, b, ha, hb, h⟩

/-- Evaluating an expression of integers returns a float or the integer that it denotes. -/
theorem stands_of_eval {e : Expr} (he : Integral context e) {value : Value}
    (h : eval context e = .ok value) : Stands context e value := by
  induction he generalizing value with
  | literal hleaf =>
    obtain ⟨n, hn⟩ := Option.isSome_iff_exists.1 hleaf
    rw [eval, Except.ok.injEq] at h
    exact .integer (h ▸ hn) (.literal hn)
  | name hleaf =>
    obtain ⟨n, hn⟩ := Option.isSome_iff_exists.1 hleaf
    rw [eval, Except.ok.injEq] at h
    exact .integer (h ▸ hn) (.name hn)
  | signed s hoperand ih =>
    obtain ⟨w, hw, ⟨x, rfl⟩ | ⟨n, rfl, x, hx, hn⟩⟩ := exists_operand_of_eval h
    · exact .float x
    · have hdenotes := (ih hw).denotes hx
      refine .integer rfl ?_
      rw [hn]
      cases s with
      | plus => exact .plus hdenotes
      | minus => exact .minus hdenotes
  | binary op hleft hright ihleft ihright =>
    obtain ⟨a, b, ha, hb, hop⟩ := exists_operands_of_eval h
    -- Both operands are numbers; only two integers can come to an integer.
    obtain ⟨m, hm⟩ := (ihleft ha).exists_number
    obtain ⟨n, hn⟩ := (ihright hb).exists_number
    obtain ⟨x, rfl⟩ | ⟨r, rfl, x, y, hx, hy, happlies⟩ := floatOr_of_arithmetic hm hn hop
    · exact .float x
    · exact .integer rfl (.binary ((ihleft ha).denotes hx) ((ihright hb).denotes hy) happlies)

/-- An expression has a value that stands for the integer that it denotes. -/
def Exact (context : Option Context) (e : Expr) : Prop :=
  ∃ value n, eval context e = .ok value ∧ integer? value = some n ∧ Denotes context e n

/-- An expression of integers with a value that stands for an integer is exact. -/
theorem exact_of_eval {e : Expr} (he : Integral context e) {value : Value} {n : Int}
    (h : eval context e = .ok value) (hn : integer? value = some n) : Exact context e :=
  ⟨value, n, h, hn, (stands_of_eval he h).denotes hn⟩

/-- The operand of an exact expression with a sign is exact. -/
theorem Exact.operand {s : Sign} {operand : Expr} (hoperand : Integral context operand)
    (h : Exact context (.signed s operand)) : Exact context operand := by
  obtain ⟨value, n, hvalue, hn, -⟩ := h
  obtain ⟨w, hw, ⟨x, rfl⟩ | ⟨-, -, x, hx, -⟩⟩ := exists_operand_of_eval hvalue
  · cases hn
  · exact exact_of_eval hoperand hw hx

/-- The operands of an exact integer are no floats, since a float never becomes an integer. -/
theorem Exact.operands {left right : Expr} {op : Operator} (hleft : Integral context left)
    (hright : Integral context right) (h : Exact context (.binary left op right)) :
    Exact context left ∧ Exact context right := by
  obtain ⟨value, n, hvalue, hn, -⟩ := h
  obtain ⟨a, b, ha, hb, hop⟩ := exists_operands_of_eval hvalue
  obtain ⟨a', ha'⟩ := (stands_of_eval hleft ha).exists_number
  obtain ⟨b', hb'⟩ := (stands_of_eval hright hb).exists_number
  obtain ⟨x, rfl⟩ | ⟨-, -, x, y, hx, hy, -⟩ := floatOr_of_arithmetic ha' hb' hop
  · cases hn
  · exact ⟨exact_of_eval hleft ha hx, exact_of_eval hright hb hy⟩

/-- Every part of an exact expression is exact. -/
theorem Exact.part {e part : Expr} (he : Integral context e) (hpart : Part part e)
    (h : Exact context e) : Exact context part := by
  induction hpart with
  | whole => exact h
  | operand _ _ ih =>
    cases he with
    | signed _ hoperand => exact ih hoperand (h.operand hoperand)
  | left _ _ _ ih =>
    cases he with
    | binary _ hleft hright => exact ih hleft (h.operands hleft hright).1
  | right _ _ _ ih =>
    cases he with
    | binary _ hleft hright => exact ih hright (h.operands hleft hright).2
  | first => cases he
  | link => cases he

/-- The parts of an integral expression are integral. -/
theorem Integral.part {e part : Expr} (he : Integral context e) (hpart : Part part e) :
    Integral context part := by
  induction hpart with
  | whole => exact he
  | operand _ _ ih =>
    cases he with
    | signed _ hoperand => exact ih hoperand
  | left _ _ _ ih =>
    cases he with
    | binary _ hleft _ => exact ih hleft
  | right _ _ _ ih =>
    cases he with
    | binary _ _ hright => exact ih hright
  | first => cases he
  | link => cases he

/-- An integer that an expression of integers, or a part of it, evaluates to is the one that it
denotes. Where the whole evaluates to an integer, so does every part. -/
theorem eval_integer_exact {e : Expr} (he : Integral context e) :
    (∀ part, Part part e → ∀ n, eval context part = .ok (.int n) →
      ∀ m, Denotes context part m ↔ m = n.toInt) ∧
    ∀ n, eval context e = .ok (.int n) → ∀ part, Part part e → Exact context part := by
  constructor
  · intro part hpart n hn m
    have hdenotes : Denotes context part n.toInt :=
      (stands_of_eval (he.part hpart) hn).denotes rfl
    constructor
    · intro hm
      exact hm.unique hdenotes
    · rintro rfl
      exact hdenotes
  · intro n hn part hpart
    exact (exact_of_eval he hn rfl).part he hpart

/-- Minus a power, modulo a negative number, with a truth value among the operands. -/
theorem eval_mod_exact :
    let e : Expr := .binary (.signed .minus (.binary (.literal (.int 2)) .pow
      (.literal (.int 62)))) .mod (.binary (.literal (.bool true)) .sub (.literal (.int 8)))
    Integral none e ∧ eval none e = .ok (.int (-4)) ∧ (∀ m, Denotes none e m ↔ m = -4) ∧
      ∀ part, Part part e → Exact none part := by
  intro e
  have he : Integral none e := by
    refine .binary _ (.signed _ (.binary _ ?_ ?_)) (.binary _ ?_ ?_)
    all_goals exact .literal rfl
  have hvalue : eval none e = .ok (.int (-4)) := rfl
  exact ⟨he, hvalue, (eval_integer_exact he).1 e (.whole e) _ hvalue,
    (eval_integer_exact he).2 _ hvalue⟩

end Stencil.Expr
