import Mathlib.Data.String.Basic
import Stencil.Expr.Eval
import Stencil.Proofs.Floats

/-!
# The comparisons agree

Equality and order are computed apart from each other: `equal` takes any two values, `order?` only
two texts or two numbers. Where both have an answer, they come from one ordering (`Compared`): that
of two texts (`compared_texts`), or that of two numbers (`compared_numbers`), which are compared as
integers or as floats. The other way round it is the opposite ordering
(`Comparable.exists_compared`).

Main statement: `comparisons_agree`, that the four comparisons which order fail together and in
either direction, and that all six are read off one of three cases where they do not fail.
-/

namespace Stencil

/-! ## Orderings of the parts -/

namespace Decimal

/-- The order of two floats that are numbers is that of their places. -/
theorem floatOrder?_eq {x y : Float} (hx : ¬ x.isNaN) (hy : ¬ y.isNaN) :
    Expr.floatOrder? x y = some (compare (rank x) (rank y)) := by
  rw [Expr.floatOrder?]
  rcases lt_trichotomy (rank x) (rank y) with h | h | h
  · rw [if_pos ((lt_iff_rank hx hy).2 h), compare_lt_iff_lt.2 h]
  · rw [if_neg (by rw [lt_iff_rank hx hy]; omega), if_neg (by rw [lt_iff_rank hy hx]; omega),
      if_pos ((beq_iff_rank hx hy).2 h), compare_eq_iff_eq.2 h]
  · rw [if_neg (by rw [lt_iff_rank hx hy]; omega), if_pos ((lt_iff_rank hy hx).2 h),
      compare_gt_iff_gt.2 h]

/-- Equality of floats is read off their ranks. -/
theorem beq_eq {x y : Float} (hx : ¬ x.isNaN) (hy : ¬ y.isNaN) :
    (x == y) = (compare (rank x) (rank y) == .eq) := by
  rw [Bool.eq_iff_iff, beq_iff_rank hx hy, beq_iff_eq, compare_eq_iff_eq]

end Decimal

namespace Expr

theorem textOrder_eq (a b : String) : textOrder a b = compare a b := cmp_eq_compare a b

theorem intOrder_eq (m n : Int64) : intOrder m n = compare m.toInt n.toInt := by
  simp only [intOrder, Int64.lt_iff_toInt_lt]
  exact cmp_eq_compare m.toInt n.toInt

/-! ## The ordering of two values -/

/-- A float that is not a number. -/
def IsNaN : Value → Prop
  | .float x => x.isNaN
  | .bool _ | .int _ | .str _ | .undefined => False

/-- The ordering of two numbers: two integers by their values, and others by the floats nearest to
them. -/
def numberOrder : Number → Number → Ordering
  | .int m, .int n => compare m.toInt n.toInt
  | a, b => compare (Decimal.rank a.toFloat) (Decimal.rank b.toFloat)

/-- Two numbers compare the other way round when they change places. -/
theorem numberOrder_swap (a b : Number) : (numberOrder a b).swap = numberOrder b a := by
  cases a <;> cases b <;> exact Int.compare_swap _ _

/-- One ordering gives both the equality of two values and their order. -/
structure Compared (left right : Value) (o : Ordering) : Prop where
  order : order? left right = some (some o)
  equal : equal left right = (o == .eq)

/-- Two texts are compared by one ordering. -/
theorem compared_texts (a b : String) : Compared (.str a) (.str b) (compare a b) where
  order := by rw [order?, textOrder_eq]
  equal := by rw [Expr.equal, Bool.eq_iff_iff, beq_iff_eq, beq_iff_eq, compare_eq_iff_eq]

/-- A value that compares as a number: a truth value, an integer, or a float that is a number. -/
structure StandsFor (v : Value) (a : Number) : Prop where
  number : Number.ofValue? v = some a
  notNaN : ¬ IsNaN v

/-- The float nearest to a number is a number. -/
theorem StandsFor.not_isNaN {v : Value} {a : Number} (h : StandsFor v a) : ¬ a.toFloat.isNaN := by
  obtain ⟨ha, hnan⟩ := h
  cases v with
  | float x => cases ha; exact hnan
  | bool b => cases ha; exact Decimal.not_isNaN_ofInt _
  | int n => cases ha; exact Decimal.not_isNaN_ofInt _
  | str s => cases ha
  | undefined => cases ha

/-- Two numbers are compared as integers if both are, and as floats otherwise. -/
theorem order?_of_numbers {left right : Value} {a b : Number} (ha : Number.ofValue? left = some a)
    (hb : Number.ofValue? right = some b) :
    (∃ m n, a = .int m ∧ b = .int n ∧ order? left right = some (some (intOrder m n)) ∧
        equal left right = (m == n)) ∨
      numberOrder a b = compare (Decimal.rank a.toFloat) (Decimal.rank b.toFloat) ∧
        order? left right = some (floatOrder? a.toFloat b.toFloat) ∧
        equal left right = (a.toFloat == b.toFloat) := by
  cases left <;> cases ha <;> cases right <;> cases hb <;>
    first
      | exact .inl ⟨_, _, rfl, rfl, rfl, rfl⟩
      | exact .inr ⟨rfl, rfl, rfl⟩

/-- Two values that stand for numbers are compared by the ordering of these. -/
theorem compared_numbers {left right : Value} {a b : Number} (ha : StandsFor left a)
    (hb : StandsFor right b) : Compared left right (numberOrder a b) := by
  have hx := ha.not_isNaN
  have hy := hb.not_isNaN
  obtain ⟨m, n, rfl, rfl, horder, hequal⟩ | ⟨hnumber, horder, hequal⟩ :=
    order?_of_numbers ha.number hb.number
  · refine ⟨by rw [horder, intOrder_eq, numberOrder], ?_⟩
    rw [hequal, Bool.eq_iff_iff, beq_iff_eq, beq_iff_eq, numberOrder, compare_eq_iff_eq,
      Int64.toInt_inj]
  · exact ⟨by rw [horder, Decimal.floatOrder?_eq hx hy, hnumber],
      by rw [hequal, Decimal.beq_eq hx hy, hnumber]⟩

/-- Two values that have an order: two texts or two numbers. -/
inductive Comparable : Value → Value → Prop
  | texts (a b : String) : Comparable (.str a) (.str b)
  | numbers {left right : Value} {a b : Number} (ha : Number.ofValue? left = some a)
    (hb : Number.ofValue? right = some b) : Comparable left right

theorem Comparable.symm {left right : Value} (h : Comparable left right) :
    Comparable right left := by
  cases h with
  | texts a b => exact .texts b a
  | numbers ha hb => exact .numbers hb ha

/-- Two values have no order exactly if they are not two texts or two numbers. -/
theorem order?_eq_none_iff (left right : Value) :
    order? left right = none ↔ ¬ Comparable left right := by
  constructor
  · rintro hnone (⟨a, b⟩ | ⟨ha, hb⟩)
    · cases hnone
    · obtain ⟨m, n, -, -, horder, -⟩ | ⟨-, horder, -⟩ := order?_of_numbers ha hb <;>
        cases hnone.symm.trans horder
  · intro hnot
    cases left <;> cases right <;>
      first
        | rfl
        | exact (hnot (.texts _ _)).elim
        | exact (hnot (.numbers rfl rfl)).elim

/-- Two values that have an order and are not without one as floats have one either way round. -/
theorem Comparable.exists_compared {left right : Value} (h : Comparable left right)
    (hleft : ¬ IsNaN left) (hright : ¬ IsNaN right) :
    ∃ o, Compared left right o ∧ Compared right left o.swap := by
  cases h with
  | texts a b =>
    refine ⟨compare a b, compared_texts a b, ?_⟩
    rw [← Std.OrientedOrd.eq_swap]
    exact compared_texts b a
  | @numbers _ _ a b ha hb =>
    refine ⟨numberOrder a b, compared_numbers ⟨ha, hleft⟩ ⟨hb, hright⟩, ?_⟩
    rw [numberOrder_swap]
    exact compared_numbers ⟨hb, hright⟩ ⟨ha, hleft⟩

/-! ## The six comparisons -/

/-- The comparisons that ask for an order. -/
def Comparison.Orders : Comparison → Prop
  | .lt | .le | .gt | .ge => True
  | .eq | .ne => False

/-- A comparison of two values has no result. -/
def Fails (op : Comparison) (left right : Value) : Prop :=
  ∃ e, compareValues op left right = .error e

/-- What the six comparisons of two values come to, told by which of less, same and more it is. -/
structure Agree (left right : Value) (less same more : Bool) : Prop where
  lt : compareValues .lt left right = .ok less
  eq : compareValues .eq left right = .ok same
  gt : compareValues .gt left right = .ok more
  le : compareValues .le left right = .ok (less || same)
  ge : compareValues .ge left right = .ok (more || same)
  ne : compareValues .ne left right = .ok (!same)
  swapped : compareValues .gt right left = .ok less
  one : [less, same, more].count true = 1

/-- Only an order is refused, and only of values that have none. -/
theorem compareValues_eq_error_iff {op : Comparison} {left right : Value} {e : Error} :
    compareValues op left right = .error e ↔
      op.Orders ∧ ¬ Comparable left right ∧ e = mismatch op.symbol left right := by
  rw [← order?_eq_none_iff]
  -- Equality is told of any two values.
  cases op with
  | eq | ne => simp [compareValues, Comparison.Orders]
  | lt | le | gt | ge =>
    rw [compareValues]
    rcases order? left right with - | - | o <;> simp [Comparison.Orders, eq_comm]

/-- An ordering of two values fails exactly if they have none. -/
theorem fails_iff {op : Comparison} (hop : op.Orders) (left right : Value) :
    Fails op left right ↔ ¬ Comparable left right := by
  simp [Fails, compareValues_eq_error_iff, hop]

/-- Each comparison of two values is read off the one ordering. -/
theorem Compared.compareValues_eq {left right : Value} {o : Ordering} (h : Compared left right o)
    (op : Comparison) : compareValues op left right = .ok (op.admits o) := by
  cases op <;> simp only [compareValues, h.order, h.equal, Comparison.admits, bne]

/-- The six comparisons agree with the one ordering. -/
theorem Compared.agree {left right : Value} {o : Ordering} (h : Compared left right o)
    (hswap : Compared right left o.swap) :
    Agree left right (o == .lt) (o == .eq) (o == .gt) where
  lt := h.compareValues_eq .lt
  eq := h.compareValues_eq .eq
  gt := h.compareValues_eq .gt
  le := by rw [h.compareValues_eq]; cases o <;> rfl
  ge := by rw [h.compareValues_eq]; cases o <;> rfl
  ne := h.compareValues_eq .ne
  swapped := by rw [hswap.compareValues_eq]; cases o <;> rfl
  one := by cases o <;> rfl

/-- The four comparisons that order fail together, in either direction, and as a mismatch of
kinds. Where they do not fail and no operand is a float that is not a number, exactly one of less,
same and more is the case, and every comparison says what follows from that. -/
theorem comparisons_agree (left right : Value) :
    (∀ op op', op.Orders → op'.Orders →
        (Fails op left right ↔ Fails op' left right) ∧
          (Fails op left right ↔ Fails op' right left)) ∧
      (∀ op e, op.Orders → compareValues op left right = .error e →
        e = .typeMismatch op.symbol left.kind right.kind) ∧
      ∀ op, op.Orders → ¬ Fails op left right → ¬ IsNaN left → ¬ IsNaN right →
        ∃ less same more, Agree left right less same more := by
  refine ⟨fun op op' hop hop' => ⟨?_, ?_⟩, fun op e _ herror => ?_,
    fun op hop hnot hleft hright => ?_⟩
  · rw [fails_iff hop, fails_iff hop']
  · rw [fails_iff hop, fails_iff hop']
    -- Having an order does not depend on which of the two values stands left.
    exact not_congr ⟨Comparable.symm, Comparable.symm⟩
  · exact (compareValues_eq_error_iff.1 herror).2.2
  · rw [fails_iff hop, not_not] at hnot
    obtain ⟨o, h, hswap⟩ := hnot.exists_compared hleft hright
    exact ⟨_, _, _, h.agree hswap⟩

/-- A text has no order with an integer, and a truth value has one with a float. -/
theorem comparisons_agree_across_kinds :
    (compareValues .le (.str "1") (.int 1) = .error (mismatch "<=" (.str "1") (.int 1)) ∧
        mismatch "<=" (.str "1") (.int 1) = .typeMismatch "<=" "str" "int" ∧
        (Fails .le (.str "1") (.int 1) ↔ Fails .gt (.int 1) (.str "1"))) ∧
      ¬ Fails .lt (.bool true) (.float (Decimal.ofInt 2)) ∧
      ∃ less same more, Agree (.bool true) (.float (Decimal.ofInt 2)) less same more :=
  have hfails : compareValues .le (.str "1") (.int 1)
      = .error (mismatch "<=" (.str "1") (.int 1)) := rfl
  have hnot : ¬ Fails .lt (.bool true) (.float (Decimal.ofInt 2)) := by
    rw [fails_iff (show Comparison.lt.Orders from trivial), not_not]
    exact .numbers rfl rfl
  have htexts := comparisons_agree (.str "1") (.int 1)
  have hnumbers := comparisons_agree (.bool true) (.float (Decimal.ofInt 2))
  ⟨⟨hfails, htexts.2.1 .le _ trivial hfails, (htexts.1 .le .gt trivial trivial).2⟩, hnot,
    hnumbers.2.2 .lt trivial hnot id (Decimal.not_isNaN_ofInt 2)⟩

end Expr

end Stencil
