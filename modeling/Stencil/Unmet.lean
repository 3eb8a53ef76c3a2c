/-!
# What has not been met

A search that looks at things out of a finite list, and at none of them twice, comes to an end:
`length_unmet_lt` states that meeting something new leaves fewer.
-/

namespace Stencil

variable {α : Type} [DecidableEq α]

/-- The members of `all` that are not in `met`. -/
def unmet (all met : List α) : List α := all.filter (· ∉ met)

/-- Meeting something new leaves fewer unmet. -/
theorem length_unmet_lt {all met met' : List α} {a : α} (ha : a ∈ all) (hnew : a ∉ met)
    (hsub : met ⊆ met') (hmet : a ∈ met') :
    (unmet all met').length < (unmet all met).length := by
  have : unmet all met' = (unmet all met).filter (· ∉ met') := by
    simp only [unmet, List.filter_filter]
    refine List.filter_congr fun b _ => ?_
    have := @hsub b
    grind
  rw [this, List.length_filter_lt_length_iff_exists]
  exact ⟨a, by simp [unmet, ha, hnew], by simp [hmet]⟩

end Stencil
