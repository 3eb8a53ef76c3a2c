import Mathlib.Data.List.Forall2
import Stencil.Expr.Eval
import Stencil.Proofs.Results

/-!
# Chains of comparisons

A chain such as `1 <= n < 10` is the conjunction of the comparisons of neighbours. It is evaluated
step by step and in full: its first operand, then for each further operand that operand and its
comparison with the one before it (`steps`). A step that fails ends the evaluation; a comparison
that does not hold does not.

Main statement: `eval_chain_conjunction`, that a chain without a failing step comes to whether all
its comparisons hold, and that any other chain fails as its first failing step does.
-/

namespace Stencil.Expr

/-! ## Steps -/

/-- Neighbours in a chain and what they are compared by. -/
structure Pair where
  left : Expr
  op : Comparison
  right : Expr

/-- The comparison of two neighbours alone. -/
def Pair.alone (pair : Pair) : Expr := .chain pair.left [(pair.op, pair.right)]

/-- The neighbours in a chain, from left to right. -/
def pairs (first : Expr) : List (Comparison × Expr) → List Pair
  | [] => []
  | (op, operand) :: links => ⟨first, op, operand⟩ :: pairs operand links

/-- A step in the evaluation of a chain. -/
inductive Step where
  | operand (e : Expr)
  | compare (pair : Pair)

/-- The steps for one neighbour after the other: the right one's value and then the comparison. -/
def stepsOf (pairs : List Pair) : List Step :=
  pairs.flatMap fun pair => [.operand pair.right, .compare pair]

/-- The steps in the evaluation of a chain. -/
def steps (first : Expr) (links : List (Comparison × Expr)) : List Step :=
  .operand first :: stepsOf (pairs first links)

section

variable (context : Option Context)

/-- Two neighbours have values, and whether the comparison of these holds. -/
def Pair.Gives (pair : Pair) (holds : Bool) : Prop :=
  ∃ a b, eval context pair.left = .ok a ∧ eval context pair.right = .ok b ∧
    compareValues pair.op a b = .ok holds

/-- A step fails by itself: an operand has no value, or the values of two neighbours are not
comparable. -/
inductive Step.Fails : Step → Error → Prop
  | operand {e : Expr} {error : Error} (h : eval context e = .error error) :
    Fails (.operand e) error
  | compare {pair : Pair} {a b : Value} {error : Error} (hleft : eval context pair.left = .ok a)
    (hright : eval context pair.right = .ok b) (h : compareValues pair.op a b = .error error) :
    Fails (.compare pair) error

/-- A step does not fail. -/
def Step.Passes (step : Step) : Prop := ∀ error, ¬ step.Fails context error

end

variable {context : Option Context}

/-! ## One step -/

/-- An operand that passes has a value. -/
theorem Step.Passes.exists_value {e : Expr} (h : (Step.operand e).Passes context) :
    ∃ a, eval context e = .ok a := by
  cases hvalue : eval context e with
  | error error => exact absurd (.operand hvalue) (h error)
  | ok a => exact ⟨a, rfl⟩

/-- A comparison that passes holds or does not. -/
theorem Step.Passes.exists_holds {pair : Pair} {a b : Value}
    (h : (Step.compare pair).Passes context) (hleft : eval context pair.left = .ok a)
    (hright : eval context pair.right = .ok b) :
    ∃ holds, compareValues pair.op a b = .ok holds := by
  cases hcompare : compareValues pair.op a b with
  | error error => exact absurd (.compare hleft hright hcompare) (h error)
  | ok holds => exact ⟨holds, rfl⟩

/-- An operand with a value does not fail, and neither does a comparison with a result. -/
theorem passes_operand {e : Expr} {a : Value} (h : eval context e = .ok a) :
    (Step.operand e).Passes context := by
  rintro error ⟨herror⟩
  cases h.symm.trans herror

/-- A comparison with a result passes. -/
theorem passes_compare {pair : Pair} {holds : Bool} (h : pair.Gives context holds) :
    (Step.compare pair).Passes context := by
  obtain ⟨a, b, hleft, hright, hholds⟩ := h
  intro error hfails
  cases hfails with
  | compare hleft' hright' herror =>
    cases hleft.symm.trans hleft'
    cases hright.symm.trans hright'
    cases hholds.symm.trans herror

/-- A first link that gives a result leaves the result to the others as far as it holds. -/
theorem evalLinks_cons {op : Comparison} {operand : Expr} {links : List (Comparison × Expr)}
    {a b : Value} {holds : Bool} (hvalue : eval context operand = .ok b)
    (hcompare : compareValues op a b = .ok holds) :
    evalLinks context a ((op, operand) :: links)
      = (evalLinks context b links).map (holds && ·) := by
  rw [evalLinks, hvalue, ok_bind, hcompare, ok_bind]
  cases evalLinks context b links <;> rfl

/-- Behind its first operand a chain comes to what its comparisons come to. -/
theorem eval_chain {first : Expr} {a : Value} (h : eval context first = .ok a)
    (links : List (Comparison × Expr)) :
    eval context (.chain first links) = (evalLinks context a links).map .bool := by
  rw [eval, h, ok_bind]
  cases evalLinks context a links <;> rfl

/-- The comparison of two neighbours alone has the result of comparing their values. -/
theorem Pair.Gives.eval_alone {pair : Pair} {holds : Bool} (h : pair.Gives context holds) :
    eval context pair.alone = .ok (.bool holds) := by
  obtain ⟨a, b, hleft, hright, hcompare⟩ := h
  have hnone : evalLinks context b [] = .ok true := by rw [evalLinks]
  rw [Pair.alone, eval_chain hleft, evalLinks_cons hright hcompare, hnone]
  cases holds <;> rfl

/-! ## All steps -/

/-- If no step fails, all neighbours are compared, and the links hold if all comparisons do. -/
theorem evalLinks_of_passes {first : Expr} {links : List (Comparison × Expr)} {a : Value}
    (hfirst : eval context first = .ok a)
    (hpasses : ∀ step ∈ stepsOf (pairs first links), step.Passes context) :
    ∃ results, List.Forall₂ (Pair.Gives context) (pairs first links) results ∧
      evalLinks context a links = .ok (results.all id) := by
  induction links generalizing first a with
  | nil => exact ⟨[], .nil, by rw [evalLinks]; rfl⟩
  | cons link links ih =>
    obtain ⟨op, operand⟩ := link
    simp only [pairs, stepsOf, List.flatMap_cons, List.cons_append, List.nil_append,
      List.forall_mem_cons] at hpasses
    obtain ⟨hoperand, hcompare, hlater⟩ := hpasses
    obtain ⟨b, hvalue⟩ := hoperand.exists_value
    obtain ⟨holds, hholds⟩ := hcompare.exists_holds hfirst hvalue
    obtain ⟨results, hresults, hlinks⟩ := ih hvalue hlater
    refine ⟨holds :: results, .cons ⟨a, b, hfirst, hvalue, hholds⟩ hresults, ?_⟩
    rw [evalLinks_cons hvalue hholds, hlinks]
    rfl

/-- Links fail as the first step does that fails, whatever the comparisons before it have come
to. -/
theorem evalLinks_of_fails {first : Expr} {links : List (Comparison × Expr)} {a : Value}
    {earlier later : List Step} {step : Step} {error : Error} (hfirst : eval context first = .ok a)
    (hsteps : stepsOf (pairs first links) = earlier ++ step :: later)
    (hearlier : ∀ step ∈ earlier, step.Passes context) (hfails : step.Fails context error) :
    evalLinks context a links = .error error := by
  induction links generalizing first a earlier with
  | nil => simp [pairs, stepsOf] at hsteps
  | cons link links ih =>
    obtain ⟨op, operand⟩ := link
    change Step.operand operand :: Step.compare ⟨first, op, operand⟩ ::
      stepsOf (pairs operand links) = _ at hsteps
    match earlier with
    | [] =>
      -- the operand of the first link has no value
      cases hsteps
      cases hfails with
      | operand hvalue =>
        rw [evalLinks, hvalue]
        rfl
    | [value] =>
      -- it has one that cannot be compared with `a`
      cases hsteps
      obtain ⟨b, hvalue⟩ := (hearlier _ List.mem_cons_self).exists_value
      cases hfails with
      | compare hleft hright hcompare =>
        cases hfirst.symm.trans hleft
        cases hvalue.symm.trans hright
        rw [evalLinks, hvalue, ok_bind, hcompare]
        rfl
    | value :: comparison :: earlier =>
      -- the step is one of the later links
      simp only [List.cons_append, List.cons.injEq] at hsteps
      obtain ⟨rfl, rfl, hsteps⟩ := hsteps
      simp only [List.forall_mem_cons] at hearlier
      obtain ⟨hoperand, hcompare, hearlier⟩ := hearlier
      obtain ⟨b, hvalue⟩ := hoperand.exists_value
      obtain ⟨holds, hholds⟩ := hcompare.exists_holds hfirst hvalue
      rw [evalLinks_cons hvalue hholds, ih hvalue hsteps hearlier]
      rfl

/-- If no step of a chain fails, then all neighbours have been compared, each as they are compared
alone, and the chain comes to whether all comparisons hold. Otherwise the chain fails as the first
step does that fails, whether or not the comparisons before it hold. -/
theorem eval_chain_conjunction (context : Option Context) (first : Expr)
    (links : List (Comparison × Expr)) :
    ((∀ step ∈ steps first links, step.Passes context) →
      ∃ results : List Bool,
        List.Forall₂ (fun pair holds => pair.Gives context holds ∧
          eval context pair.alone = .ok (.bool holds)) (pairs first links) results ∧
        eval context (.chain first links) = .ok (.bool (results.all id))) ∧
    ∀ (earlier : List Step) (step : Step) (later : List Step) (error : Error),
      steps first links = earlier ++ step :: later →
      (∀ before ∈ earlier, before.Passes context) → step.Fails context error →
      eval context (.chain first links) = .error error := by
  constructor
  · intro hpasses
    obtain ⟨hfirst, hlater⟩ := List.forall_mem_cons.1 hpasses
    obtain ⟨a, hvalue⟩ := hfirst.exists_value
    obtain ⟨results, hresults, hlinks⟩ := evalLinks_of_passes hvalue hlater
    refine ⟨results, hresults.imp fun pair holds h => ⟨h, h.eval_alone⟩, ?_⟩
    rw [eval_chain hvalue, hlinks]
    rfl
  · intro earlier step later error hsteps hearlier hfails
    -- The first step is the operand in front; the others are taken link by link.
    cases earlier with
    | nil =>
      cases hsteps
      cases hfails with
      | operand hvalue =>
        rw [eval, hvalue]
        rfl
    | cons operand earlier =>
      obtain ⟨rfl, hlater⟩ := List.cons.inj hsteps
      obtain ⟨hfirst, hearlier⟩ := List.forall_mem_cons.1 hearlier
      obtain ⟨a, hvalue⟩ := hfirst.exists_value
      rw [eval_chain hvalue, evalLinks_of_fails hvalue hlater hearlier hfails]
      rfl

/-- The chain `1 > 2` comes to what its comparison gives, and `1 > 2 < x` fails where nothing
defines `x`, although `1 > 2` does not hold. -/
theorem eval_chain_conjunction_undefined :
    let one := Expr.literal (.int 1)
    let two := Expr.literal (.int 2)
    let falsehood : Pair := ⟨one, .gt, two⟩
    (∀ step ∈ steps one [(.gt, two)], step.Passes none) ∧
    (∃ results : List Bool,
      List.Forall₂ (fun pair holds => pair.Gives none holds ∧
        eval none pair.alone = .ok (.bool holds)) [falsehood] results ∧
      eval none (.chain one [(.gt, two)]) = .ok (.bool (results.all id))) ∧
    falsehood.Gives none false ∧
    (∀ before ∈ [.operand one, .operand two, .compare falsehood, .operand (.name "x")],
      Step.Passes none before) ∧
    Step.Fails none (.compare ⟨two, .lt, .name "x"⟩) (.typeMismatch "<" "int" "undefined") ∧
    eval none (.chain one [(.gt, two), (.lt, .name "x")])
      = .error (.typeMismatch "<" "int" "undefined") := by
  intro one two falsehood
  have hone : eval none one = .ok (.int 1) := by rw [eval]
  have htwo : eval none two = .ok (.int 2) := by rw [eval]
  have hname : eval none (.name "x") = .ok .undefined := by rw [eval]; rfl
  have hgives : falsehood.Gives none false := ⟨_, _, hone, htwo, rfl⟩
  have hpasses : (∀ step ∈ steps one [(.gt, two)], step.Passes none) := by
    simp only [steps, stepsOf, pairs, List.flatMap_cons, List.flatMap_nil, List.append_nil,
      List.forall_mem_cons]
    exact ⟨passes_operand hone, passes_operand htwo, passes_compare hgives, by simp⟩
  have hearlier : ∀ before ∈ [.operand one, .operand two, .compare falsehood,
      .operand (.name "x")], Step.Passes none before := by
    simp only [List.forall_mem_cons]
    exact ⟨passes_operand hone, passes_operand htwo, passes_compare hgives,
      passes_operand hname, by simp⟩
  have hfails : Step.Fails none (.compare ⟨two, .lt, .name "x"⟩)
      (.typeMismatch "<" "int" "undefined") := .compare htwo hname rfl
  exact ⟨hpasses, (eval_chain_conjunction none _ _).1 hpasses, hgives, hearlier, hfails,
    (eval_chain_conjunction none _ _).2 _ _ [] _ rfl hearlier hfails⟩

end Stencil.Expr
