import Stencil.Proofs.Writes

/-!
# Branches that are not taken

Of a conditional, rendering looks at the condition and at the branch that it chooses. What stands in
the other branch is not evaluated, refers to no parent and makes no region: whatever it is, the
conditional writes the same (`writes_of_truthy`, `writes_of_not_truthy`), and so does a template
around it (`Around.writes_put`).

Main statement: `interpret_untaken`.
-/

namespace Stencil

namespace Markup

/-! ## A place in a tree -/

/-- A tree with one place left open, anywhere in it. -/
inductive Around where
  /-- Nothing around the place. -/
  | here
  | template (before : List Node) (inner : Around) (behind : List Node)
  /-- The place is in the body of a conditional. -/
  | inBody (condition : List String) (before : List Node) (inner : Around) (behind : List Node)
    (other : Option Node)
  /-- The place is in the other branch of a conditional. -/
  | inOther (condition : List String) (body : List Node) (inner : Around)
  | alternative (before : List Node) (inner : Around) (behind : List Node)
  | region (name : String) (before : List Node) (inner : Around) (behind : List Node)

/-- The tree with a node in the place left open. -/
def Around.put : Around → Node → Node
  | here, node => node
  | template before inner behind, node => .template (before ++ inner.put node :: behind)
  | inBody condition before inner behind other, node =>
    .conditional condition (before ++ inner.put node :: behind) other
  | inOther condition body inner, node => .conditional condition body (some (inner.put node))
  | alternative before inner behind, node => .alternative (before ++ inner.put node :: behind)
  | region name before inner behind, node => .region name (before ++ inner.put node :: behind)

variable {context : Option Context} {names : Option (List String)}

/-- What nodes write does not change with one of them that writes the same. -/
theorem writesAll_congr {key : String} {node node' : Node}
    (h : node.writes context names key = node'.writes context names key)
    (before behind : List Node) :
    writesAll context names key (before ++ node :: behind)
      = writesAll context names key (before ++ node' :: behind) := by
  rw [writesAll_append, writesAll_append, writesAll, writesAll, h]

/-- Nodes that write the same into every region can stand for each other anywhere. -/
theorem Around.writes_put {node node' : Node}
    (h : ∀ key, node.writes context names key = node'.writes context names key)
    (around : Around) (key : String) :
    (around.put node).writes context names key = (around.put node').writes context names key := by
  induction around generalizing key with
  | here => exact h key
  | template before inner behind ih =>
    simp only [put, Node.writes, writesAll_congr (ih key) before behind]
  | inBody condition before inner behind other ih =>
    simp only [put, Node.writes, writesAll_congr (ih key) before behind]
  | inOther condition body inner ih =>
    simp only [put, Node.writes, writesOption, ih key]
  | alternative before inner behind ih =>
    simp only [put, Node.writes, writesAll_congr (ih key) before behind]
  | region name before inner behind ih =>
    -- the body of a region is written into the region, not into the one around it
    simp only [put, Node.writes, writesAll_congr (ih name) before behind]

/-! ## The branch that is taken -/

variable {condition : List String} {value : Value}

/-- Where its condition counts as true, a conditional writes what its body does. -/
theorem writes_of_truthy (hvalue : Scene.evaluate ⟨context, none⟩ condition = .ok value)
    (htruthy : value.truthy = true) (body : List Node) (otherwise : Option Node) (key : String) :
    (Node.conditional condition body otherwise).writes context names key
      = .ensure key :: writesAll context names key body := by
  simp only [Node.writes, hvalue, htruthy, if_true]

/-- Where its condition does not count as true, a conditional writes what its other branch does. -/
theorem writes_of_not_truthy (hvalue : Scene.evaluate ⟨context, none⟩ condition = .ok value)
    (htruthy : value.truthy = false) (body : List Node) (otherwise : Option Node) (key : String) :
    (Node.conditional condition body otherwise).writes context names key
      = .ensure key :: writesOption context names key otherwise := by
  simp [Node.writes, hvalue, htruthy]

end Markup

/-- The branch of a conditional that is not taken has no influence on a template, wherever in it the
conditional stands. If the condition counts as true, another branch for when it does not, or none,
leaves everything as it is: the regions and their texts, the parent, or the failure. If the
condition does not count as true, so does any other body. -/
theorem interpret_untaken (around : Markup.Around) (scene : Scene) {condition : List String}
    {value : Value} (hvalue : scene.evaluate condition = .ok value) :
    (value.truthy = true → ∀ (body : List Markup.Node) (otherwise otherwise' : Option Markup.Node),
      interpret (around.put (.conditional condition body otherwise)) scene
        = interpret (around.put (.conditional condition body otherwise')) scene) ∧
    (value.truthy = false → ∀ (body body' : List Markup.Node) (otherwise : Option Markup.Node),
      interpret (around.put (.conditional condition body otherwise)) scene
        = interpret (around.put (.conditional condition body' otherwise)) scene) := by
  rw [scene.evaluate_eq] at hvalue
  constructor
  · intro htruthy body otherwise otherwise'
    refine interpret_congr (around.writes_put (fun key => ?_) rootName) rfl
    rw [Markup.writes_of_truthy hvalue htruthy, Markup.writes_of_truthy hvalue htruthy]
  · intro htruthy body body' otherwise
    refine interpret_congr (around.writes_put (fun key => ?_) rootName) rfl
    rw [Markup.writes_of_not_truthy hvalue htruthy, Markup.writes_of_not_truthy hvalue htruthy]

/-- In the body of a region, behind a text: a division by zero in the branch that is not taken, and
a second parent there. -/
theorem interpret_untaken_in_region :
    (Scene.evaluate ⟨none, none⟩ ["True"] = .ok (.bool true) ∧ (Value.bool true).truthy = true ∧
      interpret (.template [.content "a", .region "r" [.conditional ["True"] [.content "b"]
          (some (.output ["1", "/", "0"]))]]) ⟨none, none⟩
        = interpret (.template [.content "a", .region "r" [.conditional ["True"] [.content "b"]
            none]]) ⟨none, none⟩) ∧
    (Scene.evaluate ⟨none, none⟩ ["False"] = .ok (.bool false) ∧
      (Value.bool false).truthy = false ∧
      interpret (.template [.parent "p", .region "r" [.conditional ["False"] [.parent "q"]
          none]]) ⟨none, none⟩
        = interpret (.template [.parent "p", .region "r" [.conditional ["False"] []
            none]]) ⟨none, none⟩) := by
  have htrue : Scene.evaluate ⟨none, none⟩ ["True"] = .ok (.bool true) := by with_unfolding_all rfl
  have hfalse : Scene.evaluate ⟨none, none⟩ ["False"] = .ok (.bool false) := by
    with_unfolding_all rfl
  let behindText : Markup.Around := .template [.content "a"] (.region "r" [] .here []) []
  let behindParent : Markup.Around := .template [.parent "p"] (.region "r" [] .here []) []
  refine ⟨⟨htrue, rfl, ?_⟩, hfalse, rfl, ?_⟩
  · exact (interpret_untaken behindText ⟨none, none⟩ htrue).1 rfl _ _ _
  · exact (interpret_untaken behindParent ⟨none, none⟩ hfalse).2 rfl _ _ _

end Stencil
