import Stencil.Page
import Stencil.Proofs.Results

/-!
# How rendering fails

A rendering fails only where an expression has no value or where a template names two parents
(`failure_of_render`). What is wrong with a source, or with the way from one template to the next,
does not show while a tree is rendered.
-/

namespace Stencil

/-- What a rendering can fail with. -/
inductive Failure.OfRendering : Failure → Prop
  /-- An expression has no value. -/
  | expr (error : Expr.Error) : OfRendering (.expr error)
  /-- The template names two parents. -/
  | parents (first second : String) : OfRendering (.lineage (.multipleParents first second))

/-- An outcome that has not failed, or has failed in a way that a rendering can. -/
def Outcome.Sound (outcome : Outcome) : Prop :=
  ∀ failure, outcome.failure = some failure → failure.OfRendering

theorem Outcome.Sound.ok (page : Page) : Outcome.Sound ⟨page, none⟩ := by
  intro failure h
  cases h

/-- Two sound steps are one. -/
theorem Outcome.Sound.andThen {outcome : Outcome} {next : Page → Outcome} (h : outcome.Sound)
    (hnext : ∀ page, (next page).Sound) : (outcome.andThen next).Sound := by
  unfold Outcome.andThen
  split
  · exact hnext _
  · exact h

/-- An expression that has no value fails as one. -/
theorem Scene.ofRendering_of_evaluate {scene : Scene} {words : List String} {failure : Failure}
    (h : scene.evaluate words = .error failure) : failure.OfRendering := by
  obtain ⟨error, -, rfl⟩ := mapError_eq_error.1 h
  exact .expr error

/-- A second parent that differs from the first is refused as such. -/
theorem Page.sound_adopt (page : Page) (reference : String) : (page.adopt reference).Sound := by
  intro failure h
  unfold Page.adopt at h
  split at h
  · cases h
  · split at h
    · cases h
    · cases h
      exact .parents _ _

namespace Markup

mutual

/-- Rendering a node fails in one of the two ways, if at all. -/
theorem failure_of_render (scene : Scene) (key : String) :
    ∀ (node : Node) (page : Page), (node.render scene key page).Sound
  | .template children, page => by
    rw [Node.render]
    exact failure_of_renderAll scene key children _
  | .content text, page => by
    rw [Node.render]
    exact .ok _
  | .output words, page => by
    rw [Node.render]
    split
    · exact .ok _
    · intro failure h
      cases h
      exact Scene.ofRendering_of_evaluate ‹_›
  | .parent reference, page => by
    rw [Node.render]
    exact Page.sound_adopt _ _
  | .conditional condition body otherwise, page => by
    rw [Node.render]
    split
    · split
      · exact failure_of_renderAll scene key body _
      · exact failure_of_renderOption scene key otherwise _
    · intro failure h
      cases h
      exact Scene.ofRendering_of_evaluate ‹_›
  | .alternative body, page => by
    rw [Node.render]
    exact failure_of_renderAll scene key body _
  | .region name body, page => by
    rw [Node.render]
    split
    · -- A region renders its own body only where nothing is supplied for it.
      exact failure_of_renderAll scene name body _
    · split
      · exact .ok _
      · split
        · exact .ok _
        · exact failure_of_renderAll scene name body _

/-- Rendering several nodes fails only as a rendering can. -/
theorem failure_of_renderAll (scene : Scene) (key : String) :
    ∀ (nodes : List Node) (page : Page), (renderAll scene key nodes page).Sound
  | [], page => by
    rw [renderAll]
    exact .ok _
  | node :: nodes, page => by
    rw [renderAll]
    exact (failure_of_render scene key node page).andThen
      (failure_of_renderAll scene key nodes)

/-- So does rendering a branch that may be missing. -/
theorem failure_of_renderOption (scene : Scene) (key : String) :
    ∀ (node : Option Node) (page : Page), (renderOption scene key node page).Sound
  | none, page => by
    rw [renderOption]
    exact .ok _
  | some node, page => by
    rw [renderOption]
    exact failure_of_render scene key node page

end

end Markup

/-- A template that is not rendered fails in one of the two ways. -/
theorem ofRendering_of_interpret {node : Markup.Node} {scene : Scene} {failure : Failure}
    (h : interpret node scene = .error failure) : failure.OfRendering := by
  unfold interpret at h
  split at h
  · cases h
  · rename_i page found hrender
    cases h
    exact Markup.failure_of_render scene rootName node {} _ (by rw [hrender])

end Stencil
