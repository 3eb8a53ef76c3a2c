import Stencil.Expr.Eval
import Stencil.Failure
import Stencil.Markup.Node

/-!
# Rendering

Rendering a template fills a page: named regions of text, one of them the root, and perhaps the
reference of a parent. A node writes to the region it is rendered into. What a `region` node does
depends on the scene:

* Where no child has supplied regions, its body goes to the region of its name.
* Where a child has supplied that region, its text goes where the node stands and the body is
  skipped.
* Where a child has supplied other regions only, the body goes to the region of its name, to be
  offered to a further parent, and nothing where the node stands.

A failure keeps what was written before it, so a page can be rendered into again.

Main definitions: `Node.render` renders a node into a region of a page, and `interpret` a whole
template.
-/

namespace Stencil

/-- Rendered text by name of region. -/
abbrev Regions := Table String

/-- The name of the region that holds the document itself. -/
def rootName : String := "root"

/-- The text of the document; it is empty if nothing was rendered. -/
def Regions.root (regions : Regions) : String := (regions.get? rootName).getD ""

/-- A page that is being filled. -/
structure Page where
  regions : Regions := ∅
  /-- The parent that the template refers to. -/
  parent : Option String := none
  deriving DecidableEq

namespace Page

/-- The page with a region of that name, empty if it is new. -/
def ensure (page : Page) (name : String) : Page :=
  { page with regions := page.regions.insert name ((page.regions.get? name).getD "") }

/-- The page with some text added to a region. -/
def append (page : Page) (name text : String) : Page :=
  { page with regions := page.regions.insert name ((page.regions.get? name).getD "" ++ text) }

end Page

/-- What a template is rendered with. -/
structure Scene where
  /-- The variables, if there is a context. -/
  context : Option Context
  /-- The regions that a child has filled, if the template is the parent of one. -/
  supplied : Option Regions

/-- How rendering ended: the page as it then stood, and the failure if it failed. -/
structure Outcome where
  page : Page
  failure : Option Failure := none
  deriving DecidableEq

/-- Goes on with the page of an outcome unless it failed. -/
def Outcome.andThen (outcome : Outcome) (next : Page → Outcome) : Outcome :=
  match outcome.failure with
  | none => next outcome.page
  | some _ => outcome

/-- The value of an expression that is given by its words. -/
def Scene.evaluate (scene : Scene) (words : List String) : Except Failure Value :=
  (Expr.evaluate (" ".intercalate words) scene.context).mapError .expr

/-- Notes the parent of a template; a second one has to be the same. -/
def Page.adopt (page : Page) (reference : String) : Outcome :=
  match page.parent with
  | none => ⟨{ page with parent := some reference }, none⟩
  | some first =>
    if first = reference then ⟨page, none⟩
    else ⟨page, some (.lineage (.multipleParents first reference))⟩

namespace Markup

mutual

/-- Renders a node into the region `key`. -/
def Node.render (scene : Scene) (key : String) : Node → Page → Outcome
  | .template children, page => renderAll scene key children (page.ensure key)
  | .content text, page => ⟨page.append key text, none⟩
  | .output words, page =>
    match scene.evaluate words with
    | .ok value => ⟨page.append key value.text, none⟩
    | .error failure => ⟨page.ensure key, some failure⟩
  | .parent reference, page => (page.ensure key).adopt reference
  | .conditional condition body otherwise, page =>
    match scene.evaluate condition with
    | .ok value =>
      if value.truthy then renderAll scene key body (page.ensure key)
      else renderOption scene key otherwise (page.ensure key)
    | .error failure => ⟨page.ensure key, some failure⟩
  | .alternative body, page => renderAll scene key body (page.ensure key)
  | .region name body, page =>
    let page := (page.ensure key).ensure name
    match scene.supplied with
    | none => renderAll scene name body page
    | some regions =>
      match regions.get? name with
      | some text => ⟨page.append key text, none⟩
      | none => if name = key then ⟨page, none⟩ else renderAll scene name body page

/-- Renders nodes one after the other into the region `key`. -/
def renderAll (scene : Scene) (key : String) : List Node → Page → Outcome
  | [], page => ⟨page, none⟩
  | node :: nodes, page => (node.render scene key page).andThen (renderAll scene key nodes)

/-- Renders a node if there is one. -/
def renderOption (scene : Scene) (key : String) : Option Node → Page → Outcome
  | none, page => ⟨page, none⟩
  | some node, page => node.render scene key page

end

end Markup

/-- The page of a whole template. -/
def interpret (node : Markup.Node) (scene : Scene) : Except Failure Page :=
  match node.render scene rootName {} with
  | ⟨page, none⟩ => .ok page
  | ⟨_, some failure⟩ => .error failure

end Stencil
