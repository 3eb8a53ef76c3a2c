import Stencil.Proofs.Strays

/-!
# What rendering keeps

A page can be rendered into again and again, also after a failure, which leaves what was written
before it. Each call only adds: the regions that are there keep their texts, with more behind them
perhaps, and the parent of a page is never replaced (`Page.Grows`). A call writes to its own region
and to those that its node names, and nowhere else.

Main statement: `calls_append`, that every call in a sequence of calls only adds, and that a node
which refers to a second parent makes the call that comes to it (`Reaches`) fail.
-/

namespace Stencil

/-! ## Pages that only grow -/

/-- Nothing that was on a page before is lost afterwards, and nothing is new outside of the regions
`places`. -/
structure Page.Grows (places : List String) (before after : Page) : Prop where
  /-- A region keeps its text, and may have more text behind it. -/
  kept (region text : String) : before.regions.get? region = some text →
    ∃ added, after.regions.get? region = some (text ++ added)
  /-- No other region is made or changed. -/
  elsewhere (region : String) : region ∉ places →
    after.regions.get? region = before.regions.get? region
  /-- The parent stays the same. -/
  parent (reference : String) : before.parent = some reference → after.parent = some reference

namespace Page

variable {places places' : List String} {page before after : Page}

theorem Grows.refl (places : List String) (page : Page) : page.Grows places page where
  kept region text h := ⟨"", by rw [h, String.append_empty]⟩
  elsewhere region h := rfl
  parent reference h := h

/-- A page that grows twice has grown. -/
theorem Grows.trans (h : before.Grows places page) (h' : page.Grows places after) :
    before.Grows places after where
  kept region text hbefore := by
    obtain ⟨added, hpage⟩ := h.kept region text hbefore
    obtain ⟨more, hafter⟩ := h'.kept region _ hpage
    exact ⟨added ++ more, by rw [hafter, String.append_assoc]⟩
  elsewhere region hplaces := (h'.elsewhere region hplaces).trans (h.elsewhere region hplaces)
  parent reference hbefore := h'.parent reference (h.parent reference hbefore)

/-- A page that has grown in some regions has grown in more. -/
theorem Grows.mono (h : before.Grows places after) (hsub : places ⊆ places') :
    before.Grows places' after where
  kept := h.kept
  elsewhere region hplaces := h.elsewhere region fun hmem => hplaces (hsub hmem)
  parent := h.parent

/-- Text that is appended to a region makes the page grow there. -/
theorem grows_append {key : String} (h : key ∈ places) (page : Page) (text : String) :
    page.Grows places (page.append key text) where
  kept region old hold := by
    rw [get?_append, hold]
    split
    · exact ⟨text, rfl⟩
    · exact ⟨"", by simp [joined]⟩
  elsewhere region hplaces := by
    have hne : region ≠ key := fun heq => hplaces (heq ▸ h)
    rw [get?_append, if_neg hne]
    exact Option.merge_none_right
  parent reference hparent := hparent

/-- A region that is made sure to exist makes the page grow there. -/
theorem grows_ensure {key : String} (h : key ∈ places) (page : Page) :
    page.Grows places (page.ensure key) := by
  rw [ensure_eq_append]
  exact grows_append h page ""

/-- A reference to a parent adds nothing to the regions, and never replaces a parent. -/
theorem grows_adopt (page : Page) (reference : String) :
    page.Grows places (page.adopt reference).page := by
  unfold adopt
  split
  · rename_i hnone
    refine ⟨(Grows.refl places page).kept, fun _ _ => rfl, fun first hfirst => ?_⟩
    rw [hnone] at hfirst
    cases hfirst
  · split <;> exact .refl places page

end Page

/-! ## A node -/

section

variable {places : List String}

/-- A page grows in two steps where it grows in each of them. -/
theorem Outcome.grows_andThen {page : Page} {outcome : Outcome} {next : Page → Outcome}
    (h : page.Grows places outcome.page)
    (hnext : ∀ between : Page, between.Grows places (next between).page) :
    page.Grows places (outcome.andThen next).page := by
  unfold Outcome.andThen
  split
  · exact h.trans (hnext _)
  · exact h

namespace Markup

mutual

/-- Rendering a node only adds to a page, in the region that it is rendered into and in those that
it names. -/
theorem grows_render (scene : Scene) : ∀ (node : Node) {key : String} (page : Page),
    key ∈ places → node.regionNames ⊆ places →
    page.Grows places (node.render scene key page).page
  | .template children, key, page, hkey, hnames => by
    rw [Node.render]
    exact (page.grows_ensure hkey).trans (grows_renderAll scene children _ hkey hnames)
  | .content text, key, page, hkey, hnames => by
    rw [Node.render]
    exact page.grows_append hkey text
  | .output words, key, page, hkey, hnames => by
    rw [Node.render]
    split
    · exact page.grows_append hkey _
    · exact page.grows_ensure hkey
  | .parent reference, key, page, hkey, hnames => by
    rw [Node.render]
    exact (page.grows_ensure hkey).trans (Page.grows_adopt _ reference)
  | .conditional condition body otherwise, key, page, hkey, hnames => by
    rw [Node.regionNames, List.append_subset] at hnames
    rw [Node.render]
    split
    · split
      · exact (page.grows_ensure hkey).trans (grows_renderAll scene body _ hkey hnames.1)
      · exact (page.grows_ensure hkey).trans (grows_renderOption scene otherwise _ hkey hnames.2)
    · exact page.grows_ensure hkey
  | .alternative body, key, page, hkey, hnames => by
    rw [Node.render]
    exact (page.grows_ensure hkey).trans (grows_renderAll scene body _ hkey hnames)
  | .region name body, key, page, hkey, hnames => by
    rw [Node.regionNames, List.cons_subset] at hnames
    -- Both the region around and the one named are made sure to exist, whichever of them gets the
    -- text.
    have hensure : page.Grows places ((page.ensure key).ensure name) :=
      (page.grows_ensure hkey).trans (Page.grows_ensure hnames.1 _)
    have hbody := hensure.trans (grows_renderAll scene body _ hnames.1 hnames.2)
    rw [Node.render]
    split
    · exact hbody
    · split
      · exact hensure.trans (Page.grows_append hkey _ _)
      · split
        · exact hensure
        · exact hbody

/-- Rendering several nodes makes a page grow where they write. -/
theorem grows_renderAll (scene : Scene) : ∀ (nodes : List Node) {key : String} (page : Page),
    key ∈ places → regionNamesAll nodes ⊆ places →
    page.Grows places (renderAll scene key nodes page).page
  | [], key, page, hkey, hnames => by
    rw [renderAll]
    exact .refl places page
  | node :: nodes, key, page, hkey, hnames => by
    rw [regionNamesAll, List.append_subset] at hnames
    rw [renderAll]
    exact Outcome.grows_andThen (grows_render scene node page hkey hnames.1)
      fun between => grows_renderAll scene nodes between hkey hnames.2

/-- So does rendering a branch that may be missing. -/
theorem grows_renderOption (scene : Scene) :
    ∀ (node : Option Node) {key : String} (page : Page), key ∈ places →
    regionNamesOption node ⊆ places → page.Grows places (renderOption scene key node page).page
  | none, key, page, hkey, hnames => by
    rw [renderOption]
    exact .refl places page
  | some node, key, page, hkey, hnames => by
    rw [renderOption]
    exact grows_render scene node page hkey hnames

end

end Markup

end

/-! ## The region of a call -/

/-- Text makes its region by itself. -/
theorem Page.ensure_append (page : Page) (key text : String) :
    (page.ensure key).append key text = page.append key text := by
  unfold Page.append Page.ensure
  congr 1
  refine Table.ext_get? fun region => ?_
  simp only [Table.get?_insert, if_true, Option.getD_some]
  split <;> rfl

/-- A region is made sure to exist once. -/
theorem Page.ensure_ensure (page : Page) (key : String) :
    (page.ensure key).ensure key = page.ensure key := by
  rw [Page.ensure_eq_append (page.ensure key), Page.ensure_append, Page.ensure_eq_append]

/-- Rendering a node begins with seeing to it that its region is there. -/
theorem Markup.render_ensure (scene : Scene) (key : String) (node : Markup.Node) (page : Page) :
    node.render scene key (page.ensure key) = node.render scene key page := by
  cases node with
  | content text => rw [Markup.Node.render, Markup.Node.render, Page.ensure_append]
  | output words =>
    rw [Markup.Node.render, Markup.Node.render]
    split
    · rw [Page.ensure_append]
    · rw [Page.ensure_ensure]
  | _ => simp only [Markup.Node.render, Page.ensure_ensure]

/-- The region that a node is rendered into is there afterwards. -/
theorem Markup.contains_render (scene : Scene) (key : String) (node : Markup.Node) (page : Page) :
    (node.render scene key page).page.regions.contains key := by
  rw [← render_ensure]
  have hgrows : (page.ensure key).Grows (key :: node.regionNames)
      (node.render scene key (page.ensure key)).page :=
    grows_render scene node _ List.mem_cons_self (List.subset_cons_self _ _)
  obtain ⟨added, h⟩ := hgrows.kept key _ (Table.get?_insert_self _ _ _)
  rw [Table.contains, h]
  rfl

/-! ## What rendering comes to -/

/-- A region node that stands in the region `key` has its body rendered: no child has supplied any
regions, or one has supplied others only and the node does not name the region where it stands. -/
def Scene.Enters (scene : Scene) (name key : String) : Prop :=
  ∀ regions, scene.supplied = some regions → regions.get? name = none ∧ name ≠ key

namespace Markup

/-- Nodes are rendered one list after the other. -/
theorem renderAll_append (scene : Scene) (key : String) (nodes later : List Node) (page : Page) :
    renderAll scene key (nodes ++ later) page
      = (renderAll scene key nodes page).andThen (renderAll scene key later) := by
  induction nodes generalizing page with
  | nil =>
    rw [renderAll]
    rfl
  | cons node nodes ih =>
    rw [List.cons_append, renderAll, renderAll, Outcome.andThen_assoc]
    exact congrArg _ (funext ih)

/-- Rendering nodes comes to one of them: those in front of it do not fail, and leave the page as it
is then. -/
def Turn (scene : Scene) (key : String) (nodes : List Node) (page : Page) (node : Node)
    (between : Page) : Prop :=
  ∃ earlier later, nodes = earlier ++ node :: later ∧
    renderAll scene key earlier page = ⟨between, none⟩

/-- Rendering a node into the region `key` of a page comes to rendering the node `inner` into the
region `into` of the page as it is then. -/
inductive Reaches (scene : Scene) (inner : Node) (into : String) (last : Page) :
    Node → String → Page → Prop
  | self : Reaches scene inner into last inner into last
  | template {children : List Node} {child : Node} {key : String} {page between : Page}
    (hchild : Turn scene key children (page.ensure key) child between)
    (h : Reaches scene inner into last child key between) :
    Reaches scene inner into last (.template children) key page
  | body {condition : List String} {value : Value} {body : List Node} {otherwise : Option Node}
    {child : Node} {key : String} {page between : Page}
    (hvalue : scene.evaluate condition = .ok value) (htrue : value.truthy = true)
    (hchild : Turn scene key body (page.ensure key) child between)
    (h : Reaches scene inner into last child key between) :
    Reaches scene inner into last (.conditional condition body otherwise) key page
  | otherwise {condition : List String} {value : Value} {body : List Node} {other : Node}
    {key : String} {page : Page}
    (hvalue : scene.evaluate condition = .ok value) (hfalse : value.truthy = false)
    (h : Reaches scene inner into last other key (page.ensure key)) :
    Reaches scene inner into last (.conditional condition body (some other)) key page
  | alternative {body : List Node} {child : Node} {key : String} {page between : Page}
    (hchild : Turn scene key body (page.ensure key) child between)
    (h : Reaches scene inner into last child key between) :
    Reaches scene inner into last (.alternative body) key page
  | region {name : String} {body : List Node} {child : Node} {key : String} {page between : Page}
    (henters : scene.Enters name key)
    (hchild : Turn scene name body ((page.ensure key).ensure name) child between)
    (h : Reaches scene inner into last child name between) :
    Reaches scene inner into last (.region name body) key page

variable {scene : Scene} {inner : Node} {into : String} {last : Page}

/-- What rendering one of some nodes begins with, rendering all of them comes to. -/
theorem Turn.exists_rest {key : String} {nodes : List Node} {page between : Page} {node : Node}
    {outcome : Outcome} (h : Turn scene key nodes page node between)
    (hnode : ∃ rest, node.render scene key between = outcome.andThen rest) :
    ∃ rest, renderAll scene key nodes page = outcome.andThen rest := by
  obtain ⟨earlier, later, rfl, hearlier⟩ := h
  obtain ⟨rest, hrest⟩ := hnode
  rw [renderAll_append, hearlier, Outcome.andThen_ok, renderAll, hrest, Outcome.andThen_assoc]
  exact ⟨_, rfl⟩

/-- The body of a region node that is entered is rendered into the region of its name. -/
theorem render_region_of_enters {name key : String} (h : scene.Enters name key)
    (body : List Node) (page : Page) :
    (Node.region name body).render scene key page
      = renderAll scene name body ((page.ensure key).ensure name) := by
  obtain ⟨context, supplied⟩ := scene
  rw [Node.render]
  cases supplied with
  | none => rfl
  | some regions =>
    obtain ⟨hname, hne⟩ := h regions rfl
    simp only [hname, if_neg hne]

/-- What rendering comes to decides how it goes on. -/
theorem Reaches.exists_rest {node : Node} {key : String} {page : Page}
    (h : Reaches scene inner into last node key page) :
    ∃ rest, node.render scene key page = (inner.render scene into last).andThen rest := by
  induction h with
  | self => exact ⟨fun page => ⟨page, none⟩, (Outcome.andThen_pure _).symm⟩
  | template hchild _ ih | alternative hchild _ ih =>
    rw [Node.render]
    exact hchild.exists_rest ih
  | body hvalue htrue hchild _ ih =>
    simp only [Node.render, hvalue, if_pos htrue]
    exact hchild.exists_rest ih
  | otherwise hvalue hfalse _ ih =>
    simp only [Node.render, hvalue, hfalse, renderOption]
    exact ih
  | region henters hchild _ ih =>
    rw [render_region_of_enters henters]
    exact hchild.exists_rest ih

/-- A failure that rendering comes to is how rendering ends. -/
theorem Reaches.render_of_failure {node : Node} {key : String} {page : Page}
    (h : Reaches scene inner into last node key page) {failed : Page} {failure : Failure}
    (hfails : inner.render scene into last = ⟨failed, some failure⟩) :
    node.render scene key page = ⟨failed, some failure⟩ := by
  obtain ⟨rest, hrest⟩ := h.exists_rest
  rw [hrest, hfails]
  rfl

/-- A reference to another parent than the one that has been noted fails, and the one that has been
noted stays. -/
theorem render_second_parent {first second : String} (hparent : last.parent = some first)
    (hne : first ≠ second) :
    (Node.parent second).render scene into last
      = ⟨last.ensure into, some (.lineage (.multipleParents first second))⟩ := by
  have hensure : (last.ensure into).parent = some first := hparent
  rw [Node.render, Page.adopt, hensure]
  simp only [if_neg hne]

end Markup

/-! ## Sequences of calls -/

/-- A node to render, and the region to render it into. -/
structure Call where
  key : String
  node : Markup.Node

/-- Makes a call on a page. -/
def Call.run (scene : Scene) (call : Call) (page : Page) : Outcome :=
  call.node.render scene call.key page

/-- The regions that a call may write to: its own and those that its node names. -/
def Call.places (call : Call) : List String := call.key :: call.node.regionNames

/-- The page after some calls, made one after the other. A call that fails does not stop those
behind it. -/
def Page.afterCalls (scene : Scene) (page : Page) (calls : List Call) : Page :=
  calls.foldl (fun page call => (call.run scene page).page) page

/-- A call makes a page grow in its own places. -/
theorem Call.grows (scene : Scene) (call : Call) (page : Page) :
    page.Grows call.places (call.run scene page).page :=
  Markup.grows_render scene call.node page List.mem_cons_self (List.subset_cons_self _ _)

/-- Whatever is on a page stays there in all later calls. -/
theorem Page.grows_afterCalls (scene : Scene) (calls : List Call) (page : Page) :
    page.Grows (calls.flatMap Call.places) (page.afterCalls scene calls) := by
  induction calls generalizing page with
  | nil => exact .refl _ page
  | cons call calls ih =>
    rw [List.flatMap_cons]
    have hcall :=
      (call.grows scene page).mono (List.subset_append_left _ (calls.flatMap Call.places))
    exact hcall.trans ((ih _).mono (List.subset_append_right _ _))

/-- Every call of a sequence only adds, also where it fails: the regions that were there keep their
texts, only the region of the call and the regions that its node names are made or changed, the
region of the call is there afterwards, and a parent that has been noted stays, also in all later
calls. If the call comes to a reference to another parent, it fails with both. -/
theorem calls_append (scene : Scene) (earlier : List Call) (call : Call) (later : List Call) :
    let page : Page := Page.afterCalls scene {} earlier
    let outcome := call.run scene page
    page.Grows call.places outcome.page ∧
      outcome.page.regions.contains call.key ∧
      outcome.page.Grows (later.flatMap Call.places) (outcome.page.afterCalls scene later) ∧
      ∀ (into first second : String) (last : Page),
        Markup.Reaches scene (.parent second) into last call.node call.key page →
        last.parent = some first → first ≠ second →
        outcome.failure = some (.lineage (.multipleParents first second)) ∧
          outcome.page.parent = some first := by
  intro page outcome
  refine ⟨call.grows scene page, Markup.contains_render scene call.key call.node page,
    Page.grows_afterCalls scene later outcome.page, ?_⟩
  intro into first second last hreaches hparent hne
  have houtcome : outcome = ⟨last.ensure into, some (.lineage (.multipleParents first second))⟩ :=
    hreaches.render_of_failure (Markup.render_second_parent hparent hne)
  rw [houtcome]
  exact ⟨rfl, hparent⟩

/-- A second parent inside a region, behind a text that the failure leaves in place. -/
theorem calls_append_second_parent :
    let scene : Scene := ⟨none, none⟩
    let page : Page := Page.afterCalls scene {} [⟨rootName, .parent "a"⟩]
    let node : Markup.Node := .region "b" [.content "x", .parent "c"]
    let last : Page := ((page.ensure rootName).ensure "b").append "b" "x"
    Markup.Reaches scene (.parent "c") "b" last node rootName page ∧
      last.parent = some "a" ∧ "a" ≠ "c" ∧
      (Call.run scene ⟨rootName, node⟩ page).failure
        = some (.lineage (.multipleParents "a" "c")) := by
  intro scene page node last
  have hchild : Markup.Turn scene "b" [.content "x", .parent "c"]
      ((page.ensure rootName).ensure "b") (.parent "c") last :=
    ⟨[.content "x"], [], rfl, by simp only [Markup.renderAll, Markup.Node.render]; rfl⟩
  have hreaches : Markup.Reaches scene (.parent "c") "b" last node rootName page :=
    .region (by rintro _ ⟨⟩) hchild .self
  have hparent : last.parent = some "a" := by
    simp [last, page, Page.afterCalls, Call.run, Markup.Node.render, Page.adopt, Page.ensure,
      Page.append]
  have hne : "a" ≠ "c" := by decide
  refine ⟨hreaches, hparent, hne, ?_⟩
  exact ((calls_append scene [⟨rootName, .parent "a"⟩] ⟨rootName, node⟩ []).2.2.2 "b" "a" "c" last
    hreaches hparent hne).1

end Stencil
