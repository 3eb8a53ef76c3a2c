import Stencil.Proofs.Unfilled

/-!
# Regions that are handed on empty

Where a child has supplied a region, an insertion point of its name copies the text to where it
stands and makes a region of that name that stays empty. Text goes only to the root and to regions
that were not supplied (`Markup.Renders.eq_root_or_not_mem`), so what a template hands on to its own
parent is empty wherever its child had something to say.

Main statement: `handed_on_empty`, for a single template and for a chain: the text of a region
reaches the level behind it, and no level behind that one.
-/

namespace Stencil

variable {context : Option Context}

/-! ## Supplied regions stay empty -/

/-- Rendering a template comes to the root and to regions that are not supplied. -/
theorem Markup.Renders.eq_root_or_not_mem {names : List String} {node inner : Markup.Node}
    {into : String} (h : Markup.Renders context names node rootName inner into) :
    into = rootName ∨ into ∉ names := by
  obtain hroot | ⟨hunfilled, -⟩ := h.eq_or_exists
  · exact .inl hroot
  · exact .inr hunfilled

/-- A template writes no text to a region that is supplied, the root aside. -/
theorem Markup.target?_ne_of_mem {names : List String} {node : Markup.Node} {name : String}
    {write : Write} (hname : name ∈ names) (hroot : name ≠ rootName)
    (hwrite : write ∈ node.writes context (some names) rootName) :
    write.target? ≠ some name := by
  intro htarget
  obtain ⟨inner, into, hrenders, hown⟩ := Markup.exists_renders_of_mem_writes node rootName hwrite
  obtain rfl := Markup.eq_of_target?_ownWrites hown htarget
  exact hrenders.eq_root_or_not_mem.elim hroot fun hnot => hnot hname

/-- A page that is interpreted is what rendering comes to. -/
theorem render_of_interpret {node : Markup.Node} {scene : Scene} {page : Page}
    (h : interpret node scene = .ok page) : node.render scene rootName {} = ⟨page, none⟩ := by
  unfold interpret at h
  split at h
  · rename_i hrender
    cases h
    exact hrender
  · cases h

/-- A region that is supplied has no text on the page of a template, the root aside. -/
theorem text_of_supplied {node : Markup.Node} {supplied : Regions} {page : Page} {name : String}
    (h : interpret node ⟨context, some supplied⟩ = .ok page) (hname : supplied.contains name)
    (hroot : name ≠ rootName) : page.text name = "" := by
  have hpage : (node.render ⟨context, some supplied⟩ rootName {}).page = page :=
    congrArg Outcome.page (render_of_interpret h)
  rw [Markup.render_eq_replay] at hpage
  rw [← hpage]
  exact text_replay supplied {} fun write hwrite =>
    Markup.target?_ne_of_mem (Table.contains_iff_mem_names.1 hname) hroot hwrite

/-! ## Regions that are rendered are there -/

/-- A region that one of some writes makes is there after them. -/
theorem isSome_outline {region : String} {write : Write} {writes : List Write}
    (hwrite : write ∈ writes) (h : (write.parts region).isSome) :
    (outline region writes).isSome := by
  induction writes with
  | nil => cases hwrite
  | cons first writes ih =>
    rw [outline, Option.isSome_merge, Bool.or_eq_true]
    obtain rfl | hlater := List.mem_cons.1 hwrite
    · exact .inl h
    · exact .inr (ih hlater)

/-- The region of an insertion point that is rendered is there. -/
theorem contains_of_renders {node : Markup.Node} {supplied : Regions} {page : Page}
    {name into : String} {body : List Markup.Node}
    (h : interpret node ⟨context, some supplied⟩ = .ok page)
    (hrenders : Markup.Renders context supplied.names node rootName (.region name body) into) :
    page.regions.contains name := by
  have hensure : Write.ensure name ∈ node.writes context (some supplied.names) rootName :=
    hrenders.writes_subset (by simp [Markup.Node.writes])
  have hparts : ((Write.ensure name).parts name).isSome := by simp [Write.parts]
  rw [Table.contains, (interpret_eq_ok.1 h).2, written, Option.isSome_map]
  exact isSome_outline hensure hparts

/-- An insertion point that a child has supplied and that is rendered leaves an empty region. -/
theorem get?_of_renders {node : Markup.Node} {supplied : Regions} {page : Page}
    {name into : String} {body : List Markup.Node}
    (h : interpret node ⟨context, some supplied⟩ = .ok page) (hname : supplied.contains name)
    (hroot : name ≠ rootName)
    (hrenders : Markup.Renders context supplied.names node rootName (.region name body) into) :
    page.regions.get? name = some "" := by
  have htext := text_of_supplied h hname hroot
  obtain ⟨text, hget⟩ := Option.isSome_iff_exists.1 (contains_of_renders h hrenders)
  rw [Page.text, hget, Option.getD_some] at htext
  rw [hget, htext]

/-! ## Along a chain -/

/-- Rendering the template with an id, with some regions supplied, comes to an insertion point of a
name. -/
def Chain.Executes (library : Library) (context : Option Context) (supplied : Regions)
    (id name : String) : Prop :=
  ∃ source node body into, library.load id = .ok source ∧ Markup.parse source = .ok node ∧
    Markup.Renders context supplied.names node rootName (.region name body) into

open Chain in
/-- A region that a child has supplied is handed on empty. Whatever regions a template is rendered
with, those of them that its page has, the root aside, have no text there. So where one level of a
chain has a region and the level behind it comes to an insertion point of that name, the level
behind both of them is rendered with the empty text for it. -/
theorem handed_on_empty :
    (∀ (node : Markup.Node) (context : Option Context) (supplied : Regions) (page : Page),
      interpret node ⟨context, some supplied⟩ = .ok page →
      ∀ name text, supplied.contains name → name ≠ rootName →
        page.regions.get? name = some text → text = "") ∧
    ∀ (library : Library) (context : Option Context) (reference : String) (first second : Level)
      (below : List Level), Climbs library context reference (second :: first :: below) →
      ∀ name, first.page.regions.contains name → name ≠ rootName →
        Executes library context first.page.regions second.id name →
        ∃ regions : Regions, supply (second :: first :: below) = some regions ∧
          regions.get? name = some "" ∧
          ∀ third, Climbs library context reference (third :: second :: first :: below) →
            Renders library context (some regions) third.id third.page := by
  constructor
  · intro node context supplied page h name text hname hroot hget
    have htext := text_of_supplied h hname hroot
    rwa [Page.text, hget, Option.getD_some] at htext
  · intro library context reference first second below hclimbs name hname hroot hexecutes
    obtain ⟨source, node, body, into, hload, hparse, hrenders⟩ := hexecutes
    refine ⟨second.page.regions, rfl, ?_, ?_⟩
    · cases hclimbs with
      | level _ _ hpage =>
        obtain ⟨source', node', hload', hparse', hrender⟩ := hpage
        cases hload.symm.trans hload'
        cases hparse.symm.trans hparse'
        exact get?_of_renders hrender hname hroot hrenders
    · intro third hthird
      cases hthird with
      | level _ _ hpage => exact hpage

/-- The tree of the second template of the layered chain. -/
def layeredMiddleNode : Markup.Node :=
  .template [.parent "base", .content "x", .region "b" [.region "a" []]]

open Chain in
/-- The first template of the layered chain has the region `a`, the second one fills it into its own
region `b`, and the third is rendered with the empty text for `a`. -/
theorem handed_on_empty_layered :
    interpret layeredMiddleNode ⟨none, some layeredChild.page.regions⟩ = .ok layeredMiddle.page ∧
    layeredChild.page.regions.contains "a" ∧ "a" ≠ rootName ∧
    (∀ text, layeredMiddle.page.regions.get? "a" = some text → text = "") ∧
    Climbs (layered "x").library none "child" [layeredMiddle, layeredChild] ∧
    Executes (layered "x").library none layeredChild.page.regions "middle" "a" ∧
    ∃ regions : Regions, supply [layeredMiddle, layeredChild] = some regions ∧
      regions.get? "a" = some "" := by
  have hinterpret : interpret layeredMiddleNode ⟨none, some layeredChild.page.regions⟩
      = .ok layeredMiddle.page := by decide +kernel
  have hname : layeredChild.page.regions.contains "a" := by decide
  have hroot : "a" ≠ rootName := by decide
  have hchild : Climbs (layered "x").library none "child" [layeredChild] :=
    .level .start (by decide +kernel) (page_eq_ok_iff.1 (by decide +kernel))
  have hmiddle : Climbs (layered "x").library none "child" [layeredMiddle, layeredChild] :=
    .level hchild (by decide +kernel) (page_eq_ok_iff.1 (by decide +kernel))
  have hrenders : Markup.Renders none layeredChild.page.regions.names layeredMiddleNode rootName
      (.region "a" []) "b" := by
    refine .template (List.mem_cons_of_mem _ (List.mem_cons_of_mem _ List.mem_cons_self)) ?_
    exact .region (by decide) (by decide) List.mem_cons_self (.self _ _)
  have hexecutes :
      Executes (layered "x").library none layeredChild.page.regions "middle" "a" := by
    obtain ⟨source, hload, hparse⟩ :=
      Shelf.tree?_eq_some.1 (tree?_layered "x" (.inl rfl)).1
    exact ⟨source, layeredMiddleNode, [], "b", hload, hparse, hrenders⟩
  obtain ⟨hempty, hchain⟩ := handed_on_empty
  obtain ⟨regions, hsupply, hget, -⟩ := hchain _ _ _ _ _ _ hmiddle "a" hname hroot hexecutes
  exact ⟨hinterpret, hname, hroot, fun text => hempty _ _ _ _ hinterpret "a" text hname hroot,
    hmiddle, hexecutes, regions, hsupply, hget⟩

end Stencil
