import Mathlib.Data.List.Forall2
import Mathlib.Data.List.Sort
import Stencil.Proofs.Ascent
import Stencil.Proofs.Parametricity
import Stencil.Proofs.Sources

/-!
# Text outside regions

What a template that has a parent writes outside its regions goes to the root, and the root is
handed on to the parent like any other region. There it is looked at by an insertion point of that
name only. So where no template up the chain has one, two chains whose templates differ in text
outside regions go side by side: their pages agree but for the root (`Page.AgreesOffRoot`), up to
the last template, which is the same in both.

`Node.bare` is a tree without that text. Main statement: `compile_of_bare`.
-/

namespace Stencil

/-! ## Trees -/

namespace Markup

mutual

/-- The tree of a node with the empty text wherever literal text stands outside regions. -/
def Node.bare : Node → Node
  | .template children => .template (bareAll children)
  | .content _ => .content ""
  | .output words => .output words
  | .parent reference => .parent reference
  | .conditional condition body otherwise =>
    .conditional condition (bareAll body) (bareOption otherwise)
  | .alternative body => .alternative (bareAll body)
  | .region name body => .region name body

/-- Nodes, each with the empty text wherever literal text stands outside regions. -/
def bareAll : List Node → List Node
  | [] => []
  | node :: nodes => node.bare :: bareAll nodes

/-- A node with the empty text wherever literal text stands outside regions, if there is one. -/
def bareOption : Option Node → Option Node
  | none => none
  | some node => some node.bare

end

mutual

/-- The names of the regions in a tree, also of those inside others. -/
def Node.regionNames : Node → List String
  | .template children => regionNamesAll children
  | .content _ | .output _ | .parent _ => []
  | .conditional _ body otherwise => regionNamesAll body ++ regionNamesOption otherwise
  | .alternative body => regionNamesAll body
  | .region name body => name :: regionNamesAll body

/-- The names of the regions in several trees. -/
def regionNamesAll : List Node → List String
  | [] => []
  | node :: nodes => node.regionNames ++ regionNamesAll nodes

/-- The names of the regions in a tree if there is one. -/
def regionNamesOption : Option Node → List String
  | none => []
  | some node => node.regionNames

end

/-- The regions of a node are among those of its list. -/
theorem regionNames_subset_all {child : Node} {nodes : List Node} (h : child ∈ nodes) :
    child.regionNames ⊆ regionNamesAll nodes := by
  induction nodes with
  | nil => cases h
  | cons node nodes ih =>
    rw [regionNamesAll]
    obtain rfl | h := List.mem_cons.1 h
    · exact List.subset_append_left _ _
    · exact List.Subset.trans (ih h) (List.subset_append_right _ _)

variable {context : Option Context}

/-- The regions where rendering comes to are regions of the tree. -/
theorem Renders.regionNames_subset {names : List String} {node inner : Node} {key into : String}
    (h : Renders context names node key inner into) : inner.regionNames ⊆ node.regionNames := by
  induction h with
  | self => exact List.Subset.refl _
  | template hchild _ ih =>
    rw [Node.regionNames]
    exact List.Subset.trans ih (regionNames_subset_all hchild)
  | body _ _ hchild _ ih =>
    rw [Node.regionNames]
    exact List.Subset.trans ih
      (List.Subset.trans (regionNames_subset_all hchild) (List.subset_append_left _ _))
  | otherwise _ _ _ ih =>
    rw [Node.regionNames, regionNamesOption]
    exact List.Subset.trans ih (List.subset_append_right _ _)
  | alternative hchild _ ih =>
    rw [Node.regionNames]
    exact List.Subset.trans ih (regionNames_subset_all hchild)
  | region _ _ hchild _ ih =>
    rw [Node.regionNames]
    exact List.Subset.trans ih
      (List.Subset.trans (regionNames_subset_all hchild) (List.subset_cons_self _ _))

/-- A supplied text is copied at insertion points of the tree only. -/
theorem mem_regionNames_of_copy {names : List String} {node : Node} {key into name : String}
    (h : .copy into name ∈ node.writes context (some names) key) : name ∈ node.regionNames := by
  obtain ⟨-, body, hrenders⟩ := copy_mem_writes.1 h
  apply hrenders.regionNames_subset
  rw [Node.regionNames]
  exact List.mem_cons_self

end Markup

/-! ## Writes to the root -/

/-- The write without the text that it adds to the root. -/
def Write.muted : Write → Write
  | .append region text => .append region (if region = rootName then "" else text)
  | write => write

namespace Markup

variable {context : Option Context} {names : Option (List String)}

mutual

/-- Into the root, a tree without its text outside regions writes the same but for text. -/
theorem writes_bare : ∀ node : Node,
    (node.bare.writes context names rootName).map Write.muted
      = (node.writes context names rootName).map Write.muted
  | .template children => by
    rw [Node.bare, Node.writes, Node.writes, List.map_cons, List.map_cons, writesAll_bare children]
  | .content text => by
    simp only [Node.bare, Node.writes, List.map_cons, Write.muted, if_pos]
  | .output words => by rw [Node.bare]
  | .parent reference => by rw [Node.bare]
  | .conditional condition body otherwise => by
    rw [Node.bare, Node.writes.eq_def, Node.writes.eq_def]
    dsimp only
    rw [List.map_cons, List.map_cons]
    congr 1
    -- the condition is the same, so both take the same branch
    split
    · split
      · exact writesAll_bare body
      · exact writesOption_bare otherwise
    · rfl
  | .alternative body => by
    rw [Node.bare, Node.writes, Node.writes, List.map_cons, List.map_cons, writesAll_bare body]
  | .region name body => by rw [Node.bare]

/-- Without stray text several nodes write the same, up to text in the root. -/
theorem writesAll_bare : ∀ nodes : List Node,
    (writesAll context names rootName (bareAll nodes)).map Write.muted
      = (writesAll context names rootName nodes).map Write.muted
  | [] => by rw [bareAll]
  | node :: nodes => by
    rw [bareAll, writesAll, writesAll, List.map_append, List.map_append, writes_bare node,
      writesAll_bare nodes]

/-- So does a branch that may be missing. -/
theorem writesOption_bare : ∀ node : Option Node,
    (writesOption context names rootName (bareOption node)).map Write.muted
      = (writesOption context names rootName node).map Write.muted
  | none => by rw [bareOption]
  | some node => by
    rw [bareOption, writesOption, writesOption]
    exact writes_bare node

end

end Markup

/-- Text does not decide on the parent, nor on whether there is a failure. -/
theorem judgement_map_muted (parent : Option String) (writes : List Write) :
    judgement parent (writes.map Write.muted) = judgement parent writes := by
  rw [judgement, judgement, List.foldlM_map]
  congr 1
  funext parent write
  cases write <;> rfl

/-- Off the root, writes add the same without the text that they add to the root. -/
theorem outline_map_muted {region : String} (h : region ≠ rootName) (writes : List Write) :
    outline region (writes.map Write.muted) = outline region writes := by
  induction writes with
  | nil => rfl
  | cons write writes ih =>
    rw [List.map_cons, outline, outline, ih]
    congr 1
    cases write with
    | append key text =>
      rw [Write.muted, Write.parts, Write.parts]
      split
      · -- the text goes to the root, which is another region
        rename_i hkey
        rw [if_neg (hkey ▸ h)]
      · rfl
    | _ => rfl

/-- The root is there or not whatever text is added to it. -/
theorem isSome_outline_map_muted (region : String) (writes : List Write) :
    (outline region (writes.map Write.muted)).isSome = (outline region writes).isSome := by
  have hmerge : ∀ parts later : Option (List Part),
      (parts.merge (· ++ ·) later).isSome = (parts.isSome || later.isSome) := by
    intro parts later
    cases parts <;> cases later <;> rfl
  induction writes with
  | nil => rfl
  | cons write writes ih =>
    rw [List.map_cons, outline, outline, hmerge, hmerge, ih]
    congr 1
    cases write with
    | append key text =>
      rw [Write.muted, Write.parts, Write.parts]
      split <;> rfl
    | _ => rfl

/-! ## Pages -/

/-- Two pages with the same parent and the same regions, of which only the root may hold other
text. -/
structure Page.AgreesOffRoot (page page' : Page) : Prop where
  parent_eq : page'.parent = page.parent
  contains_eq (name : String) : page'.regions.contains name = page.regions.contains name
  get?_eq {name : String} (hname : name ≠ rootName) :
    page'.regions.get? name = page.regions.get? name

/-- Tables that hold entries under the same names list the same names. -/
theorem Table.names_congr {α β : Type} {t : Table α} {u : Table β}
    (h : ∀ name, t.contains name = u.contains name) : t.names = u.names := by
  have hascending : ∀ {γ : Type} (v : Table γ), v.names.Pairwise (· < ·) :=
    fun v => List.pairwise_map.2 v.ascending
  refine (hascending t).eq_of_mem_iff (hascending u) fun name => ?_
  rw [← contains_iff_mem_names, ← contains_iff_mem_names, h]

/-- Templates that differ in text outside regions only have pages that agree but for the root. -/
theorem interpret_of_bare {node node' : Markup.Node} (hbare : node'.bare = node.bare)
    {scene : Scene} {page : Page} (hpage : interpret node scene = .ok page) :
    ∃ page', interpret node' scene = .ok page' ∧ page.AgreesOffRoot page' := by
  have hmuted : (node'.writesIn scene).map Write.muted = (node.writesIn scene).map Write.muted := by
    unfold Markup.Node.writesIn
    rw [← Markup.writes_bare, hbare, Markup.writes_bare]
  obtain ⟨hjudge, hregions⟩ := interpret_eq_ok.1 hpage
  rw [← judgement_map_muted, ← hmuted, judgement_map_muted] at hjudge
  obtain ⟨page', hpage', hparent, hregions'⟩ := interpret_of_judgement_ok hjudge
  refine ⟨page', hpage', hparent, fun name => ?_, fun {name} hname => ?_⟩
  · rw [Table.contains, Table.contains, hregions', hregions, written, written, Option.isSome_map,
      Option.isSome_map, ← isSome_outline_map_muted, hmuted, isSome_outline_map_muted]
  · rw [hregions', hregions, written, written, ← outline_map_muted hname, hmuted,
      outline_map_muted hname]

/-- Parts come to the same text where the same is supplied for the names among them. -/
theorem fill_congr {supplied supplied' : Regions} {parts : List Part}
    (h : ∀ name, .supplied name ∈ parts → supplied'.get? name = supplied.get? name) :
    fill supplied' parts = fill supplied parts := by
  induction parts with
  | nil => rfl
  | cons part parts ih =>
    have hlater := ih fun name hname => h name (List.mem_cons_of_mem _ hname)
    cases part with
    | fixed text => rw [fill, fill, hlater]
    | supplied name => rw [fill, fill, hlater, h name List.mem_cons_self]

/-- A template without an insertion point for the root does not see what is supplied as the root. -/
theorem interpret_of_agreesOffRoot {node : Markup.Node} (hroot : rootName ∉ node.regionNames)
    {child child' : Page} (h : child.AgreesOffRoot child') (context : Option Context) :
    interpret node ⟨context, some child'.regions⟩
      = interpret node ⟨context, some child.regions⟩ := by
  have hnames : child'.regions.names = child.regions.names := Table.names_congr h.contains_eq
  let writes := node.writes context (some child.regions.names) rootName
  have hwrites : node.writesIn ⟨context, some child'.regions⟩ = writes :=
    congrArg (fun names => node.writes context (some names) rootName) hnames
  have hwritten : ∀ region, written child'.regions region writes
      = written child.regions region writes := by
    intro region
    refine Option.map_congr fun parts hparts => fill_congr fun name hname => h.get?_eq ?_
    -- what is supplied comes in at insertion points of the tree, and none of them is for the root
    rintro rfl
    exact hroot (Markup.mem_regionNames_of_copy (supplied_mem_outline.1 ⟨parts, hparts, hname⟩))
  cases hjudge : judgement none writes with
  | error failure =>
    rw [interpret_of_judgement_error (hwrites ▸ hjudge), interpret_of_judgement_error hjudge]
  | ok parent =>
    have hchild : judgement none (node.writesIn ⟨context, some child.regions⟩) = .ok parent :=
      hjudge
    obtain ⟨page, hpage, hparent, hregions⟩ := interpret_of_judgement_ok hchild
    rw [hpage]
    refine interpret_eq_ok.2 ⟨?_, fun region => ?_⟩
    · rw [hwrites, hjudge, hparent]
    · rw [hregions, hwrites]
      exact (hwritten region).symm

/-! ## Chains -/

/-- The tree of a template on a shelf, if the shelf holds a template of that name. -/
def Shelf.tree? (shelf : Shelf) (name : String) : Option Markup.Node :=
  (shelf.sources.get? name).bind fun source => (Markup.parse source).toOption

/-- A template with a tree is one that can be loaded and parsed. -/
theorem Shelf.tree?_eq_some {shelf : Shelf} {name : String} {node : Markup.Node} :
    shelf.tree? name = some node ↔
      ∃ source, shelf.library.load name = .ok source ∧ Markup.parse source = .ok node := by
  rw [tree?, Option.bind_eq_some_iff]
  simp only [toOption_eq_some, Shelf.load_eq_ok]

/-- A source on the shelf has the tree that the lexemes of its right reading derive. -/
theorem Shelf.tree?_of_reads {shelf : Shelf} {name source : String} {r : Markup.Reading}
    (hsource : shelf.sources.get? name = some source) (hreads : Markup.Reads r source.toList)
    (d : Markup.Derivation) (hd : d.lexemes = r.pieces.flatMap Markup.Piece.lexemes) :
    shelf.tree? name = some (.template d.nodes) :=
  tree?_eq_some.2 ⟨source, Shelf.load_eq_ok.2 hsource,
    (Markup.parse_eq_ok_iff hreads).2 ⟨d, hd, rfl⟩⟩

/-- The names of the regions in the tree of a template on a shelf. -/
def Shelf.regionNames (shelf : Shelf) (name : String) : List String :=
  ((shelf.tree? name).map Markup.Node.regionNames).getD []

namespace Chain

variable {shelf shelf' : Shelf} {context : Option Context} {reference : String}

/-- A template on a shelf renders as its tree does. -/
theorem renders_iff {supplied : Option Regions} {id : String} {page : Page} :
    Renders shelf.library context supplied id page ↔
      ∃ node, shelf.tree? id = some node ∧ interpret node ⟨context, supplied⟩ = .ok page := by
  constructor
  · rintro ⟨source, node, hload, hparse, hrender⟩
    exact ⟨node, Shelf.tree?_eq_some.2 ⟨source, hload, hparse⟩, hrender⟩
  · rintro ⟨node, htree, hrender⟩
    obtain ⟨source, hload, hparse⟩ := Shelf.tree?_eq_some.1 htree
    exact ⟨source, node, hload, hparse, hrender⟩

/-- A template with a tree is on the shelf. -/
theorem contains_of_tree? {id : String} {node : Markup.Node} (h : shelf.tree? id = some node) :
    shelf.sources.contains id := by
  obtain ⟨source, hsource, -⟩ := Option.bind_eq_some_iff.1 h
  exact Option.isSome_iff_exists.2 ⟨source, hsource⟩

/-- The regions of a template are those of its tree. -/
theorem regionNames_of_tree? {id : String} {node : Markup.Node}
    (h : shelf.tree? id = some node) : shelf.regionNames id = node.regionNames := by
  rw [Shelf.regionNames, h]
  rfl

/-- Levels of the same templates, whose pages agree but for the root. -/
def Alike : List Level → List Level → Prop :=
  List.Forall₂ fun level level' => level'.id = level.id ∧ level.page.AgreesOffRoot level'.page

/-- Levels that are alike have the same ids. -/
theorem Alike.ids_eq {levels levels' : List Level} (h : Alike levels levels') :
    ids levels' = ids levels := by
  induction h with
  | nil => rfl
  | cons hlevel _ ih => rw [ids, ids, ih, hlevel.1]

/-- Alike levels lead to the same template, if it is on the other shelf, too. -/
theorem Alike.next?_eq {levels levels' : List Level} (h : Alike levels levels') {id : String}
    (hnext : next? shelf.library reference levels = some (.ok id))
    (hthere : shelf'.sources.contains id) :
    next? shelf'.library reference levels' = some (.ok id) := by
  cases h with
  | nil =>
    obtain ⟨-, rfl⟩ := Shelf.resolve_eq_ok.1 (Option.some.inj hnext)
    exact congrArg some (Shelf.resolve_eq_ok.2 ⟨hthere, rfl⟩)
  | cons hlevel =>
    obtain ⟨path, hpath, hresolve⟩ := Option.map_eq_some_iff.1 hnext
    obtain ⟨-, rfl⟩ := Shelf.resolve_eq_ok.1 hresolve
    rw [next?, hlevel.2.parent_eq, hpath]
    exact congrArg some (Shelf.resolve_eq_ok.2 ⟨hthere, rfl⟩)

/-- Behind alike levels a template has the same page, if it is the first one or has no insertion
point for the root. -/
theorem Alike.interpret_eq {levels levels' : List Level} (h : Alike levels levels')
    {node : Markup.Node} (hroot : levels ≠ [] → rootName ∉ node.regionNames) :
    interpret node ⟨context, supply levels'⟩ = interpret node ⟨context, supply levels⟩ := by
  cases h with
  | nil => rfl
  | cons hlevel =>
    exact interpret_of_agreesOffRoot (hroot (List.cons_ne_nil _ _)) hlevel.2 context

/-- A template is the next level behind alike levels, where its tree is the same up to text outside
regions and has no insertion point for the root unless it is the first one. -/
theorem Alike.exists_level {below below' : List Level} (h : Alike below below') {id : String}
    {page : Page} (hbelow' : Climbs shelf'.library context reference below')
    (hnext : next? shelf.library reference below = some (.ok id))
    (hpage : Renders shelf.library context (supply below) id page)
    (hroot : below ≠ [] → rootName ∉ shelf.regionNames id)
    (hbare : (shelf'.tree? id).map Markup.Node.bare = (shelf.tree? id).map Markup.Node.bare) :
    ∃ page', Climbs shelf'.library context reference (⟨id, page'⟩ :: below') ∧
      page.AgreesOffRoot page' := by
  obtain ⟨node, htree, hrender⟩ := renders_iff.1 hpage
  rw [htree, Option.map_some, Option.map_eq_some_iff] at hbare
  obtain ⟨node', htree', hbare⟩ := hbare
  rw [regionNames_of_tree? htree] at hroot
  rw [← h.interpret_eq hroot] at hrender
  obtain ⟨page', hrender', hagrees⟩ := interpret_of_bare hbare hrender
  have hnext' := h.next?_eq hnext (contains_of_tree? htree')
  exact ⟨page', .level hbelow' hnext' (renders_iff.2 ⟨node', htree', hrender'⟩), hagrees⟩

/-- What holds of all but the last holds of the first, unless it is the last, and of the others. -/
theorem forall_mem_dropLast_cons {α : Type} {p : α → Prop} {a : α} {l : List α}
    (h : ∀ b ∈ (a :: l).dropLast, p b) : (l ≠ [] → p a) ∧ ∀ b ∈ l.dropLast, p b := by
  cases l with
  | nil => exact ⟨fun hne => absurd rfl hne, fun b hb => by cases hb⟩
  | cons c l =>
    rw [List.dropLast_cons_of_ne_nil (List.cons_ne_nil c l), List.forall_mem_cons] at h
    exact ⟨fun _ => h.1, h.2⟩

/-- A chain that leads through templates without insertion points for the root, the first one
aside, leads through alike levels where the templates differ in text outside regions only. -/
theorem Climbs.exists_alike {levels : List Level}
    (hclimbs : Climbs shelf.library context reference levels)
    (hroot : ∀ level ∈ levels.dropLast, rootName ∉ shelf.regionNames level.id)
    (hbare : ∀ level ∈ levels,
      (shelf'.tree? level.id).map Markup.Node.bare = (shelf.tree? level.id).map Markup.Node.bare) :
    ∃ levels', Climbs shelf'.library context reference levels' ∧ Alike levels levels' := by
  induction hclimbs with
  | start => exact ⟨[], .start, .nil⟩
  | @level below id page _ hnext hpage ih =>
    obtain ⟨hfirst, hbelow⟩ := List.forall_mem_cons.1 hbare
    obtain ⟨hrootFirst, hrootBelow⟩ := forall_mem_dropLast_cons hroot
    obtain ⟨below', hbelow', halike⟩ := ih hrootBelow hbelow
    obtain ⟨page', hclimbs', hagrees⟩ :=
      halike.exists_level hbelow' hnext hpage hrootFirst hfirst
    exact ⟨_, hclimbs', .cons ⟨rfl, hagrees⟩ halike⟩

/-- The chain along which compiling succeeds repeats no template, and its last regions are the
result. -/
theorem distinct_of_compile {below : List Level} {last : Level} {regions : Regions}
    (hcompile : (shelf.library.compile reference context).1 = .ok regions)
    (hchain : Climbs shelf.library context reference (last :: below))
    (hend : last.page.parent = none) :
    (ids (last :: below)).Nodup ∧ last.page.regions = regions := by
  obtain ⟨levels, hlevels, hdistinct, hends⟩ := compile_eq_iff.1 hcompile
  obtain ⟨above, habove⟩ := hlevels.part_of_ends hdistinct hchain (.complete hend)
  cases hends with
  | @complete level rest hparent =>
    cases above with
    | nil =>
      rw [List.nil_append] at habove
      cases habove
      exact ⟨hdistinct, rfl⟩
    | cons top above =>
      -- nothing is behind a level without a parent
      rw [habove] at hchain
      obtain ⟨before, next, hbefore⟩ : ∃ before next,
          top :: above = before ++ [next] := ⟨_, _, (List.dropLast_append_getLast (by simp)).symm⟩
      rw [hbefore, List.append_assoc] at hchain
      cases hchain.of_append with
      | level _ hnext _ => simp [next?, hparent] at hnext

end Chain

open Chain in
/-- Text that a child has outside its regions never reaches the page. Where compiling succeeds along
a chain in which no template but the first has an insertion point for the root, it returns the same
regions from every shelf that holds the last template of the chain, and for each of the others one
whose tree is the same but for the text outside regions. -/
theorem compile_of_bare {shelf shelf' : Shelf} {context : Option Context} {reference : String}
    {regions : Regions} {below : List Level} {last : Level}
    (hcompile : (shelf.library.compile reference context).1 = .ok regions)
    (hchain : Climbs shelf.library context reference (last :: below))
    (hend : last.page.parent = none)
    (hroot : ∀ level ∈ (last :: below).dropLast, rootName ∉ shelf.regionNames level.id)
    (hlast : shelf'.sources.get? last.id = shelf.sources.get? last.id)
    (hbelow : ∀ level ∈ below, (shelf'.tree? level.id).map Markup.Node.bare
      = (shelf.tree? level.id).map Markup.Node.bare) :
    (shelf'.library.compile reference context).1 = .ok regions := by
  obtain ⟨hdistinct, rfl⟩ := distinct_of_compile hcompile hchain hend
  obtain ⟨hrootLast, hrootBelow⟩ := forall_mem_dropLast_cons hroot
  cases hchain with
  | @level _ id page hclimbs hnext hpage =>
    obtain ⟨below', hclimbs', halike⟩ := hclimbs.exists_alike hrootBelow hbelow
    obtain ⟨node, htree, hrender⟩ := renders_iff.1 hpage
    -- the last template is the same, and does not see the one region in which the pages differ
    rw [regionNames_of_tree? htree] at hrootLast
    rw [← halike.interpret_eq hrootLast] at hrender
    have htree' : shelf'.tree? id = some node := by
      rw [Shelf.tree?, hlast]
      exact htree
    have hchain' := Climbs.level hclimbs' (halike.next?_eq hnext (contains_of_tree? htree'))
      (renders_iff.2 ⟨node, htree', hrender⟩)
    refine compile_eq_iff.2 ⟨_, hchain', ?_, .complete hend⟩
    rw [ids, halike.ids_eq]
    exact hdistinct

/-- Three templates, of which the first two have some text outside regions. -/
def layered (text : String) : Shelf :=
  ⟨Table.ofList [("base", "[\x7b% insert b %\x7d\x7b% endblock %\x7d]"),
    ("middle", "\x7b% extends base %\x7d" ++ text ++
      "\x7b% insert b %\x7d\x7b% insert a %\x7d\x7b% endblock %\x7d\x7b% endblock %\x7d"),
    ("child", "\x7b% extends middle %\x7d\x7b% if 1 %\x7d" ++ text ++
      "\x7b% endblock %\x7d\x7b% insert a %\x7dA\x7b% endblock %\x7d")]⟩

/-- The first level of their chain. -/
def layeredChild : Chain.Level :=
  ⟨"child", ((∅ : Regions).insert "a" "A").insert rootName "x", some "middle"⟩

/-- The second level, which copies the region `a` into the region `b`. -/
def layeredMiddle : Chain.Level :=
  ⟨"middle", (((∅ : Regions).insert "a" "").insert "b" "A").insert rootName "x", some "base"⟩

/-- The last level. -/
def layeredBase : Chain.Level :=
  ⟨"base", ((∅ : Regions).insert "b" "").insert rootName "[A]", none⟩

/-- The sources of the first two. -/
theorem get?_layered (text : String) :
    (layered text).sources.get? "middle" = some ("\x7b% extends base %\x7d" ++ text ++
      "\x7b% insert b %\x7d\x7b% insert a %\x7d\x7b% endblock %\x7d\x7b% endblock %\x7d") ∧
    (layered text).sources.get? "child" = some ("\x7b% extends middle %\x7d\x7b% if 1 %\x7d" ++
      text ++ "\x7b% endblock %\x7d\x7b% insert a %\x7dA\x7b% endblock %\x7d") := by
  simp only [layered, Table.ofList, List.foldl_cons, List.foldl_nil, Table.get?_insert]
  exact ⟨rfl, rfl⟩

/-- Their trees, which differ in this text only. -/
theorem tree?_layered (text : String) (htext : text = "x" ∨ text = "y") :
    (layered text).tree? "middle" = some (.template
      [.parent "base", .content text, .region "b" [.region "a" []]]) ∧
    (layered text).tree? "child" = some (.template
      [.parent "middle", .conditional ["1"] [.content text] none,
        .region "a" [.content "A"]]) := by
  obtain ⟨hmiddle, hchild⟩ := get?_layered text
  -- each reading is checked cut by cut, and each derivation against the lexemes of its reading
  constructor
  · refine Shelf.tree?_of_reads hmiddle (r := ⟨[⟨[], .block, " extends base ".toList⟩,
        ⟨text.toList, .block, " insert b ".toList⟩, ⟨[], .block, " insert a ".toList⟩,
        ⟨[], .block, " endblock ".toList⟩, ⟨[], .block, " endblock ".toList⟩], [], []⟩) ?_
      (.parent .block "base" _ (Markup.spells_unquote _) (.content text
        (.region "insert" (.inl rfl) "b" _ (Markup.spells_unquote _)
          (.region "insert" (.inl rfl) "a" _ (Markup.spells_unquote _) .nil .nil) .nil))) ?_
    · rcases htext with rfl | rfl <;>
        exact .of_cuts rfl rfl (.of_cuts rfl rfl (.of_cuts rfl rfl (.of_cuts rfl rfl
          (.of_cuts rfl rfl (.of_untilOpening_none rfl)))))
    · rcases htext with rfl | rfl <;> decide +kernel
  · refine Shelf.tree?_of_reads hchild (r := ⟨[⟨[], .block, " extends middle ".toList⟩,
        ⟨[], .block, " if 1 ".toList⟩, ⟨text.toList, .block, " endblock ".toList⟩,
        ⟨[], .block, " insert a ".toList⟩, ⟨['A'], .block, " endblock ".toList⟩], [], []⟩) ?_
      (.parent .block "middle" _ (Markup.spells_unquote _) (.conditional ["1"] (by simp)
        (.content text .nil) (.region "insert" (.inl rfl) "a" _ (Markup.spells_unquote _)
          (.content "A" .nil) .nil))) ?_
    · rcases htext with rfl | rfl <;>
        exact .of_cuts rfl rfl (.of_cuts rfl rfl (.of_cuts rfl rfl (.of_cuts rfl rfl
          (.of_cuts rfl rfl (.of_untilOpening_none rfl)))))
    · rcases htext with rfl | rfl <;> decide +kernel

open Chain in
/-- Other text in the first two changes nothing on the page. -/
theorem compile_of_bare_layered :
    ((layered "x").library.compile "child" none).1 = .ok layeredBase.page.regions ∧
    Climbs (layered "x").library none "child" [layeredBase, layeredMiddle, layeredChild] ∧
    layeredBase.page.parent = none ∧
    (∀ level ∈ [layeredBase, layeredMiddle, layeredChild].dropLast,
      rootName ∉ (layered "x").regionNames level.id) ∧
    (layered "y").sources.get? layeredBase.id = (layered "x").sources.get? layeredBase.id ∧
    (∀ level ∈ [layeredMiddle, layeredChild],
      ((layered "y").tree? level.id).map Markup.Node.bare
        = ((layered "x").tree? level.id).map Markup.Node.bare) ∧
    ((layered "y").library.compile "child" none).1 = .ok layeredBase.page.regions := by
  have hchild : Climbs (layered "x").library none "child" [layeredChild] :=
    .level .start (by decide +kernel) (page_eq_ok_iff.1 (by decide +kernel))
  have hmiddle : Climbs (layered "x").library none "child" [layeredMiddle, layeredChild] :=
    .level hchild (by decide +kernel) (page_eq_ok_iff.1 (by decide +kernel))
  have hbase :
      Climbs (layered "x").library none "child" [layeredBase, layeredMiddle, layeredChild] :=
    .level hmiddle (by decide +kernel) (page_eq_ok_iff.1 (by decide +kernel))
  have hcompile : ((layered "x").library.compile "child" none).1
      = .ok layeredBase.page.regions :=
    compile_eq_iff.2 ⟨_, hbase, by decide, .complete rfl⟩
  have hroot : ∀ level ∈ [layeredBase, layeredMiddle, layeredChild].dropLast,
      rootName ∉ (layered "x").regionNames level.id := by
    have hnames : (layered "x").regionNames "base" = ["b"] ∧
        (layered "x").regionNames "middle" = ["b", "a"] := ⟨by decide +kernel, by decide +kernel⟩
    simp only [List.dropLast_cons_cons, List.dropLast_singleton, List.forall_mem_cons]
    refine ⟨?_, ?_, fun level hlevel => by cases hlevel⟩
    · rw [layeredBase, hnames.1]
      decide
    · rw [layeredMiddle, hnames.2]
      decide
  have hlast : (layered "y").sources.get? layeredBase.id
      = (layered "x").sources.get? layeredBase.id := by decide +kernel
  have hbelow : ∀ level ∈ [layeredMiddle, layeredChild],
      ((layered "y").tree? level.id).map Markup.Node.bare
        = ((layered "x").tree? level.id).map Markup.Node.bare := by
    simp only [List.forall_mem_cons]
    obtain ⟨hmiddle, hchild⟩ := tree?_layered "x" (.inl rfl)
    obtain ⟨hmiddle', hchild'⟩ := tree?_layered "y" (.inr rfl)
    simp only [layeredMiddle, layeredChild, hmiddle, hchild, hmiddle', hchild']
    exact ⟨rfl, rfl, fun level hlevel => by cases hlevel⟩
  exact ⟨hcompile, hbase, rfl, hroot, hlast, hbelow,
    compile_of_bare hcompile hbase rfl hroot hlast hbelow⟩

end Stencil
