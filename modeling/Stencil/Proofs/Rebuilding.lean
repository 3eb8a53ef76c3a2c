import Mathlib.Data.List.Pairwise
import Stencil.Proofs.Isolation
import Stencil.Proofs.Resaving
import Stencil.Proofs.Rewalking

/-!
# Building again

A page comes out once more as it is where nothing has changed that its template reads, and one that
could not be saved is refused once more (`buildPage_again`). `IsSeparate` says of the disk before a
build that the output directory is apart from the templates: the walk does not get into it, and no
template reads what the build makes there. Where no links lie below the source root, this says of
the walk only that its root is not in the output directory (`isSeparate_of_isPlain`).

Main statement: `run_again`, that a second build then reports what the first one has reported, finds
the same templates, and changes nothing.
-/

namespace Stencil.Plan

open Disk

variable {plan : Plan} {disk : Disk}

/-! ## What a build adds -/

/-- A template that is built leaves a tree, which has grown. -/
theorem grows_buildPage (plan : Plan) (htree : disk.IsTree) {names : List String}
    (hpath : IsPagePath names) :
    (plan.buildPage disk names).disk.IsTree ∧
      disk.Grows (plan.buildPage disk names).disk := by
  cases hpage : plan.page disk names with
  | error failure =>
    rw [(buildPage_of_error hpage).1]
    exact ⟨htree, .refl disk⟩
  | ok regions =>
    rw [(buildPage_of_ok hpage).1]
    rcases hsave : disk.save (plan.target names) regions.root with ⟨saved, _ | failure⟩
    · obtain ⟨place, hsaved⟩ := exists_isSaved htree hpath hsave
      exact ⟨hsaved.tree, hsaved.grows⟩
    · obtain ⟨htree', hadds⟩ := addsDirectories_of_save htree hpath hsave
      exact ⟨htree', hadds.grows⟩

/-- Building pages leaves a tree and takes nothing away. -/
theorem grows_buildPages (plan : Plan) (htree : disk.IsTree) {files : List (List String)}
    (hpaths : ∀ names ∈ files, IsPagePath names) :
    (plan.buildPages disk files).1.IsTree ∧ disk.Grows (plan.buildPages disk files).1 := by
  induction files generalizing disk with
  | nil => exact ⟨htree, .refl disk⟩
  | cons names rest ih =>
    obtain ⟨htree', hgrows⟩ := grows_buildPage plan htree (hpaths names List.mem_cons_self)
    obtain ⟨htree'', hgrows'⟩ := ih htree' fun other hother =>
      hpaths other (List.mem_cons_of_mem _ hother)
    rw [(buildPages_cons disk names rest).1]
    exact ⟨htree'', hgrows.trans hgrows'⟩

/-! ## The pages once more -/

section

variable {after now later : Disk}

/-- A page that could not be saved cannot be saved again either. -/
def Refuses (plan : Plan) (after now : Disk) (names : List String) : Prop :=
  ∀ regions, plan.page now names = .ok regions →
    ∀ failure, (now.save (plan.target names) regions.root).2 = some failure →
      ∀ later, Resumes after now later → ∃ again,
        later.save (plan.target names) regions.root = (again, some failure) ∧
          Resumes after now again

/-- A template makes of the second build what it has made of the first one. -/
theorem buildPage_again (htree : now.IsTree) {names : List String} (hpath : IsPagePath names)
    (hgrows : (plan.buildPage now names).disk.Grows after) (hresumes : Resumes after now later)
    (hreads : ∀ location, Chain.Reads now (some plan.context) (plan.source names) location →
      after.get? location = now.get? location)
    (hrefuses : plan.Refuses after now names) :
    (plan.buildPage later names).failure = (plan.buildPage now names).failure ∧
      Resumes after (plan.buildPage now names).disk (plan.buildPage later names).disk := by
  have hall := (grows_buildPage plan htree hpath).2.trans hgrows
  -- The template reads nothing that the rest of the first build changed.
  have hpage : plan.page later names = plan.page now names :=
    Chain.compile_congr (hresumes.grows.working_eq.trans hall.working_eq) fun location hlooks =>
      hresumes.get?_eq (hreads location hlooks)
  cases hnow : plan.page now names with
  | error failure =>
    rw [hnow] at hpage
    obtain ⟨hdisk, hfailure⟩ := buildPage_of_error hnow
    obtain ⟨hdisk', hfailure'⟩ := buildPage_of_error hpage
    rw [hdisk, hdisk', hfailure, hfailure']
    exact ⟨rfl, hresumes⟩
  | ok regions =>
    rw [hnow] at hpage
    obtain ⟨hdisk, hfailure⟩ := buildPage_of_ok hnow
    obtain ⟨hdisk', hfailure'⟩ := buildPage_of_ok hpage
    rw [hdisk] at hgrows
    rw [hdisk, hdisk', hfailure, hfailure']
    rcases hsave : now.save (plan.target names) regions.root with ⟨next, _ | failure⟩
    · rw [hsave] at hgrows
      obtain ⟨place, hsaved⟩ := exists_isSaved htree hpath hsave
      obtain ⟨again, hagain, hnext⟩ := hresumes.save hsaved hgrows
      have hagain' : later.save (plan.target names) regions.root = (again, none) := hagain
      rw [hagain']
      exact ⟨rfl, hnext⟩
    · -- A page that could not be saved still cannot be, though directories may be new.
      obtain ⟨again, hagain, hnext⟩ := hrefuses regions hnow failure (by rw [hsave]) later hresumes
      rw [hagain]
      exact ⟨rfl, hnext.adds (addsDirectories_of_save htree hpath hsave).2⟩

/-- The second build reports what the first one has reported, and leaves the files as they are. -/
theorem buildPages_again {files : List (List String)} (htree : now.IsTree)
    (hpaths : ∀ names ∈ files, IsPagePath names) (hlast : (plan.buildPages now files).1 = after)
    (hresumes : Resumes after now later)
    (hreads : ∀ turn ∈ plan.turns now files, ∀ location,
      Chain.Reads turn.disk (some plan.context) (plan.source turn.names) location →
        after.get? location = turn.disk.get? location)
    (hrefuses : ∀ turn ∈ plan.turns now files, plan.Refuses after turn.disk turn.names) :
    (plan.buildPages later files).2.1 = (plan.buildPages now files).2.1 ∧
      Resumes after after (plan.buildPages later files).1 := by
  induction files generalizing now later with
  | nil => exact ⟨rfl, hlast ▸ hresumes⟩
  | cons names rest ih =>
    have hpath := hpaths names List.mem_cons_self
    have hrest : ∀ other ∈ rest, IsPagePath other := fun other hother =>
      hpaths other (List.mem_cons_of_mem _ hother)
    obtain ⟨hnow, hreport⟩ := @buildPages_cons plan now names rest
    obtain ⟨hlater, hreport'⟩ := @buildPages_cons plan later names rest
    have htree' := (grows_buildPage plan htree hpath).1
    have hgrows := (grows_buildPages plan htree' hrest).2
    rw [← hnow, hlast] at hgrows
    rw [turns, List.forall_mem_cons] at hreads hrefuses
    -- The first template on both disks, then the others on what it leaves.
    obtain ⟨hfailure, hnext⟩ :=
      buildPage_again htree hpath hgrows hresumes hreads.1 hrefuses.1
    obtain ⟨hsame, hend⟩ :=
      ih htree' hrest (hnow.symm.trans hlast) hnext hreads.2 hrefuses.2
    rw [hlater, hreport, hreport', hfailure, hsame]
    exact ⟨rfl, hend⟩

end

/-! ## What a build has found -/

/-- The templates that a build finds, and the trace of its walk. -/
structure Finds (plan : Plan) (disk : Disk) (glob : Glob) (files : List (List String))
    (trace : Search.Trace) : Prop where
  pattern : Glob.ofString? plan.pattern = .ok glob
  found : (disk.collect (plan.search disk glob)).1 = .ok files
  walks : (plan.search disk glob).Walks disk [] [[]] trace

/-- Once the templates are found, a run is the building of their pages. -/
theorem run_of_found {glob : Glob} {files : List (List String)}
    (hglob : Glob.ofString? plan.pattern = .ok glob)
    (hfound : (disk.collect (plan.search disk glob)).1 = .ok files) :
    (plan.run disk).1 = (plan.buildPages disk files).1 ∧
      (plan.run disk).2.1 = .ok (plan.buildPages disk files).2.1 := by
  unfold run
  rw [hglob]
  dsimp only
  cases hcollect : disk.collect (plan.search disk glob) with
  | mk found noted =>
    rw [hcollect] at hfound
    dsimp only at hfound
    rw [hfound]
    exact ⟨rfl, rfl⟩

/-! ## An output directory apart from the templates -/

section

variable {base : Disk} {mid : Position} {glob : Glob} {files : List (List String)}
  {trace : Search.Trace}

/-- The walk of a build does not get into the output directory, and no template reads anything in
it. All of this is said of the disk before the build, and of that disk with the output directory
made. -/
structure IsSeparate (plan : Plan) (disk base : Disk) (mid : Position)
    (files : List (List String)) (trace : Search.Trace) : Prop where
  /-- The output directory is there or can be made. -/
  makes : Base disk plan.outputDir base mid
  /-- It is where its path leads before the build, or it is new. -/
  known : disk.arrive plan.outputDir = .ok mid ∨ disk.get? mid.location = none
  /-- Its path has a canonical form that can be used. -/
  canonical : base.canonical? plan.outputDir = .ok mid.location
  /-- No links lie in it. -/
  plain : disk.IsPlain mid.location
  /-- No directory that the walk enters lies in it. -/
  beside : ∀ e ∈ trace.entered, ¬ mid.location <+: e.2
  /-- No file that the walk meets is a link to what only the build puts there. -/
  leaves : ∀ names ∈ trace.leaves, ∀ location, disk.Looks (plan.source names) location →
    disk.get? location = none → IsSpared disk base mid.location location
  /-- No template reads what is changed by the build. -/
  reads : ∀ names ∈ files, ∀ location,
    Chain.Reads disk (some plan.context) (plan.source names) location →
      IsSpared disk base mid.location location
  /-- The paths of directories that are made below those that the walk enters can be used. -/
  short : ∀ e ∈ trace.entered, ∀ below, disk.get? (e.2 ++ below) = none →
    base.get? (e.2 ++ below) = some .directory → IsUsable (plan.source (e.1 ++ below)) ∧
      (pathOf (e.2 ++ below)).utf8ByteSize ≤ maxPathBytes

/-- An output directory that was there has the canonical path that it has in the end. -/
theorem canonical?_of_known (hknown : disk.arrive plan.outputDir = .ok mid ∨
      disk.get? mid.location = none)
    (hcanonical : base.canonical? plan.outputDir = .ok mid.location)
    (hdirectory : disk.get? mid.location = some .directory) :
    disk.canonical? plan.outputDir = .ok mid.location := by
  obtain ⟨htext, hshort, -⟩ := canonical?_eq_ok.1 hcanonical
  rcases hknown with harrive | hnone
  · obtain ⟨hreach, hthere⟩ := enter_eq_ok.1 harrive
    exact canonical?_eq_ok.2 ⟨htext, hshort, by simp [hthere], mid, hreach, rfl⟩
  · rw [hdirectory] at hnone
    cases hnone

namespace IsSeparate

variable {after : Disk}

/-- No links lie in the output directory, so nothing is written elsewhere. -/
theorem isClear (h : plan.IsSeparate disk base mid files trace) :
    disk.IsClear plan.outputDir := by
  intro base' mid' hbase
  obtain ⟨rfl, rfl⟩ := h.makes.unique hbase
  exact h.plain

/-- What a template reads at its turn is still so when the build has come to its end. -/
theorem reads_turn (htree : disk.IsTree) (hpaths : ∀ names ∈ files, IsPagePath names)
    (hapart : files.Pairwise IsApart) (h : plan.IsSeparate disk base mid files trace)
    {turn : Turn} (hturn : turn ∈ plan.turns disk files) {location : Location}
    (hreads : Chain.Reads turn.disk (some plan.context) (plan.source turn.names) location) :
    (plan.buildPages disk files).1.get? location = turn.disk.get? location := by
  have hstage := stage_buildPages plan htree h.isClear hpaths
  obtain ⟨-, ⟨before, saved, hbefore, -⟩, -⟩ :=
    stages_of_turn htree h.isClear hpaths hapart hturn
  have hnames := names_mem_of_turn hturn
  have hreads' := hreads.of_congr (hbefore.grows htree).working_eq fun place hplace =>
    hbefore.get?_of_isSpared h.makes (h.reads turn.names hnames place hplace)
  have hspared := h.reads turn.names hnames location hreads'
  rw [hstage.get?_of_isSpared h.makes hspared,
    hbefore.get?_of_isSpared h.makes hspared]

/-- The second build leaves the output directory out. -/
theorem toOption_canonical? (hgrows : base.Grows after)
    (h : plan.IsSeparate disk base mid files trace) :
    (after.canonical? plan.outputDir).toOption = some mid.location :=
  toOption_eq_some.2 (hgrows.canonical?_ok h.canonical)

/-- So did the first one, unless it was not there. -/
theorem leftOut_iff (h : plan.IsSeparate disk base mid files trace) {location : Location}
    (hdirectory : disk.get? location = some .directory) :
    some mid.location = some location ↔
      (disk.canonical? plan.outputDir).toOption = some location := by
  rw [toOption_eq_some]
  constructor
  · rintro ⟨⟩
    exact canonical?_of_known h.known h.canonical hdirectory
  · intro hbefore
    have hmid := h.makes.adds.grows.canonical?_ok hbefore
    rw [h.canonical] at hmid
    exact congrArg some (Except.ok.inj hmid)

/-- The root of the walk is not the output directory. -/
theorem root_ne (hwalk : (plan.search disk glob).Walks disk [] [[]] trace)
    (h : plan.IsSeparate disk base mid files trace) {location : Location}
    (hroot : disk.canonical? plan.sourceRoot = .ok location) :
    (disk.canonical? plan.outputDir).toOption ≠ some location := by
  intro hout
  rw [toOption_eq_some] at hout
  obtain ⟨root, hentered⟩ := hwalk.entered_root
  have hsame := hwalk.canonical_of_entered _ hentered
  rw [show (plan.search disk glob).path [] = plan.sourceRoot from rfl] at hsame
  have hmid := h.makes.adds.grows.canonical?_ok hout
  rw [h.canonical, Except.ok.injEq] at hmid
  rw [hroot, Except.ok.injEq] at hsame
  exact h.beside _ hentered (hmid.trans hsame ▸ List.prefix_refl _)

/-- What a build makes is not in the way of a second walk. -/
theorem isUnspoiled (htree : disk.IsTree) (hpaths : ∀ names ∈ files, IsPagePath names)
    (hwalk : (plan.search disk glob).Walks disk [] [[]] trace)
    (h : plan.IsSeparate disk base mid files trace) :
    (plan.search disk glob).IsUnspoiled disk (plan.buildPages disk files).1 (some mid.location)
      trace := by
  have hstage := stage_buildPages plan htree h.isClear hpaths
  -- a directory that the walk has entered is not in the output directory, but that can be in it
  have hfront : ∀ {names : List String} {location : Location},
      (names, location) ∈ trace.entered → ∀ {below rest : List String},
      location ++ below = mid.location ++ rest →
        ∃ front, mid.location = location ++ front ∧ below = front ++ rest := by
    intro names location hentered below rest heq
    rcases List.append_eq_append_iff.1 heq with hfront | ⟨more, hmore, -⟩
    · exact hfront
    · exact absurd ⟨more, hmore.symm⟩ (h.beside _ hentered)
  refine ⟨fun names hnames => ?_, fun {names location} hentered below content hnone hfile => ?_,
    fun {names location} hentered below hnone hdirectory hkept => ?_⟩
  · refine Search.isLeaf_of_missing (hstage.grows htree) (hwalk.isLeaf names hnames)
      fun location hlooks hnone => ?_
    rw [hstage.get?_of_isSpared h.makes (h.leaves names hnames location hlooks hnone), hnone]
  · rcases hstage.new_cases h.makes hpaths hnone hfile with ⟨hno, -⟩ | ⟨rest, hrest, heq⟩
    · cases hno
    · obtain ⟨front, hmid, hbelow⟩ := hfront hentered heq
      exact ⟨front, rest, hbelow, hrest, congrArg some hmid⟩
  · rcases hstage.new_cases h.makes hpaths hnone hdirectory with ⟨-, hmade⟩ | ⟨rest, hrest, heq⟩
    · exact h.short _ hentered below hnone hmade
    · obtain ⟨front, hmid, rfl⟩ := hfront hentered heq
      refine absurd (congrArg some hmid) (hkept front (List.prefix_append ..) fun hall => hrest ?_)
      simpa using hall

/-- A page that could not be saved cannot be saved again. -/
theorem refuses (htree : disk.IsTree) (hpaths : ∀ names ∈ files, IsPagePath names)
    (hapart : files.Pairwise IsApart) (h : plan.IsSeparate disk base mid files trace)
    (hfills : Fills base mid.location files (plan.savedNames disk files)
      (plan.buildPages disk files).1) {turn : Turn} (hturn : turn ∈ plan.turns disk files) :
    plan.Refuses (plan.buildPages disk files).1 turn.disk turn.names := by
  intro regions hpage failure hfault later hresumes
  obtain ⟨hpath, ⟨before, saved, hbefore, hsub, -, -⟩, -⟩ :=
    stages_of_turn htree h.isClear hpaths hapart hturn
  have hothers : ∀ other ∈ files, other = turn.names ∨ IsApart other turn.names := by
    intro other hother
    by_cases hsame : other = turn.names
    · exact .inl hsame
    · exact .inr (hapart.forall hother (names_mem_of_turn hturn) hsame)
  have hgrows : (turn.disk.save (plan.target turn.names) regions.root).1.Grows
      (plan.buildPages disk files).1 := by
    obtain ⟨front, rest, hfiles, -, hend⟩ := exists_split_of_mem_turns hturn
    have htree' := (grows_buildPage plan (hbefore.tree htree) hpath).1
    have hrest : Grows _ (plan.buildPages _ rest).1 := (grows_buildPages plan htree'
      fun names hnames => hpaths names (by simp [hfiles, hnames])).2
    rw [← hend, (buildPage_of_ok hpage).1] at hrest
    exact hrest
  exact Resumes.save_fault htree h.isClear h.makes h.known hpath hbefore hsub hfills hothers
    hresumes (Prod.ext rfl hfault) hgrows

end IsSeparate

/-- A second build reports what the first one has reported, leaves every file as the first one has
left it, and finds the same templates, where the output directory is apart from the templates. -/
theorem run_again (htree : disk.IsTree) (hfinds : plan.Finds disk glob files trace)
    (hseparate : plan.IsSeparate disk base mid files trace) :
    (plan.run (plan.run disk).1).2.1 = (plan.run disk).2.1 ∧
      (∀ location, (plan.run (plan.run disk).1).1.get? location =
        (plan.run disk).1.get? location) ∧
      ((plan.run disk).1.collect (plan.search (plan.run disk).1 glob)).1 = .ok files := by
  have hrun := run_of_found hfinds.pattern hfinds.found
  obtain ⟨noted, hfound⟩ : ∃ noted, disk.collect (plan.search disk glob) = (.ok files, noted) :=
    ⟨_, Prod.ext hfinds.found rfl⟩
  obtain ⟨hapart, hpaths⟩ := Search.found_apart htree hfound
  have hstage := stage_buildPages plan htree hseparate.isClear hpaths
  rcases hstage.eq_or_fills hseparate.makes with hsame | hfills
  · -- a build that changes nothing is followed by the same build
    rw [← hrun.1] at hsame
    rw [hsame]
    exact ⟨rfl, fun _ => by rw [hsame], hfinds.found⟩
  obtain ⟨noted', hagain⟩ := Search.collect_again (hstage.grows htree) htree hfills.tree
    hfinds.walks (fun location => hseparate.root_ne hfinds.walks)
    (fun location => hseparate.leftOut_iff)
    (hseparate.isUnspoiled htree hpaths hfinds.walks) hfound
  rw [← hseparate.toOption_canonical? hfills.grows] at hagain
  have hagain : ((plan.buildPages disk files).1.collect
      (plan.search (plan.buildPages disk files).1 glob)).1 = .ok files :=
    congrArg Prod.fst hagain
  obtain ⟨hreport, hresumes⟩ := buildPages_again htree hpaths rfl (.start hfills.tree disk)
    (fun turn hturn location => hseparate.reads_turn htree hpaths hapart hturn)
    (fun turn => hseparate.refuses htree hpaths hapart hfills)
  have hrun' := run_of_found hfinds.pattern hagain
  rw [hrun.1, hrun.2, hrun'.1, hrun'.2, hreport]
  exact ⟨rfl, hresumes.get?_eq_of_end, hagain⟩

/-- Without links below the source root nothing more need be said of the walk than that its root is
not in the output directory. -/
theorem isSeparate_of_isPlain (htree : disk.IsTree) (hfinds : plan.Finds disk glob files trace)
    {root : Location} (hroot : disk.canonical? plan.sourceRoot = .ok root)
    (hplain : disk.IsPlain root) (hbase : Base disk plan.outputDir base mid)
    (hknown : disk.arrive plan.outputDir = .ok mid ∨ disk.get? mid.location = none)
    (hcanonical : base.canonical? plan.outputDir = .ok mid.location)
    (hclear : disk.IsPlain mid.location) (hbeside : ¬ mid.location <+: root)
    (hreads : ∀ names ∈ files, ∀ location,
      Chain.Reads disk (some plan.context) (plan.source names) location →
        IsSpared disk base mid.location location)
    (hshort : ∀ below, disk.get? (root ++ below) = none →
      base.get? (root ++ below) = some .directory → IsUsable (plan.source below) ∧
        (pathOf (root ++ below)).utf8ByteSize ≤ maxPathBytes) :
    plan.IsSeparate disk base mid files trace := by
  have hsearch : disk.canonical? (plan.search disk glob).root = .ok root := hroot
  have hleft : disk.get? mid.location = some .directory →
      (plan.search disk glob).leftOut = some mid.location := fun hdirectory =>
    toOption_eq_some.2 (canonical?_of_known hknown hcanonical hdirectory)
  -- Without links the walk stays below its root, where what it enters and meets has its own path.
  refine ⟨hbase, hknown, hcanonical, hclear, fun e he => ?_,
    fun names hnames location hlooks hnone => ?_, hreads, ?_⟩
  · exact Search.not_prefix_of_entered htree hsearch hplain hfinds.walks hbeside hleft he
  · have hsome := Search.isSome_of_looks htree hsearch hplain hfinds.walks hnames hlooks
    rw [hnone] at hsome
    cases hsome
  · rintro ⟨names, location⟩ he below
    obtain rfl := Search.location_of_entered htree hsearch hplain hfinds.walks he
    rw [List.append_assoc]
    exact hshort (names ++ below)

end

/-! ## A page next to its template -/

/-- A disk with one template. -/
def nest : Disk where
  entries := [(["src"], .directory), (["src", "a.html"], .file "A".toUTF8)]
  working := []

/-- The plan to build its page in a directory beside it. -/
def nestPlan : Plan := ⟨"/src", "*.html", "/src/out", ∅⟩

/-- The disk with the page. -/
def nestBuilt : Disk where
  entries := [(["src"], .directory), (["src", "a.html"], .file "A".toUTF8),
    (["src", "out"], .directory), (["src", "out", "a.html"], .file "A".toUTF8)]
  working := []

/-- The disk with the output directory. -/
def nestBase : Disk := nest.put ["src", "out"] .directory

/-- The walk of the first build. -/
def nestTrace : Search.Trace := { leaves := [["a.html"]], entered := [([], ["src"])] }

theorem isTree_nest : nest.IsTree where
  nodup := by decide
  inside := by decide
  working := rfl

/-- The template is found. -/
theorem finds_nest : nestPlan.Finds nest siteGlob [["a.html"]] nestTrace := by
  have hroot : (nestPlan.search nest siteGlob).turn nest [] [] = .enters ["src"] ["a.html"] := by
    cbv
  have hlocate : nest.locate? false "/src/a.html" = .ok ["src", "a.html"] := by cbv
  have hleaf := Search.turn_of_isLeaf (@Search.isLeaf_of_locate? (nestPlan.search nest siteGlob)
    nest ["a.html"] _ (by simp) hlocate (by decide)) [["src"]]
  have hwalk := Search.Walks.enters hroot (.leaf hleaf (.done _))
  have hkeep : (nestPlan.search nest siteGlob).keep ["a.html"] = true := by cbv
  refine ⟨glob_site, ?_, hwalk⟩
  rw [hwalk.collect_eq]
  simp [hkeep]

/-- It has no parent. -/
theorem climbs_nest : ∃ page, page.parent = none ∧ page.regions.root = "A" ∧
    Chain.Climbs nest.library (some nestPlan.context) (nestPlan.source ["a.html"])
      [⟨pathOf ["src", "a.html"], page⟩] := by
  have hcanonical : nest.canonical? "/src/a.html" = .ok ["src", "a.html"] := by cbv
  obtain ⟨node, hparse, page, hrender, hparent, hroot⟩ : ∃ node, Markup.parse "A" = .ok node ∧
      ∃ page, interpret node ⟨some ∅, none⟩ = .ok page ∧ page.parent = none ∧
        page.regions.root = "A" :=
    ⟨_, by cbv, _, by cbv, rfl, rfl⟩
  exact ⟨page, hparent, hroot, Chain.climbs_first hcanonical (by cbv) hparse hrender⟩

/-- It compiles. -/
theorem page_nest :
    ∃ regions, nestPlan.page nest ["a.html"] = .ok regions ∧ regions.root = "A" := by
  obtain ⟨page, hparent, hroot, hclimbs⟩ := climbs_nest
  exact ⟨_, Chain.compile_eq_iff.2 ⟨_, hclimbs, by simp [Chain.ids], .complete hparent⟩, hroot⟩

/-- Its page is written below the source directory. -/
theorem save_nest : nest.save (nestPlan.target ["a.html"]) "A" = (nestBuilt, none) := by
  have hparent : (Path.ofString "/src/out/a.html").parent? = some ⟨.root, ["out", "src"]⟩ := by
    cbv
  have hcreate : nest.create? "/src/out" .directory =
      .ok (nest.put ["src", "out"] .directory) := by cbv
  have hwrite : (nest.put ["src", "out"] .directory).write? "/src/out/a.html" "A".toUTF8 =
      .ok nestBuilt := by cbv
  exact save_of_makeDirectories hparent (makeDirectories_of_create? (by decide) hcreate) hwrite

/-- This is all that the build does. -/
theorem run_nest : (nestPlan.run nest).1 = nestBuilt := by
  obtain ⟨regions, hpage, hroot⟩ := page_nest
  have hdisk := (buildPage_of_ok hpage).1
  rw [hroot, save_nest] at hdisk
  rw [(run_of_found finds_nest.pattern finds_nest.found).1, (buildPages_cons _ _ _).1, hdisk]
  rfl

/-- There are no links. -/
theorem isPlain_nest (location : Location) : nest.IsPlain location := by
  intro below target
  simp only [Disk.get?, nest, List.lookup]
  grind

/-- The template looks only at itself and the directories above it. -/
theorem spared_nest {location : Location}
    (h : Chain.Reads nest (some nestPlan.context) (nestPlan.source ["a.html"]) location) :
    IsSpared nest nestBase ["src", "out"] location := by
  obtain ⟨page, hparent, -, hclimbs⟩ := climbs_nest
  have hlooks : nest.Looks "/src/a.html" location :=
    (h.looks_of_complete hclimbs hparent).elim id id
  have hparts : leading (partsOf "/src/a.html".toList) = ["src", "a.html"] := by cbv
  obtain ⟨front, hfront, heq⟩ :=
    prefix_of_visits (isPlain_nest _) (by rw [hparts]; decide) hlooks
  rw [hparts, ← List.mem_inits] at hfront
  have hcases : front = [] ∨ front = ["src"] ∨ front = ["src", "a.html"] := by
    simpa [List.inits] using hfront
  rw [show location = front from heq]
  rcases hcases with rfl | rfl | rfl
  · exact .inl rfl
  · exact .inl rfl
  · exact .inr ⟨rfl, by decide⟩

/-- The disk with the output directory made. -/
theorem base_nest : Base nest nestPlan.outputDir nestBase ⟨maxLinks, ["src", "out"]⟩ := by
  have hspot : spot "/src/out" [] = ⟨.root, ["out", "src"]⟩ := by cbv
  have hcreate : nest.create? "/src/out" .directory = .ok nestBase := by cbv
  have hmade : nest.makeDirectories (spot "/src/out" []) = (nestBase, none) := by
    rw [hspot]
    exact makeDirectories_of_create? (by decide) hcreate
  obtain ⟨mid, hbase⟩ := exists_base isTree_nest hmade
  have harrive : nestBase.arrive "/src/out" = .ok ⟨maxLinks, ["src", "out"]⟩ := by cbv
  have hmid := hbase.arrive
  rw [harrive, Except.ok.injEq] at hmid
  exact hmid ▸ hbase

/-- No links are in the way, and the template does not read the output directory. -/
theorem isSeparate_nest :
    nestPlan.IsSeparate nest nestBase ⟨maxLinks, ["src", "out"]⟩ [["a.html"]] nestTrace := by
  have hroot : nest.canonical? "/src" = .ok ["src"] := by cbv
  have hcanonical : nestBase.canonical? "/src/out" = .ok ["src", "out"] := by cbv
  have hnew : nest.get? ["src", "out"] = none := rfl
  refine isSeparate_of_isPlain isTree_nest finds_nest hroot (isPlain_nest _) base_nest
    (.inr hnew) hcanonical (isPlain_nest _) (by decide) ?_ ?_
  · intro names hnames location hreads
    rw [List.mem_singleton.1 hnames] at hreads
    exact spared_nest hreads
  · intro below hnone hdirectory
    rw [nestBase, get?_put nest (by simp)] at hdirectory
    by_cases hnew : ["src"] ++ below = ["src", "out"]
    · obtain rfl : below = ["out"] := by simpa using hnew
      decide
    · rw [if_neg hnew, hnone] at hdirectory
      cases hdirectory

/-- A page that is built beside its template is not found by the next build. -/
theorem run_again_nest :
    nest.IsTree ∧ nestPlan.Finds nest siteGlob [["a.html"]] nestTrace ∧
      nestPlan.IsSeparate nest nestBase ⟨maxLinks, ["src", "out"]⟩ [["a.html"]] nestTrace ∧
      (nestPlan.run nest).1 = nestBuilt ∧
      (nestPlan.run nestBuilt).2.1 = (nestPlan.run nest).2.1 ∧
      (∀ location, (nestPlan.run nestBuilt).1.get? location = nestBuilt.get? location) := by
  obtain ⟨hreport, hfiles, -⟩ := run_again isTree_nest finds_nest isSeparate_nest
  rw [run_nest] at hreport hfiles
  exact ⟨isTree_nest, finds_nest, isSeparate_nest, run_nest, hreport, hfiles⟩

end Stencil.Plan
