import Mathlib
import Stencil.Proofs.Looking
import Stencil.Proofs.Walking

/-!
# Pages built side by side

A build compiles one template after the other, each on the disk that the pages before it have left.
`turns` lists the templates with these disks. Where no template reads what the build has made before
its turn, each page comes out as if it were built alone on the disk as it was before
(`page_turn`, `builds_turn`), and a whole build is a map from the templates to their pages: `IsMap`.
-/

namespace Stencil.Plan

open Disk

variable {plan : Plan} {disk : Disk}

/-! ## Turns -/

/-- The path of a template. -/
def source (plan : Plan) (names : List String) : String := pathBelow plan.sourceRoot names

/-- The path of a page. -/
def target (plan : Plan) (names : List String) : String := pathBelow plan.outputDir names

/-- What a template compiles to. -/
def page (plan : Plan) (disk : Disk) (names : List String) : Except Failure Regions :=
  (disk.library.compile (plan.source names) (some plan.context)).1

/-- Whether a template compiles, the directories above its page can be made, and the page can be
written there. -/
def builds (plan : Plan) (disk : Disk) (names : List String) : Bool :=
  match plan.page disk names with
  | .ok regions => disk.takes (plan.target names) regions.root
  | .error _ => false

/-- A template that does not compile leaves the disk as it is. -/
theorem buildPage_of_error {names : List String} {failure : Failure}
    (h : plan.page disk names = .error failure) :
    (plan.buildPage disk names).disk = disk ∧
      (plan.buildPage disk names).failure = some failure := by
  unfold page source at h
  unfold buildPage
  split <;> rename_i hcompile <;> rw [hcompile] at h
  · exact ⟨rfl, congrArg some (Except.error.inj h)⟩
  · cases h

/-- A template that compiles has its page saved. -/
theorem buildPage_of_ok {names : List String} {regions : Regions}
    (h : plan.page disk names = .ok regions) :
    (plan.buildPage disk names).disk = (disk.save (plan.target names) regions.root).1 ∧
      (plan.buildPage disk names).failure = (disk.save (plan.target names) regions.root).2 := by
  unfold page source at h
  unfold buildPage
  split <;> rename_i hcompile <;> rw [hcompile] at h
  · cases h
  · rw [Except.ok.inj h]
    exact ⟨rfl, rfl⟩

/-- A template builds if its turn ends without a failure. -/
theorem builds_eq (disk : Disk) (names : List String) :
    plan.builds disk names = (plan.buildPage disk names).failure.isNone := by
  unfold builds
  cases hpage : plan.page disk names with
  | error failure => rw [(buildPage_of_error hpage).2]; rfl
  | ok regions => rw [(buildPage_of_ok hpage).2, ← takes_eq_isNone]

/-- A template that is about to be built, and the disk as it then is. -/
structure Turn where
  disk : Disk
  names : List String

/-- The turns of a build. -/
def turns (plan : Plan) (disk : Disk) : List (List String) → List Turn
  | [] => []
  | names :: rest => ⟨disk, names⟩ :: plan.turns (plan.buildPage disk names).disk rest

/-- Every template has one turn, in order. -/
theorem map_names_turns (disk : Disk) (files : List (List String)) :
    (plan.turns disk files).map (·.names) = files := by
  induction files generalizing disk with
  | nil => rfl
  | cons names rest ih => exact congrArg (names :: ·) (ih _)

/-- The template of a turn is one of those that are built. -/
theorem names_mem_of_turn {files : List (List String)} {turn : Turn}
    (h : turn ∈ plan.turns disk files) : turn.names ∈ files :=
  @map_names_turns plan disk files ▸ List.mem_map_of_mem h

/-- The later pages are built on the disk that the first one leaves. -/
theorem buildPages_cons (disk : Disk) (names : List String) (rest : List (List String)) :
    (plan.buildPages disk (names :: rest)).1 =
        (plan.buildPages (plan.buildPage disk names).disk rest).1 ∧
      (plan.buildPages disk (names :: rest)).2.1 =
        let report := (plan.buildPages (plan.buildPage disk names).disk rest).2.1
        match (plan.buildPage disk names).failure with
        | none => { report with written := plan.target names :: report.written }
        | some failure =>
          { report with failed := (plan.source names, failure) :: report.failed } := by
  rw [buildPages]
  dsimp only
  cases (plan.buildPage disk names).failure <;> exact ⟨rfl, rfl⟩

/-- The pages that are written, and the templates that fail, are those of the turns. -/
theorem report_buildPages (disk : Disk) (files : List (List String)) :
    (plan.buildPages disk files).2.1.written =
        ((plan.turns disk files).filter fun turn => plan.builds turn.disk turn.names).map
          (plan.target ·.names) ∧
      (plan.buildPages disk files).2.1.failed =
        (plan.turns disk files).filterMap fun turn =>
          (plan.buildPage turn.disk turn.names).failure.map (plan.source turn.names, ·) := by
  induction files generalizing disk with
  | nil => exact ⟨rfl, rfl⟩
  | cons names rest ih =>
    obtain ⟨hwritten, hfailed⟩ := ih (plan.buildPage disk names).disk
    rw [(buildPages_cons disk names rest).2, turns]
    dsimp only
    cases hfailure : (plan.buildPage disk names).failure with
    | none =>
      rw [List.filter_cons_of_pos (by simp [builds_eq, hfailure]),
        List.filterMap_cons_none (by simp [hfailure])]
      exact ⟨congrArg (plan.target names :: ·) hwritten, hfailed⟩
    | some failure =>
      rw [List.filter_cons_of_neg (by simp [builds_eq, hfailure]),
        List.filterMap_cons_some (b := (plan.source names, failure)) (by simp [hfailure])]
      exact ⟨hwritten, congrArg ((plan.source names, failure) :: ·) hfailed⟩

/-- A turn splits a build into what comes before it and what comes after it. -/
theorem exists_split_of_mem_turns {files : List (List String)} {turn : Turn}
    (h : turn ∈ plan.turns disk files) :
    ∃ before rest, files = before ++ turn.names :: rest ∧
      turn.disk = (plan.buildPages disk before).1 ∧
      (plan.buildPages disk files).1 =
        (plan.buildPages (plan.buildPage turn.disk turn.names).disk rest).1 := by
  induction files generalizing disk with
  | nil => cases h
  | cons names rest ih =>
    rcases List.mem_cons.1 h with rfl | h
    · exact ⟨[], rest, rfl, rfl, (buildPages_cons disk names rest).1⟩
    · obtain ⟨before, after, hfiles, hdisk, hafter⟩ := ih h
      refine ⟨names :: before, after, by rw [hfiles]; rfl, ?_, ?_⟩
      · rw [hdisk, (buildPages_cons disk names before).1]
      · rw [(buildPages_cons disk names rest).1, hafter]

/-! ## What a turn does -/

/-- One page is one stage of filling the output directory. -/
theorem stage_buildPage (plan : Plan) (htree : disk.IsTree) (hclear : disk.IsClear plan.outputDir)
    {names : List String} (hpath : IsPagePath names) :
    Stage disk plan.outputDir [names] (savedOf names (plan.buildPage disk names).failure)
      (plan.buildPage disk names).disk := by
  cases hpage : plan.page disk names with
  | error failure =>
    rw [(buildPage_of_error hpage).1]
    exact .same
  | ok regions =>
    obtain ⟨hdisk, hfailure⟩ := buildPage_of_ok hpage
    rw [hdisk, hfailure]
    exact stage_save htree hclear hpath regions.root

/-- The names of the pages that a build writes. -/
def savedNames (plan : Plan) (disk : Disk) (files : List (List String)) : List (List String) :=
  ((plan.turns disk files).filter fun turn => plan.builds turn.disk turn.names).map (·.names)

/-- The first page is saved on the disk as it is, the others on what it leaves. -/
theorem savedNames_cons (disk : Disk) (names : List String) (rest : List (List String)) :
    plan.savedNames disk (names :: rest) =
      savedOf names (plan.buildPage disk names).failure ++
        plan.savedNames (plan.buildPage disk names).disk rest := by
  unfold savedNames savedOf
  rw [turns]
  by_cases hbuilds : (plan.buildPage disk names).failure.isNone = true
  · rw [if_pos hbuilds, List.filter_cons_of_pos (by simpa [builds_eq] using hbuilds)]
    rfl
  · rw [if_neg hbuilds, List.filter_cons_of_neg (by simpa [builds_eq] using hbuilds)]
    rfl

/-- Only pages of templates are saved. -/
theorem savedNames_subset (disk : Disk) (files : List (List String)) :
    plan.savedNames disk files ⊆ files := by
  have hsub : plan.savedNames disk files ⊆ (plan.turns disk files).map (·.names) :=
    List.map_subset _ List.filter_sublist.subset
  rwa [map_names_turns] at hsub

/-- A build takes a disk from stage to stage. -/
theorem stage_buildPages (plan : Plan) (htree : disk.IsTree) (hclear : disk.IsClear plan.outputDir)
    {files : List (List String)} (hpaths : ∀ names ∈ files, IsPagePath names) :
    Stage disk plan.outputDir files (plan.savedNames disk files)
      (plan.buildPages disk files).1 := by
  induction files generalizing disk with
  | nil => exact .same
  | cons names rest ih =>
    have hfirst := stage_buildPage plan htree hclear (hpaths names List.mem_cons_self)
    have hrest := ih (hfirst.tree htree) (hfirst.isClear htree hclear) fun other hother =>
      hpaths other (List.mem_cons_of_mem _ hother)
    rw [(buildPages_cons disk names rest).1, savedNames_cons]
    exact hfirst.trans htree hrest (savedOf_subset names _) (savedNames_subset _ rest)

/-! ## Pages apart -/

/-- Whatever the templates of a build read is as it was before the build. -/
def Undisturbed (plan : Plan) (disk : Disk) (files : List (List String)) : Prop :=
  ∀ turn ∈ plan.turns disk files, ∀ location,
    Chain.Reads turn.disk (some plan.context) (plan.source turn.names) location →
      (turn.disk.get? location).isSome → turn.disk.get? location = disk.get? location

section

variable {files : List (List String)} (htree : disk.IsTree)
  (hclear : disk.IsClear plan.outputDir) (hpaths : ∀ names ∈ files, IsPagePath names)
  (hundisturbed : plan.Undisturbed disk files) {turn : Turn}

include htree hclear hpaths in
/-- Before a turn some of the other pages have been built, and the rest is built behind it. -/
theorem stages_of_turn (hapart : files.Pairwise IsApart) (hturn : turn ∈ plan.turns disk files) :
    IsPagePath turn.names ∧
      (∃ before saved, Stage disk plan.outputDir before saved turn.disk ∧ before ⊆ files ∧
        saved ⊆ before ∧ ∀ other ∈ before, IsApart other turn.names) ∧
      ∃ rest saved, Stage (plan.buildPage turn.disk turn.names).disk plan.outputDir rest saved
        (plan.buildPages disk files).1 ∧ rest ⊆ files ∧ saved ⊆ rest ∧
        ∀ other ∈ rest, IsApart turn.names other := by
  obtain ⟨before, rest, rfl, hdisk, hafter⟩ := exists_split_of_mem_turns hturn
  have hpath := hpaths turn.names (by simp)
  obtain ⟨-, hrest, hbefore⟩ := List.pairwise_append.1 hapart
  have hstage : Stage disk plan.outputDir before _ _ := stage_buildPages plan htree hclear
    fun names hnames => hpaths names (by simp [hnames])
  rw [← hdisk] at hstage
  have htree' := hstage.tree htree
  have hclear' := hstage.isClear htree hclear
  have hpage := stage_buildPage plan htree' hclear' hpath
  have hlast : Stage _ plan.outputDir rest _ _ := stage_buildPages plan (hpage.tree htree')
    (hpage.isClear htree' hclear') fun names hnames => hpaths names (by simp [hnames])
  refine ⟨hpath, ⟨before, _, hstage, List.subset_append_left .., savedNames_subset .., ?_⟩,
    rest, _, hafter ▸ hlast, ?_, savedNames_subset .., (List.pairwise_cons.1 hrest).1⟩
  · exact fun other hother => hbefore other hother turn.names List.mem_cons_self
  · exact fun names hnames => by simp [hnames]

include hundisturbed in
/-- A template compiles at its turn as it would before the build. -/
theorem page_turn (hturn : turn ∈ plan.turns disk files) (hgrows : disk.Grows turn.disk) :
    plan.page turn.disk turn.names = plan.page disk turn.names := by
  refine (Chain.compile_congr hgrows.working_eq.symm fun location hreads => ?_).symm
  cases hentry : turn.disk.get? location with
  | none => exact hgrows.eq_none hentry
  | some entry => rw [← hundisturbed turn hturn location hreads (by simp [hentry]), hentry]

include htree hclear hpaths hundisturbed in
/-- A page is built at its turn when it would be built on the disk before the build. -/
theorem builds_turn (hapart : files.Pairwise IsApart) (hturn : turn ∈ plan.turns disk files) :
    plan.builds turn.disk turn.names = plan.builds disk turn.names := by
  obtain ⟨hpath, ⟨before, saved, hstage, -, -, hbefore⟩, -⟩ :=
    stages_of_turn htree hclear hpaths hapart hturn
  unfold builds
  rw [page_turn hundisturbed hturn (hstage.grows htree)]
  cases plan.page disk turn.names with
  | error failure => rfl
  | ok regions =>
    dsimp only
    rw [takes_eq_isNone, takes_eq_isNone, Bool.eq_iff_iff, Option.isNone_iff_eq_none,
      Option.isNone_iff_eq_none]
    exact hstage.save_eq_none_iff htree hclear hpath hbefore regions.root

include htree hclear hpaths hundisturbed in
/-- The pages that are saved are those that could be built alone. -/
theorem savedNames_eq (hapart : files.Pairwise IsApart) :
    plan.savedNames disk files = files.filter (plan.builds disk) := by
  have hsame : (plan.turns disk files).filter (fun turn => plan.builds turn.disk turn.names) =
      (plan.turns disk files).filter fun turn => plan.builds disk turn.names :=
    List.filter_congr fun turn hturn => builds_turn htree hclear hpaths hundisturbed hapart hturn
  have hfiles := @map_names_turns plan disk files
  unfold savedNames
  rw [hsame]
  conv_rhs => rw [← hfiles, List.filter_map]
  rfl

end

/-- The templates that fail at their turns are reported one by one. -/
theorem forall₂_failed {turns : List Turn} {built : List String → Bool}
    {R : List String → String × Failure → Prop}
    (hbuilt : ∀ turn ∈ turns, plan.builds turn.disk turn.names = built turn.names)
    (hreason : ∀ turn ∈ turns, ∀ failure, (plan.buildPage turn.disk turn.names).failure =
      some failure → R turn.names (plan.source turn.names, failure)) :
    List.Forall₂ R ((turns.map (·.names)).filter (!built ·))
      (turns.filterMap fun turn =>
        (plan.buildPage turn.disk turn.names).failure.map (plan.source turn.names, ·)) := by
  induction turns with
  | nil => exact .nil
  | cons turn rest ih =>
    have hrest := ih (fun other hother => hbuilt other (List.mem_cons_of_mem _ hother))
      fun other hother => hreason other (List.mem_cons_of_mem _ hother)
    have hhere := hbuilt turn List.mem_cons_self
    rw [builds_eq] at hhere
    rw [List.map_cons]
    -- A template fails exactly where nothing is built, so both lists drop the same turns.
    cases hfailure : (plan.buildPage turn.disk turn.names).failure with
    | none =>
      rw [hfailure] at hhere
      rw [List.filter_cons_of_neg (by simp [← hhere]),
        List.filterMap_cons_none (by simp [hfailure])]
      exact hrest
    | some failure =>
      rw [hfailure] at hhere
      rw [List.filter_cons_of_pos (by simp [← hhere]),
        List.filterMap_cons_some (b := (plan.source turn.names, failure)) (by simp [hfailure])]
      exact .cons (hreason turn List.mem_cons_self failure hfailure) hrest

/-! ## A whole build -/

/-- The report of a build and the disk behind it, where every page comes out as if it were built
alone on the disk before. -/
structure IsMap (plan : Plan) (disk : Disk) (files : List (List String)) (report : Report)
    (after : Disk) : Prop where
  written : report.written = (files.filter (plan.builds disk)).map plan.target
  failed : List.Forall₂ (fun names entry => entry.1 = plan.source names ∧
      ∀ failure, plan.page disk names = .error failure → entry.2 = failure)
    (files.filter (!plan.builds disk ·)) report.failed
  text : ∀ names ∈ files, plan.builds disk names = true →
    ∀ regions, plan.page disk names = .ok regions →
      after.readText? (plan.target names) = .ok regions.root
  /-- The place of a page that is not built holds the file that it held before, or none. -/
  kept {base : Disk} {mid : Position} (hbase : Base disk plan.outputDir base mid) :
    ∀ names ∈ files, plan.builds disk names = false → ∀ content,
      after.get? (mid.location ++ names) = some (.file content) ↔
        disk.get? (mid.location ++ names) = some (.file content)
  /-- Besides the pages there are at most new directories. -/
  frame (place : Location) : after.get? place = disk.get? place ∨
    (disk.get? place = none ∧ after.get? place = some .directory) ∨
    ∃ base mid, Base disk plan.outputDir base mid ∧
      ∃ names ∈ files, plan.builds disk names = true ∧ place = mid.location ++ names

section

variable {files : List (List String)} (htree : disk.IsTree)
  (hclear : disk.IsClear plan.outputDir) (hpaths : ∀ names ∈ files, IsPagePath names)
  (hapart : files.Pairwise IsApart) (hundisturbed : plan.Undisturbed disk files)

include htree hclear hpaths hapart hundisturbed

/-- The text of a page that is built is there when the build has come to its end. -/
theorem text_buildPages {names : List String} (hnames : names ∈ files)
    (hbuilds : plan.builds disk names = true) {regions : Regions}
    (hpage : plan.page disk names = .ok regions) :
    (plan.buildPages disk files).1.readText? (plan.target names) = .ok regions.root := by
  rw [← @map_names_turns plan disk files] at hnames
  obtain ⟨turn, hturn, rfl⟩ := List.mem_map.1 hnames
  obtain ⟨hpath, ⟨before, saved, hbefore, -⟩, rest, later, hrest, -, hlater, happart⟩ :=
    stages_of_turn htree hclear hpaths hapart hturn
  have hcompiled := page_turn hundisturbed hturn (hbefore.grows htree)
  rw [hpage] at hcompiled
  rw [← builds_turn htree hclear hpaths hundisturbed hapart hturn, builds_eq,
    Option.isNone_iff_eq_none] at hbuilds
  obtain ⟨hdisk, hfailure⟩ := buildPage_of_ok hcompiled
  rw [hfailure] at hbuilds
  obtain ⟨-, mid, -, hbase, husable, hfile⟩ := page_of_save (hbefore.tree htree)
    (hbefore.isClear htree hclear) hpath (Prod.ext rfl hbuilds)
  rw [hdisk] at hrest
  have hfills := hrest.fills hbase hlater
  have hkept := hfills.get?_of_apart happart
  exact (hbase.again hfills.tree hfills.grows).readText? hpath husable (hkept.trans hfile)

/-- Every page of a build comes out as if it were built alone. -/
theorem isMap_buildPages :
    plan.IsMap disk files (plan.buildPages disk files).2.1 (plan.buildPages disk files).1 := by
  obtain ⟨hwritten, hfailed⟩ := @report_buildPages plan disk files
  have hsaved := savedNames_eq htree hclear hpaths hundisturbed hapart
  have hstage := stage_buildPages plan htree hclear hpaths
  rw [hsaved] at hstage
  -- In this order: the pages written, the failures, the texts, what is kept, and the rest of the
  -- disk.
  refine ⟨?_, ?_, fun names hnames hbuilds regions hpage => ?_,
    fun {base mid} hbase names hnames hno content => ?_, fun place => ?_⟩
  · rw [hwritten, ← hsaved, savedNames, List.map_map]
    rfl
  · have hturns : List.Forall₂ (fun names (entry : String × Failure) =>
        entry.1 = plan.source names ∧
          ∀ failure, plan.page disk names = .error failure → entry.2 = failure)
        (((plan.turns disk files).map (·.names)).filter (!plan.builds disk ·)) _ :=
      forall₂_failed (fun turn => builds_turn htree hclear hpaths hundisturbed hapart)
        fun turn hturn failure hfailure => by
          refine ⟨rfl, fun reason hreason => ?_⟩
          obtain ⟨-, ⟨before, saved, hbefore, -⟩, -⟩ :=
            stages_of_turn htree hclear hpaths hapart hturn
          rw [← page_turn hundisturbed hturn (hbefore.grows htree)] at hreason
          rw [(buildPage_of_error hreason).2, Option.some.injEq] at hfailure
          exact hfailure.symm
    rw [map_names_turns] at hturns
    rw [hfailed]
    exact hturns
  · exact text_buildPages htree hclear hpaths hapart hundisturbed hnames hbuilds hpage
  · refine hstage.file_iff htree hbase (fun hmem => ?_) content
    rw [(List.mem_filter.1 hmem).2] at hno
    cases hno
  · refine (hstage.frame htree place).imp id (.imp id ?_)
    rintro ⟨base, mid, hbase, names, hnames, heq⟩
    obtain ⟨hmem, hbuilds⟩ := List.mem_filter.1 hnames
    exact ⟨base, mid, hbase, names, hmem, hbuilds, heq⟩

end

/-- A text is saved where the directory above it can be made and the text be written behind that. -/
theorem save_of_makeDirectories {made saved : Disk} {path text : String} {parent : Path}
    (hparent : (Path.ofString path).parent? = some parent)
    (hmake : disk.makeDirectories parent = (made, none))
    (hwrite : made.write? path text.toUTF8 = .ok saved) : disk.save path text = (saved, none) := by
  unfold save
  rw [hparent]
  dsimp only
  rw [hmake]
  dsimp only
  rw [hwrite]

/-- A directory whose parent is there is made at once. -/
theorem makeDirectories_of_create? {made : Disk} {path : Path} (hne : path.text ≠ "")
    (hcreate : disk.create? path.text .directory = .ok made) :
    disk.makeDirectories path = (made, none) := by
  rw [makeDirectories, if_neg hne]
  split
  · rename_i hnone _
    rw [hcreate] at hnone
    cases hnone
  · rw [ensureDirectory, hcreate]

/-- A disk with two templates, the first of which is no text. -/
def site : Disk where
  entries := [(["src"], .directory), (["src", "a.html"], .file ⟨#[255]⟩),
    (["src", "b.html"], .file "B".toUTF8)]
  working := []

/-- The plan to build its pages. -/
def sitePlan : Plan := ⟨"/src", "*.html", "/out", ∅⟩

/-- The glob of the plan. -/
def siteGlob : Glob :=
  ⟨[.run, .literal '.', .literal 'h', .literal 't', .literal 'm', .literal 'l']⟩

theorem isTree_site : site.IsTree where
  nodup := by decide
  inside := by decide
  working := rfl

/-- No links lie in the output directory. -/
theorem isClear_site : site.IsClear sitePlan.outputDir := by
  intro base mid _ names target
  simp only [Disk.get?, site, List.lookup]
  grind

/-- The first template cannot be loaded. -/
theorem page_first_site :
    sitePlan.page site ["a.html"] = .error (.disk "/src/a.html" Fault.notText.message) := by
  have hcanonical : site.canonical? "/src/a.html" = .ok ["src", "a.html"] := by cbv
  have hresolve : site.library.resolve none "/src/a.html" = .ok "/src/a.html" := by
    change site.resolve none _ = _
    unfold Disk.resolve
    simp only [show candidate none "/src/a.html" = "/src/a.html" from rfl, hcanonical]
    rfl
  have hload : site.library.load "/src/a.html" =
      .error (.disk "/src/a.html" Fault.notText.message) := by
    change site.load _ = _
    cbv
  unfold page Library.compile
  rw [show sitePlan.source ["a.html"] = "/src/a.html" from rfl, hresolve]
  dsimp only
  rw [Chain.climb, Chain.page, hload]
  rfl

/-- The second one compiles. -/
theorem page_second_site :
    ∃ regions, sitePlan.page site ["b.html"] = .ok regions ∧ regions.root = "B" := by
  have hcanonical : site.canonical? "/src/b.html" = .ok ["src", "b.html"] := by cbv
  obtain ⟨node, hparse, top, hrender, hlast, hroot⟩ : ∃ node, Markup.parse "B" = .ok node ∧
      ∃ top, interpret node ⟨some ∅, none⟩ = .ok top ∧ top.parent = none ∧
        top.regions.root = "B" :=
    ⟨_, by cbv, _, by cbv, rfl, rfl⟩
  exact ⟨top.regions, Chain.compile_eq_iff.2 ⟨_,
    Chain.climbs_first hcanonical (by cbv) hparse hrender, by simp [Chain.ids],
      .complete hlast⟩, hroot⟩

/-- The page of the second one can be written, and that of the first one cannot. -/
theorem builds_site :
    sitePlan.builds site ["a.html"] = false ∧ sitePlan.builds site ["b.html"] = true := by
  obtain ⟨regions, hpage, hroot⟩ := page_second_site
  constructor
  · rw [builds, page_first_site]
  have hparent : (Path.ofString "/out/b.html").parent? = some ⟨.root, ["out"]⟩ := by cbv
  have hcreate : site.create? "/out" .directory = .ok (site.put ["out"] .directory) := by cbv
  have hmake : site.makeDirectories ⟨.root, ["out"]⟩ = (site.put ["out"] .directory, none) :=
    makeDirectories_of_create? (by decide) hcreate
  have hwrite : ∃ written, (site.put ["out"] .directory).write? "/out/b.html" "B".toUTF8 =
      .ok written := ⟨_, by cbv⟩
  obtain ⟨written, hwrite⟩ := hwrite
  have htakes : site.takes "/out/b.html" "B" = true := by
    rw [takes_eq_isNone, save_of_makeDirectories hparent hmake hwrite]
    rfl
  rw [builds, hpage]
  dsimp only
  rw [hroot]
  exact htakes

/-- The first template leaves the disk to the second one as it is. -/
theorem turns_site : sitePlan.turns site [["a.html"], ["b.html"]] =
    [⟨site, ["a.html"]⟩, ⟨site, ["b.html"]⟩] := by
  simp only [turns, (buildPage_of_error page_first_site).1]

/-- The pattern of the plan is a glob. -/
theorem glob_site : Glob.ofString? sitePlan.pattern = .ok siteGlob := by cbv

/-- Both templates are found. -/
theorem collect_site : site.collect (sitePlan.search site siteGlob) =
    (.ok [["a.html"], ["b.html"]], []) := by
  have hroot : (sitePlan.search site siteGlob).turn site [] [] =
      .enters ["src"] ["b.html", "a.html"] := by cbv
  have hleaf : ∀ name ∈ ["a.html", "b.html"],
      (sitePlan.search site siteGlob).isLeaf site [name] = true := by
    intro name hname
    have ha : site.locate? false "/src/a.html" = .ok ["src", "a.html"] := by cbv
    have hb : site.locate? false "/src/b.html" = .ok ["src", "b.html"] := by cbv
    rcases List.mem_pair.1 hname with rfl | rfl
    · exact Search.isLeaf_of_locate? (by simp) ha (by decide)
    · exact Search.isLeaf_of_locate? (by simp) hb (by decide)
  have hkeep : [["b.html"], ["a.html"]].filter (sitePlan.search site siteGlob).keep =
      [["b.html"], ["a.html"]] := by
    refine List.filter_eq_self.2 fun names hnames => ?_
    rcases List.mem_pair.1 hnames with rfl | rfl <;> cbv
  have hsorted : [["b.html"], ["a.html"]].mergeSort (fun a b => !decide (b < a)) =
      [["a.html"], ["b.html"]] := by
    simp [List.mergeSort, List.MergeSort.Internal.splitInTwo, List.merge]
    decide
  have hwalk := Search.Walks.enters hroot
    (.leaf (Search.turn_of_isLeaf (hleaf "b.html" (by simp)) _)
      (.leaf (Search.turn_of_isLeaf (hleaf "a.html" (by simp)) _) (.done _)))
  rw [hwalk.collect_eq]
  change (Except.ok (List.mergeSort (List.filter _ [["b.html"], ["a.html"]]) _), _) = _
  rw [hkeep, hsorted]
  rfl

end Stencil.Plan
