import Stencil.Proofs.Walking

/-!
# Walks come to an end

A walk is the list of its turns, up to one that fails if there is such (`turns`), and its result is
what these find (`run_eq_findings`). A disk can hold links that lead back to where a walk came from,
so the paths that it takes have no bound of their own. But what a turn puts on the agenda are the
entries of a directory that has not been listed before, so the turns are no more than the paths on
the agenda and the entries of the disk together (`length_turns_le`).

Main statement: `collect_listsOnce`, that a walk comes to an end, lists no directory twice and not
the one that is left out, and finds no file twice. It finds files wherever the root is a directory,
unless the canonical path of some directory is too long to be used.
-/

namespace Stencil.Disk

/-- No canonical path of a directory is too long to be used. -/
def HasShortPaths (disk : Disk) : Prop :=
  ∀ location, disk.get? location = some .directory →
    (pathOf location).utf8ByteSize ≤ maxPathBytes

/-- It is enough to check the locations that are there. -/
theorem hasShortPaths_of_all {disk : Disk}
    (h : disk.locations.all fun location => (pathOf location).utf8ByteSize ≤ maxPathBytes) :
    disk.HasShortPaths := by
  intro location hdirectory
  have hmem : location ∈ disk.locations := mem_locations (hdirectory ▸ rfl)
  exact of_decide_eq_true (List.all_eq_true.1 h location hmem)

/-- A tree of files whose directories have canonical paths that can be used. -/
structure Tree where
  disk : Disk
  isTree : disk.IsTree
  hasShortPaths : disk.HasShortPaths

namespace Search

variable {search : Search} {disk : Disk}

/-! ## Turn after turn -/

/-- The turns of a walk, each with the path that it is taken at. A turn that fails is the last. -/
def turns (search : Search) (disk : Disk) (visited : List Location) :
    List (List String) → List (List String × Turn)
  | [] => []
  | names :: agenda =>
    match _h : search.turn disk visited names with
    | .leaf => (names, .leaf) :: search.turns disk visited agenda
    | .leftOut => (names, .leftOut) :: search.turns disk visited agenda
    | .known => (names, .known) :: search.turns disk visited agenda
    | .enters location inside =>
      (names, .enters location inside) ::
        search.turns disk (location :: visited) (inside.map (names ++ [·]) ++ agenda)
    | .fails fault => [(names, .fails fault)]
termination_by agenda => ((unmet disk.locations visited).length, agenda.length)
decreasing_by
  · exact Prod.Lex.right _ (by simp)
  · exact Prod.Lex.right _ (by simp)
  · exact Prod.Lex.right _ (by simp)
  · have henters : Enters .. := Turn.tells _h
    exact Prod.Lex.left _ _ (length_unmet_lt (mem_locations_of_canonical? henters.canonical)
      henters.new (by simp) (by simp))

/-- What turns find and note. -/
def findings (search : Search) :
    List (List String × Turn) → Except Failure (List (List String)) × List Event
  | [] => (.ok [], [])
  | (names, .leaf) :: later =>
    ((search.findings later).1.map fun found =>
        if search.keep names then names :: found else found,
      (search.findings later).2)
  | (_, .leftOut) :: later | (_, .enters _ _) :: later => search.findings later
  | (names, .known) :: later =>
    ((search.findings later).1, .revisited (search.path names) :: (search.findings later).2)
  | (names, .fails fault) :: _ => (.error (.disk (search.path names) fault.message), [])

/-- The directories that turns list, in order, each with the names that led to it. -/
def listed (turns : List (List String × Turn)) : List (List String × Location) :=
  turns.filterMap fun
    | (names, .enters location _) => some (names, location)
    | _ => none

/-- The result of a walk is what its turns find. -/
theorem run_eq_findings (visited : List Location) (agenda : List (List String)) :
    search.run disk visited agenda = search.findings (search.turns disk visited agenda) := by
  fun_induction search.turns disk visited agenda with
  | case1 visited => rw [run]; rfl
  | case2 visited names agenda hturn ih => rw [run_cons, hturn, findings, ih]
  | case3 visited names agenda hturn ih => rw [run_cons, hturn, findings, ih]
  | case4 visited names agenda hturn ih => rw [run_cons, hturn, findings, ih]
  | case5 visited names agenda location inside hturn ih =>
    rw [run_cons, hturn, findings]
    exact ih
  | case6 visited names agenda fault hturn => rw [run_cons, hturn, findings]

/-- Every turn of a walk is the turn at its path, with some directories visited before. -/
theorem exists_turn_of_mem {visited : List Location} {agenda : List (List String)}
    {names : List String} {found : Turn}
    (h : (names, found) ∈ search.turns disk visited agenda) :
    ∃ visited, search.turn disk visited names = found := by
  fun_induction search.turns disk visited agenda with
  | case1 visited => cases h
  | case2 visited _ _ hturn ih | case3 visited _ _ hturn ih | case4 visited _ _ hturn ih
  | case5 visited _ _ _ _ hturn ih =>
    obtain heq | h := List.mem_cons.1 h
    · cases heq
      exact ⟨visited, hturn⟩
    · exact ih h
  | case6 visited _ _ _ hturn =>
    cases List.mem_singleton.1 h
    exact ⟨visited, hturn⟩

/-! ## Directories are listed once -/

/-- What is listed are the turns that enter a directory. -/
theorem mem_listed {turns : List (List String × Turn)} {names : List String}
    {location : Location} :
    (names, location) ∈ listed turns ↔ ∃ inside, (names, .enters location inside) ∈ turns := by
  unfold listed
  rw [List.mem_filterMap]
  constructor
  · rintro ⟨⟨names', found⟩, hmem, hfound⟩
    cases found with
    | enters location' inside =>
      cases hfound
      exact ⟨inside, hmem⟩
    | _ => cases hfound
  · rintro ⟨inside, hmem⟩
    exact ⟨_, hmem, rfl⟩

/-- What a walk lists is a directory, and not the one that is left out unless it is the root. -/
theorem enters_of_mem_listed {visited : List Location} {agenda : List (List String)}
    {names : List String} {location : Location}
    (h : (names, location) ∈ listed (search.turns disk visited agenda)) :
    disk.canonical? (search.path names) = .ok location ∧
      disk.get? location = some .directory ∧ (names ≠ [] → search.leftOut ≠ some location) := by
  obtain ⟨inside, hmem⟩ := mem_listed.1 h
  obtain ⟨visited', hturn⟩ := exists_turn_of_mem hmem
  have henters : Enters .. := Turn.tells hturn
  refine ⟨henters.canonical, henters.directory, fun hne hout => ?_⟩
  have hno := henters.not_leftOut
  simp [isLeftOut, hne, hout, henters.canonical, Except.toOption] at hno

/-- A walk lists no directory twice, and none that was visited before. -/
theorem nodup_listed (visited : List Location) (agenda : List (List String)) :
    ((listed (search.turns disk visited agenda)).map (·.2)).Nodup ∧
      ∀ e ∈ listed (search.turns disk visited agenda), e.2 ∉ visited := by
  fun_induction search.turns disk visited agenda with
  | case1 visited => simp [listed]
  | case2 visited names agenda hturn ih | case3 visited names agenda hturn ih
  | case4 visited names agenda hturn ih => exact ih
  | case5 visited names agenda location inside hturn ih =>
    exact Walks.once_cons (Enters.new (Turn.tells hturn)) ih
  | case6 visited names agenda fault hturn => simp [listed]

/-! ## How many turns there are -/

/-- The number of entries that lie in no directory of `visited`. -/
def unlisted (disk : Disk) (visited : List Location) : Nat :=
  disk.entries.countP fun e => !visited.contains e.1.dropLast

/-- Listing a directory takes its entries from those that are not listed yet. -/
theorem length_names_add_unlisted_le {visited : List Location} {location : Location}
    (hnew : location ∉ visited) :
    (disk.names location).length + unlisted disk (location :: visited) ≤ unlisted disk visited := by
  unfold names unlisted
  rw [List.filterMap_reverse, List.length_reverse]
  induction disk.entries with
  | nil => simp
  | cons e entries ih =>
    rw [List.filterMap_cons, List.countP_cons, List.countP_cons]
    by_cases hlocation : e.1.dropLast = location
    · have hin : ¬ (!(location :: visited).contains e.1.dropLast) = true := by simp [hlocation]
      have hout : (!visited.contains e.1.dropLast) = true := by simp [hlocation, hnew]
      rw [if_pos hlocation, if_neg hin, if_pos hout]
      cases e.1.getLast? with
      | none =>
        dsimp only
        omega
      | some name =>
        rw [List.length_cons]
        omega
    · have hsame : (location :: visited).contains e.1.dropLast
          = visited.contains e.1.dropLast := by simp [hlocation]
      rw [if_neg hlocation, hsame]
      dsimp only
      omega

/-- The turns of a walk are no more than the paths of its agenda and the entries that it has not
listed. -/
theorem length_turns_le (visited : List Location) (agenda : List (List String)) :
    (search.turns disk visited agenda).length ≤ agenda.length + unlisted disk visited := by
  fun_induction search.turns disk visited agenda with
  | case1 visited => simp
  | case2 visited names agenda hturn ih | case3 visited names agenda hturn ih
  | case4 visited names agenda hturn ih =>
    rw [List.length_cons, List.length_cons]
    omega
  | case5 visited names agenda location inside hturn ih =>
    have henters : Enters .. := Turn.tells hturn
    obtain rfl := henters.inside_eq
    -- What comes on the agenda leaves the entries that are not listed yet.
    have hle : (disk.names location).length + unlisted disk (location :: visited)
        ≤ unlisted disk visited := length_names_add_unlisted_le henters.new
    rw [List.length_append, List.length_map] at ih
    rw [List.length_cons, List.length_cons]
    omega
  | case6 visited names agenda fault hturn =>
    rw [List.length_singleton, List.length_cons]
    omega

/-! ## Where a walk fails -/

/-- A turn at a directory with a short canonical path does not fail. -/
theorem turn_ne_fails_of_isDirectory (hshort : disk.HasShortPaths) {names : List String}
    (hdirectory : disk.isDirectory (search.path names) = true) (visited : List Location)
    (fault : Fault) : search.turn disk visited names ≠ .fails fault := by
  obtain ⟨husable, last, henter⟩ := isDirectory_iff.1 hdirectory
  obtain ⟨hreach, hlast⟩ := enter_eq_ok.1 henter
  have hcanonical : disk.canonical? (search.path names) = .ok last.location :=
    canonical?_eq_ok.2
      ⟨⟨husable.1, husable.2.1⟩, hshort _ hlast, by simp [hlast], last, hreach, rfl⟩
  have hlist : disk.list? (search.path names) = .ok (disk.names last.location) :=
    list?_eq_ok.2 ⟨husable, last, henter, rfl⟩
  unfold turn
  rw [hcanonical, hlist]
  dsimp only
  split_ifs <;> rintro ⟨⟩

/-- A turn does not fail where canonical paths are short, unless the root is no directory. -/
theorem turn_ne_fails (hshort : disk.HasShortPaths) (hroot : disk.isDirectory search.root = true)
    (visited : List Location) (names : List String) (fault : Fault) :
    search.turn disk visited names ≠ .fails fault := by
  by_cases hdirectory : disk.isDirectory (search.path names) = true
  · exact turn_ne_fails_of_isDirectory hshort hdirectory visited fault
  · -- Below the root, a path that leads to no directory is a leaf, even if it leads nowhere.
    have hne : names ≠ [] := by
      rintro rfl
      exact hdirectory hroot
    have hleaf : search.isLeaf disk names = true := by simp [isLeaf, hne, hdirectory]
    rw [turn_of_isLeaf hleaf]
    rintro ⟨⟩

/-- Turns that do not fail find something. -/
theorem exists_findings {turns : List (List String × Turn)}
    (h : ∀ e ∈ turns, ∀ fault, e.2 ≠ .fails fault) :
    ∃ found, (search.findings turns).1 = .ok found := by
  induction turns with
  | nil => exact ⟨[], rfl⟩
  | cons e turns ih =>
    obtain ⟨found, hfound⟩ := ih fun e he => h e (List.mem_cons_of_mem _ he)
    obtain ⟨names, turn⟩ := e
    cases turn with
    | leaf =>
      rw [findings, hfound]
      exact ⟨_, rfl⟩
    | leftOut | known | enters => exact ⟨found, hfound⟩
    | fails fault => exact absurd rfl (h _ List.mem_cons_self fault)

/-- A walk finds files where the root is a directory and canonical paths are short. -/
theorem exists_collect (hshort : disk.HasShortPaths)
    (hroot : disk.isDirectory search.root = true) :
    ∃ files noted, disk.collect search = (.ok files, noted) := by
  obtain ⟨found, hfound⟩ : ∃ found, (search.run disk [] [[]]).1 = .ok found := by
    rw [run_eq_findings]
    refine exists_findings fun ⟨names, turn⟩ hmem fault hfails => ?_
    obtain ⟨visited, hturn⟩ := exists_turn_of_mem hmem
    exact turn_ne_fails hshort hroot visited names fault (hturn.trans hfails)
  obtain ⟨events, hrun⟩ : ∃ events, search.run disk [] [[]] = (.ok found, events) :=
    ⟨_, Prod.ext hfound rfl⟩
  unfold collect
  rw [hrun]
  exact ⟨_, _, rfl⟩

/-! ## Files are found once -/

/-- Paths of names without slashes are told apart by their texts. -/
theorem nodup_paths {files : List (List String)} (hfiles : files.Nodup)
    (hpaths : ∀ names ∈ files, IsPagePath names) :
    (files.map ("/".intercalate ·)).Nodup := by
  refine List.Nodup.map_on (fun names hnames names' hnames' heq => ?_) hfiles
  have hparts : ∀ names ∈ files, partsOf ("/".intercalate names).toList = names :=
    fun names hnames => partsOf_intercalate (hpaths names hnames).nonempty
      fun name hname => ((hpaths names hnames).isFileName name hname).2.1
  have hcut := congrArg (fun path : String => partsOf path.toList) heq
  rwa [hparts names hnames, hparts names' hnames'] at hcut

/-! ## Whole walks -/

/-- The turns of the walk from the root. -/
def walk (search : Search) (disk : Disk) : List (List String × Turn) := search.turns disk [] [[]]

/-- A walk comes to an end on every disk, whatever its links lead to, after at most one turn more
than the disk has entries. It lists directories only, none of them twice, and below the root not the
one that is left out. The files that it finds have relative paths, no two the same. It fails only
where the root is no directory or the canonical path of a directory is too long. -/
theorem collect_listsOnce (htree : disk.IsTree) (search : Search) :
    disk.collect search =
        ((search.findings (search.walk disk)).1.map
          (·.mergeSort fun a b => !decide (b < a)), (search.findings (search.walk disk)).2) ∧
      (search.walk disk).length ≤ disk.entries.length + 1 ∧
      ((listed (search.walk disk)).map (·.2)).Nodup ∧
      (∀ e ∈ listed (search.walk disk), disk.canonical? (search.path e.1) = .ok e.2 ∧
        disk.get? e.2 = some .directory ∧ (e.1 ≠ [] → search.leftOut ≠ some e.2)) ∧
      (∀ files noted, disk.collect search = (.ok files, noted) →
        files.Nodup ∧ (files.map ("/".intercalate ·)).Nodup ∧
          ∀ names ∈ files, IsPagePath names) ∧
      (disk.HasShortPaths → disk.isDirectory search.root = true →
        ∃ files noted, disk.collect search = (.ok files, noted)) := by
  refine ⟨?_, ?_, (nodup_listed [] [[]]).1, fun e he => enters_of_mem_listed he, ?_,
    exists_collect⟩
  · unfold collect
    rw [run_eq_findings]
    rfl
  · have hturns : (search.walk disk).length ≤ [[]].length + unlisted disk [] :=
      length_turns_le [] [[]]
    have hunlisted : unlisted disk [] ≤ disk.entries.length := List.countP_le_length
    rw [List.length_singleton] at hturns
    omega
  · intro files noted hcollect
    obtain ⟨hapart, hpaths⟩ := found_apart htree hcollect
    have hnodup : files.Nodup := hapart.imp IsApart.ne
    exact ⟨hnodup, nodup_paths hnodup hpaths, hpaths⟩

/-- A tree with links that lead back to its root, from a directory to itself, from a second name to
that directory, to the directory that is left out, and from a link to itself. -/
def knot : Tree where
  disk.entries := [(["src"], .directory), (["src", "a.html"], .file "A".toUTF8),
    (["src", "loop"], .link "."), (["src", "self"], .link "self"),
    (["src", "sub"], .directory), (["src", "sub", "b.html"], .file "B".toUTF8),
    (["src", "sub", "again"], .link "../sub"), (["src", "alias"], .link "sub"),
    (["src", "out"], .directory), (["src", "out", "c.html"], .file "C".toUTF8),
    (["src", "shown"], .link "out")]
  disk.working := []
  isTree := ⟨by decide, by decide, rfl⟩
  hasShortPaths := hasShortPaths_of_all (by decide +kernel)

/-- The search for its pages. -/
def knotSearch : Search where
  root := "/src"
  leftOut := some ["src", "out"]
  wanted path := ".html".toList.isSuffixOf path.toList

/-- The walk through such a tree comes to an end, and finds files. -/
theorem collect_knot :
    knot.disk.IsTree ∧ knot.disk.HasShortPaths ∧
      knot.disk.isDirectory knotSearch.root = true ∧
      (knotSearch.walk knot.disk).length ≤ 12 ∧
      ((listed (knotSearch.walk knot.disk)).map (·.2)).Nodup ∧
      ∃ files noted, knot.disk.collect knotSearch = (.ok files, noted) ∧
        (files.map ("/".intercalate ·)).Nodup := by
  have hroot : knot.disk.isDirectory knotSearch.root = true := by
    have hparts : leading (partsOf knotSearch.root.toList) = ["src"] := by decide +kernel
    rw [isDirectory_iff, enter_leading, hparts]
    exact ⟨by decide, _, enter_name rfl (by decide) rfl⟩
  obtain ⟨-, hturns, hlisted, -, hfiles, hcollect⟩ := collect_listsOnce knot.isTree knotSearch
  obtain ⟨files, noted, h⟩ := hcollect knot.hasShortPaths hroot
  exact ⟨knot.isTree, knot.hasShortPaths, hroot, hturns, hlisted, files, noted, h,
    (hfiles files noted h).2.1⟩

end Search

end Stencil.Disk
