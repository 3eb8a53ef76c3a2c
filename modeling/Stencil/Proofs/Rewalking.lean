import Stencil.Proofs.Looking
import Stencil.Proofs.Walking

/-!
# Walking again

What a walk finds is the same on a disk that has grown, as long as the new files lie in the
directory that is left out: `collect_again`. The second walk meets what the first one met, in the
same order, and new directories in between (`Woven`), where there is nothing to be found. `Tracks`
says where the two walks stand; each turn keeps it, and so does the whole walk
(`Tracks.exists_walks`).
-/

namespace Stencil.Disk

variable {disk after : Disk}

/-! ## Grown disks -/

/-- A canonical path stays what it was on a grown disk. -/
theorem Grows.canonical?_ok (hgrows : disk.Grows after) {path : String} {location : Location}
    (h : disk.canonical? path = .ok location) : after.canonical? path = .ok location := by
  rw [canonical?_eq_ok] at h ⊢
  obtain ⟨htext, hshort, hsome, last, hlast, heq⟩ := h
  refine ⟨htext, hshort, ?_, last, ?_, heq⟩
  · rw [Option.isSome_iff_ne_none] at hsome ⊢
    exact fun hnone => hsome (hgrows.eq_none hnone)
  · rw [hgrows.origin_eq]
    rcases hgrows.reach (disk.origin path) (partsOf path.toList) with hnone | hsame
    · rw [hlast] at hnone
      cases hnone
    · rw [hsame, hlast]

/-- A directory stays one on a grown disk. -/
theorem Grows.isDirectory (hgrows : disk.Grows after) {path : String}
    (h : disk.isDirectory path = true) : after.isDirectory path = true := by
  rw [isDirectory_iff] at h ⊢
  obtain ⟨husable, last, hlast⟩ := h
  exact ⟨husable, last, hgrows.arrive_ok hlast⟩

/-- New names come first. -/
theorem Grows.names_eq (hgrows : disk.Grows after) (location : Location) :
    ∃ new, after.names location = new ++ disk.names location := by
  have hkeys : ∀ disk : Disk, disk.names location = (disk.entries.map (·.1)).reverse.filterMap
      fun key => if key.dropLast = location then key.getLast? else none := by
    intro disk
    rw [← List.map_reverse, List.filterMap_map]
    rfl
  obtain ⟨more, hmore⟩ := hgrows.listed
  rw [hkeys after, hkeys disk, hmore, List.reverse_append, List.filterMap_append]
  exact ⟨_, rfl⟩

/-- The names on the way to what is there are names of files. -/
theorem IsTree.isFileName_below (h : disk.IsTree) {location below : Location} {entry : Entry}
    (hentry : disk.get? (location ++ below) = some entry) :
    ∀ name ∈ below, IsFileName name := by
  intro name hname
  obtain ⟨front, rest, rfl⟩ := List.append_of_mem hname
  have hhere : ∃ entry, disk.get? (location ++ front ++ [name]) = some entry := by
    rcases rest with _ | ⟨next, rest⟩
    · exact ⟨entry, by simpa using hentry⟩
    · refine ⟨_, @IsTree.directory_above disk h (location ++ front ++ [name]) (next :: rest) entry
        (by simp) ?_⟩
      simpa using hentry
  obtain ⟨_, hhere⟩ := hhere
  exact h.isFileName hhere

namespace Search

variable {search : Search}

/-! ## Turns at directories -/

/-- The walk goes into its root and into directories. -/
theorem isLeaf_eq_false_iff {names : List String} :
    search.isLeaf disk names = false ↔
      names = [] ∨ disk.isDirectory (search.path names) = true := by
  unfold isLeaf
  by_cases hempty : names = [] <;> simp [hempty]

/-- A directory is left out for its canonical path, unless it is the root. -/
theorem isLeftOut_iff {names : List String} {location : Location}
    (h : disk.canonical? (search.path names) = .ok location) :
    search.isLeftOut disk names = true ↔ names ≠ [] ∧ search.leftOut = some location := by
  unfold isLeftOut
  rw [h]
  cases search.leftOut with
  | none => simp
  | some other =>
    simp only [Except.toOption, Option.any_some, Bool.and_eq_true, decide_eq_true_eq, ne_eq,
      Option.some.injEq]
    exact and_congr_right fun _ => eq_comm

/-- What is left out has a canonical path. -/
theorem exists_of_isLeftOut {names : List String} (h : search.isLeftOut disk names = true) :
    ∃ location, disk.canonical? (search.path names) = .ok location := by
  unfold isLeftOut at h
  cases hcanonical : disk.canonical? (search.path names) with
  | ok location => exact ⟨location, rfl⟩
  | error fault =>
    rw [hcanonical] at h
    cases hout : search.leftOut <;> simp [hout, Except.toOption] at h

/-- A leaf stays one on a disk that has grown, but not where following its path looks and nothing is
there. -/
theorem isLeaf_of_missing (hgrows : disk.Grows after) {names : List String}
    (hleaf : search.isLeaf disk names = true)
    (hmissing : ∀ location, disk.Looks (search.path names) location →
      disk.get? location = none → after.get? location = none) :
    search.isLeaf after names = true := by
  rw [← Bool.not_eq_false, isLeaf_eq_false_iff]
  rintro (rfl | hdirectory)
  · simp [isLeaf] at hleaf
  obtain ⟨husable, last, hlast⟩ := isDirectory_iff.1 hdirectory
  obtain ⟨hreach, hthere⟩ := enter_eq_ok.1 hlast
  rw [hgrows.origin_eq, hgrows.reach_of_missing hmissing] at hreach
  -- what the path leads to was there before, and it was a directory
  have hbefore : disk.get? last.location = some .directory := by
    rcases hentry : disk.get? last.location with _ | content | _ | target
    · rw [hmissing _ (visits_of_reach hreach) hentry] at hthere
      cases hthere
    · obtain ⟨content, hcontent⟩ := hgrows.file hentry
      rw [hcontent] at hthere
      cases hthere
    · rfl
    · rw [hgrows.link_iff.2 hentry] at hthere
      cases hthere
  have hno := isLeaf_eq_false_iff.2 (.inr (isDirectory_iff.2
    ⟨husable, last, enter_eq_ok.2 ⟨hreach, hbefore⟩⟩))
  rw [hleaf] at hno
  cases hno

/-- What a walk does with a path that leads to a directory. -/
theorem turn_of_arrive {visited : List Location} {names : List String} {last : Position}
    (husable : IsUsable (search.path names))
    (hshort : (pathOf last.location).utf8ByteSize ≤ maxPathBytes)
    (harrive : disk.arrive (search.path names) = .ok last) :
    search.turn disk visited names =
      if names ≠ [] ∧ search.leftOut = some last.location then .leftOut
      else if last.location ∈ visited then .known
      else .enters last.location (disk.names last.location) := by
  obtain ⟨hreach, hdirectory⟩ := enter_eq_ok.1 harrive
  have hleaf : search.isLeaf disk names = false :=
    isLeaf_eq_false_iff.2 (.inr (isDirectory_iff.2 ⟨husable, last, harrive⟩))
  have hcanonical : disk.canonical? (search.path names) = .ok last.location :=
    canonical?_eq_ok.2 ⟨⟨husable.1, husable.2.1⟩, hshort, by simp [hdirectory], last, hreach, rfl⟩
  have hlist : disk.list? (search.path names) = .ok (disk.names last.location) :=
    list?_eq_ok.2 ⟨husable, last, harrive, rfl⟩
  unfold turn
  rw [hleaf, if_neg Bool.false_ne_true]
  simp only [isLeftOut_iff hcanonical, hcanonical, hlist]

/-- Whatever holds of an agenda when it holds of the one behind its first turn holds of every
agenda. -/
theorem walk_induction {motive : List Location → List (List String) → Prop}
    (done : ∀ visited, motive visited [])
    (next : ∀ visited names agenda,
      (match search.turn disk visited names with
        | .enters location inside =>
          motive (location :: visited) (inside.map (names ++ [·]) ++ agenda)
        | .fails _ => True
        | _ => motive visited agenda) → motive visited (names :: agenda))
    (visited : List Location) (agenda : List (List String)) : motive visited agenda := by
  fun_induction search.run disk visited agenda with
  | case1 visited => exact done visited
  | case2 visited names agenda hleaf _ _ _ _ ih =>
    refine next visited names agenda ?_
    simpa [turn, hleaf] using ih
  | case3 visited names agenda hleaf _ _ _ _ ih =>
    refine next visited names agenda ?_
    simpa [turn, hleaf] using ih
  | case4 visited names agenda hleaf hout ih =>
    refine next visited names agenda ?_
    simpa [turn, hleaf, hout] using ih
  | case5 visited names agenda hleaf hout fault hcanonical =>
    refine next visited names agenda ?_
    simp [turn, hleaf, hout, hcanonical]
  | case6 visited names agenda hleaf hout location hcanonical hvisited _ _ _ ih =>
    refine next visited names agenda ?_
    simpa [turn, hleaf, hout, hcanonical, hvisited] using ih
  | case7 visited names agenda hleaf hout location hcanonical hnew fault hlist =>
    refine next visited names agenda ?_
    simp [turn, hleaf, hout, hcanonical, hnew, hlist]
  | case8 visited names agenda hleaf hout location hcanonical hnew inside hlist ih =>
    refine next visited names agenda ?_
    simpa [turn, hleaf, hout, hcanonical, hnew, hlist] using ih

/-! ## What a second walk can get to -/

/-- What comes to be on a disk is not in the way of a second walk, which leaves `out` out. -/
structure IsUnspoiled (search : Search) (disk after : Disk) (out : Option Location)
    (trace : Trace) : Prop where
  /-- A path that led to no directory leads to none. -/
  leaves : ∀ names ∈ trace.leaves, search.isLeaf after names = true
  /-- A new file below a directory that the first walk has entered lies in the one that is left out,
  and that one lies below the other or is the same. -/
  files {names : List String} {location : Location} (hentered : (names, location) ∈ trace.entered)
    (below : List String) (content : ByteArray) : disk.get? (location ++ below) = none →
      after.get? (location ++ below) = some (.file content) →
        ∃ front rest, below = front ++ rest ∧ rest ≠ [] ∧ out = some (location ++ front)
  /-- The paths of new directories are not too long, outside the one that is left out. -/
  short {names : List String} {location : Location} (hentered : (names, location) ∈ trace.entered)
    (below : List String) : disk.get? (location ++ below) = none →
      after.get? (location ++ below) = some .directory →
        (∀ front, front <+: below → front ≠ below → out ≠ some (location ++ front)) →
          IsUsable (search.path (names ++ below)) ∧
            (pathOf (location ++ below)).utf8ByteSize ≤ maxPathBytes

variable {out : Option Location} {trace : Trace}

/-- The names lead to a new directory, by way of new ones that are not left out. -/
def Sprouts (disk after : Disk) (out : Option Location) (trace : Trace) (names : List String) :
    Prop :=
  ∃ above location below, (above, location) ∈ trace.entered ∧ names = above ++ below ∧
    disk.get? (location ++ below) = none ∧ after.get? (location ++ below) = some .directory ∧
    ∀ front, front <+: below → front ≠ below → out ≠ some (location ++ front)

section

variable (hgrows : disk.Grows after) (htree : disk.IsTree) (htree' : after.IsTree)
  (hwalk : search.Walks disk [] [[]] trace)
  (hunspoiled : search.IsUnspoiled disk after out trace)

include hgrows hwalk in
/-- The names by which the first walk has entered a directory lead there on the later disk. -/
theorem arrive_of_entered {names : List String} {location : Location}
    (h : (names, location) ∈ trace.entered) :
    ∃ last, after.arrive (search.path names) = .ok last ∧ last.location = location := by
  obtain ⟨visited, inside, henters⟩ := hwalk.exists_enters _ h
  obtain ⟨-, -, -, last, hreach, rfl⟩ :=
    canonical?_eq_ok.1 (hgrows.canonical?_ok henters.canonical)
  exact ⟨last, enter_eq_ok.2 ⟨hreach, hgrows.directory henters.directory⟩, rfl⟩

/-- A new directory is not the root of the search. -/
theorem append_ne_nil_of_new (hwalk : search.Walks disk [] [[]] trace) {names below : List String}
    {location : Location} (h : (names, location) ∈ trace.entered)
    (hnone : disk.get? (location ++ below) = none) : names ++ below ≠ [] := by
  intro hempty
  obtain ⟨rfl, rfl⟩ := List.append_eq_nil_iff.1 hempty
  obtain ⟨visited, inside, henters⟩ := hwalk.exists_enters _ h
  have hdirectory : disk.get? location = some .directory := henters.directory
  rw [List.append_nil, hdirectory] at hnone
  cases hnone

/-- The second walk. -/
def leaving (search : Search) (out : Option Location) : Search := { search with leftOut := out }

include hgrows in
/-- What the walk goes into is still gone into after the build. -/
theorem isLeaf_leaving (out : Option Location) {names : List String}
    (hleaf : search.isLeaf disk names = false) :
    (search.leaving out).isLeaf after names = false := by
  rw [isLeaf_eq_false_iff] at hleaf ⊢
  exact hleaf.imp id hgrows.isDirectory

include hgrows in
/-- The second walk leaves out what the first one did. -/
theorem isLeftOut_leaving (hout : ∀ location, disk.get? location = some .directory →
      (out = some location ↔ search.leftOut = some location))
    {names : List String} {location : Location} (hleaf : search.isLeaf disk names = false)
    (hcanonical : disk.canonical? (search.path names) = .ok location) :
    (search.leaving out).isLeftOut after names = search.isLeftOut disk names := by
  have hcanonical' : after.canonical? ((search.leaving out).path names) = .ok location :=
    hgrows.canonical?_ok hcanonical
  rw [Bool.eq_iff_iff, isLeftOut_iff hcanonical', isLeftOut_iff hcanonical]
  refine and_congr_right fun hne => hout location ?_
  obtain ⟨-, last, hlast⟩ := isDirectory_iff.1 ((isLeaf_eq_false_iff.1 hleaf).resolve_left hne)
  obtain ⟨hreach, hdirectory⟩ := enter_eq_ok.1 hlast
  obtain ⟨-, -, -, last', hreach', rfl⟩ := canonical?_eq_ok.1 hcanonical
  rw [hreach, Except.ok.injEq] at hreach'
  exact hreach' ▸ hdirectory

include hgrows htree' hwalk hunspoiled in
/-- The second walk leaves a new directory out, or enters it unless it has done so before. -/
theorem turn_of_sprout {above below : List String} {location : Location}
    (hentered : (above, location) ∈ trace.entered)
    (hnone : disk.get? (location ++ below) = none)
    (hdirectory : after.get? (location ++ below) = some .directory)
    (hfront : ∀ front, front <+: below → front ≠ below → out ≠ some (location ++ front))
    (visited : List Location) :
    (search.leaving out).turn after visited (above ++ below) =
      if above ++ below ≠ [] ∧ out = some (location ++ below) then .leftOut
      else if location ++ below ∈ visited then .known
      else .enters (location ++ below) (after.names (location ++ below)) := by
  obtain ⟨husable, hshort⟩ := hunspoiled.short hentered below hnone hdirectory hfront
  obtain ⟨last, hlast, rfl⟩ := arrive_of_entered hgrows hwalk hentered
  have hnames := htree'.isFileName_below hdirectory
  have harrive : after.arrive (search.path (above ++ below)) =
      .ok ⟨last.links, last.location ++ below⟩ := by
    have hpath : search.path (above ++ below) = pathBelow (search.path above) below :=
      List.foldl_append
    rw [hpath, arrive_pathBelow hnames, hlast]
    exact enter_names htree' hdirectory
  exact @turn_of_arrive after (search.leaving out) visited _ _ husable hshort harrive

include hgrows hunspoiled in
/-- What is new in a directory that the second walk enters is a directory. -/
theorem sprouts_of_inside {above below : List String} {location : Location}
    (hentered : (above, location) ∈ trace.entered)
    (hout : ∀ front, front <+: below → out ≠ some (location ++ front)) {name : String}
    (hnone : disk.get? (location ++ below ++ [name]) = none)
    (hname : name ∈ after.names (location ++ below)) :
    Sprouts disk after out trace (above ++ below ++ [name]) := by
  rw [mem_names] at hname
  obtain ⟨entry, hentry⟩ := Option.isSome_iff_exists.1 hname
  rw [List.append_assoc] at hnone hentry
  have hfront : ∀ front, front <+: below ++ [name] → front ≠ below ++ [name] →
      out ≠ some (location ++ front) := fun front hinit hne =>
    hout front ((List.prefix_concat_iff.1 hinit).resolve_left hne)
  refine ⟨above, location, below ++ [name], hentered, List.append_assoc .., hnone, ?_, hfront⟩
  rcases entry with content | _ | target
  · obtain ⟨front, rest, heq, hne, hleft⟩ := hunspoiled.files hentered _ content hnone hentry
    refine absurd hleft (hfront front ⟨rest, heq.symm⟩ fun hsame => hne ?_)
    rw [hsame] at heq
    simpa using heq
  · exact hentry
  · rw [hgrows.link_iff.1 hentry] at hnone
    cases hnone

end

/-! ## The agenda of the second walk -/

/-- A list with further elements in between. -/
inductive Woven {α : Type} (extra : α → Prop) : List α → List α → Prop
  | nil : Woven extra [] []
  | same {a : α} {l m : List α} (h : Woven extra l m) : Woven extra (a :: l) (a :: m)
  | extra {a : α} {l m : List α} (ha : extra a) (h : Woven extra l m) : Woven extra l (a :: m)

namespace Woven

variable {α : Type} {extra : α → Prop}

theorem refl (l : List α) : Woven extra l l := by
  induction l with
  | nil => exact .nil
  | cons a l ih => exact .same ih

/-- More may be put in front. -/
theorem append_extra {l m : List α} (h : Woven extra l m) {new : List α}
    (hnew : ∀ a ∈ new, extra a) : Woven extra l (new ++ m) := by
  induction new with
  | nil => exact h
  | cons a new ih =>
    exact .extra (hnew a List.mem_cons_self) (ih fun b hb => hnew b (List.mem_cons_of_mem _ hb))

theorem append_same {l m : List α} (h : Woven extra l m) (old : List α) :
    Woven extra (old ++ l) (old ++ m) := by
  induction old with
  | nil => exact h
  | cons a old ih => exact .same ih

end Woven

section

variable (hgrows : disk.Grows after) (htree : disk.IsTree) (htree' : after.IsTree)
  (hwalk : search.Walks disk [] [[]] trace)
  (hroot : ∀ location, disk.canonical? search.root = .ok location →
    search.leftOut ≠ some location)
  (hout : ∀ location, disk.get? location = some .directory →
    (out = some location ↔ search.leftOut = some location))
  (hunspoiled : search.IsUnspoiled disk after out trace)

include hgrows hout in
/-- What the first walk leaves out, the second one does. -/
theorem turn_leaving_of_leftOut {visited : List Location} {names : List String}
    (hturn : search.turn disk visited names = .leftOut) (visited' : List Location) :
    (search.leaving out).turn after visited' names = .leftOut := by
  obtain ⟨hleaf, hleft⟩ := Turn.tells hturn
  obtain ⟨location, hcanonical⟩ := exists_of_isLeftOut hleft
  unfold turn
  rw [isLeaf_leaving hgrows out hleaf, isLeftOut_leaving hgrows hout hleaf hcanonical, hleft]
  rfl

include hroot hout in
/-- The second walk does not leave out what the first one enters. -/
theorem ne_of_enters {visited : List Location} {names inside : List String} {location : Location}
    (hturn : search.turn disk visited names = .enters location inside) : out ≠ some location := by
  obtain ⟨-, hleft, hcanonical, -, -, hdirectory, -⟩ := Turn.tells hturn
  intro heq
  have hfirst := (hout location hdirectory).1 heq
  by_cases hempty : names = []
  · rw [hempty] at hcanonical
    exact hroot location hcanonical hfirst
  · rw [(isLeftOut_iff hcanonical).2 ⟨hempty, hfirst⟩] at hleft
    cases hleft

include hgrows htree' hunspoiled in
/-- In a directory that both walks enter, the second one meets what the first one met, and new
directories. -/
theorem exists_names_eq {names : List String} {location : Location}
    (hentered : (names, location) ∈ trace.entered) (hkept : out ≠ some location) :
    ∃ new, after.names location = new ++ disk.names location ∧
      ∀ other ∈ new.map (names ++ [·]), Sprouts disk after out trace other := by
  obtain ⟨new, hnames⟩ := hgrows.names_eq location
  refine ⟨new, hnames, fun other hother => ?_⟩
  obtain ⟨name, hname, rfl⟩ := List.mem_map.1 hother
  have hnodup := htree'.nodup_names location
  rw [hnames] at hnodup
  have hnone : disk.get? (location ++ [name]) = none := by
    rw [← Option.not_isSome_iff_eq_none, ← mem_names]
    exact fun hold => (List.nodup_append.1 hnodup).2.2 name hname name hold rfl
  have h := @sprouts_of_inside _ _ _ _ _ hgrows hunspoiled names [] location hentered
  simp only [List.append_nil] at h
  refine h (fun front hinit => ?_) hnone (by simp [hnames, hname])
  rw [List.prefix_nil.1 hinit, List.append_nil]
  exact hkept

/-- The second walk stands where the first one stood: its agenda has new directories in between, and
it has met the same old ones. -/
structure Tracks (search : Search) (disk after : Disk) (out : Option Location) (trace : Trace)
    (visited visited' : List Location) (agenda agenda' : List (List String)) (part : Trace) :
    Prop where
  /-- The first walk goes on from there. -/
  walks : search.Walks disk visited agenda part
  /-- What it goes on to find is some of what it found. -/
  leaves : part.leaves ⊆ trace.leaves
  /-- What it goes on to enter is some of what it entered. -/
  entered : part.entered ⊆ trace.entered
  /-- There are only new directories in between. -/
  woven : Woven (Sprouts disk after out trace) agenda agenda'
  /-- The second walk has met the same old directories. -/
  visited_iff : ∀ location, (disk.get? location).isSome →
    (location ∈ visited' ↔ location ∈ visited)

namespace Tracks

variable {visited visited' : List Location} {agenda agenda' : List (List String)} {part : Trace}
  {names : List String}

include hgrows htree htree' hwalk hunspoiled in
/-- A new directory is left out or known, or there are only new directories in it. -/
theorem turn_of_sprouts
    (h : search.Tracks disk after out trace visited visited' agenda agenda' part)
    (hsprouts : Sprouts disk after out trace names) :
    (search.leaving out).turn after visited' names = .leftOut ∨
      (search.leaving out).turn after visited' names = .known ∨
      ∃ location inside,
        (search.leaving out).turn after visited' names = .enters location inside ∧
          search.Tracks disk after out trace visited (location :: visited') agenda
            (inside.map (names ++ [·]) ++ agenda') part := by
  obtain ⟨above, location, below, hentered, rfl, hnone, hdirectory, hfront⟩ := hsprouts
  rw [turn_of_sprout hgrows htree' hwalk hunspoiled hentered hnone hdirectory hfront visited']
  by_cases hleft : out = some (location ++ below)
  · exact .inl (if_pos ⟨append_ne_nil_of_new hwalk hentered hnone, hleft⟩)
  rw [if_neg fun h => hleft h.2]
  by_cases hknown : location ++ below ∈ visited'
  · exact .inr (.inl (if_pos hknown))
  rw [if_neg hknown]
  -- What is inside of a new directory is new as well.
  have hinside : ∀ other ∈ (after.names (location ++ below)).map (above ++ below ++ [·]),
      Sprouts disk after out trace other := by
    intro other hother
    obtain ⟨name, hname, rfl⟩ := List.mem_map.1 hother
    refine sprouts_of_inside hgrows hunspoiled hentered (fun front hinit => ?_)
      (htree.none_below hnone [name]) hname
    by_cases hall : front = below
    · exact hall ▸ hleft
    · exact hfront front hinit hall
  -- Visiting it makes no difference among the directories that were there before.
  have hvisited : ∀ other, (disk.get? other).isSome →
      (other ∈ (location ++ below) :: visited' ↔ other ∈ visited) := by
    intro other hother
    rw [List.mem_cons, h.visited_iff other hother, or_iff_right]
    rintro rfl
    rw [hnone] at hother
    cases hother
  exact .inr (.inr ⟨_, _, rfl,
    { h with woven := h.woven.append_extra hinside, visited_iff := hvisited }⟩)

include hgrows hout in
/-- What the first walk knows, the second one does. -/
theorem turn_of_known
    (h : search.Tracks disk after out trace visited visited' agenda agenda' part)
    (hturn : search.turn disk visited names = .known) :
    (search.leaving out).turn after visited' names = .known := by
  obtain ⟨hleaf, hleft, location, hknown, hcanonical⟩ := Turn.tells hturn
  have hsome : (disk.get? location).isSome := (canonical?_eq_ok.1 hcanonical).2.2.1
  have hcanonical' : after.canonical? ((search.leaving out).path names) = .ok location :=
    hgrows.canonical?_ok hcanonical
  unfold turn
  rw [isLeaf_leaving hgrows out hleaf, isLeftOut_leaving hgrows hout hleaf hcanonical, hleft,
    hcanonical']
  exact if_pos ((h.visited_iff location hsome).2 hknown)

include hgrows htree' hwalk hroot hout hunspoiled in
/-- What the first walk enters the second one enters, and tracks the first one inside. -/
theorem turn_of_enters {location : Location} {inside : List String}
    (h : search.Tracks disk after out trace visited visited' (names :: agenda) (names :: agenda')
      { part with entered := (names, location) :: part.entered })
    (hturn : search.turn disk visited names = .enters location inside)
    (hpart : search.Walks disk (location :: visited) (inside.map (names ++ [·]) ++ agenda) part)
    (hrest : Woven (Sprouts disk after out trace) agenda agenda') :
    (search.leaving out).turn after visited' names = .enters location (after.names location) ∧
      search.Tracks disk after out trace (location :: visited) (location :: visited')
        (inside.map (names ++ [·]) ++ agenda)
        ((after.names location).map (names ++ [·]) ++ agenda') part := by
  have hkept := ne_of_enters hroot hout hturn
  have hentered : (names, location) ∈ trace.entered := h.entered List.mem_cons_self
  obtain ⟨-, -, hcanonical, hnew, husable, -, hinside⟩ := Turn.tells hturn
  obtain ⟨-, hshort, hsome, -⟩ := canonical?_eq_ok.1 hcanonical
  constructor
  · obtain ⟨last, hlast, rfl⟩ := arrive_of_entered hgrows hwalk hentered
    rw [@turn_of_arrive after (search.leaving out) visited' names last husable hshort hlast,
      if_neg fun h => hkept h.2, if_neg fun hmem => hnew ((h.visited_iff _ hsome).1 hmem)]
  · -- What is new in the directory is listed behind the rest.
    obtain ⟨new, hnames, hsprouts⟩ := exists_names_eq hgrows htree' hunspoiled hentered hkept
    refine ⟨hpart, h.leaves, List.Subset.trans (List.subset_cons_self ..) h.entered, ?_, ?_⟩
    · rw [hnames, hinside, List.map_append, List.append_assoc]
      exact (hrest.append_same _).append_extra hsprouts
    · exact fun other hother => by simp [h.visited_iff other hother]

include hgrows htree htree' hwalk hroot hout hunspoiled

/-- Where the second walk tracks the first one, it goes on to find the same. -/
theorem exists_walks
    (h : search.Tracks disk after out trace visited visited' agenda agenda' part) :
    ∃ later, (search.leaving out).Walks after visited' agenda' later ∧
      later.leaves.filter search.keep = part.leaves.filter search.keep := by
  induction visited', agenda' using @walk_induction after (search.leaving out)
    generalizing visited agenda part with
  | done visited' =>
    obtain ⟨hpart, -, -, hwoven, -⟩ := h
    cases hwoven
    cases hpart
    exact ⟨{}, .done visited', rfl⟩
  | next visited' names rest ih =>
    -- A path that only the second walk has on its agenda: what it comes to leaves the first walk
    -- where it is.
    have hextra : ∀ {agenda : List (List String)} {part : Trace},
        search.Tracks disk after out trace visited visited' agenda rest part →
        Sprouts disk after out trace names →
        ∃ later, (search.leaving out).Walks after visited' (names :: rest) later ∧
          later.leaves.filter search.keep = part.leaves.filter search.keep := by
      intro agenda part h hsprouts
      obtain hturn | hturn | ⟨location, inside, hturn, hinside⟩ :=
        h.turn_of_sprouts hgrows htree htree' hwalk hunspoiled hsprouts <;> rw [hturn] at ih
      · obtain ⟨later, hlater, hsame⟩ := ih h
        exact ⟨later, .leftOut hturn hlater, hsame⟩
      · obtain ⟨later, hlater, hsame⟩ := ih h
        exact ⟨_, .known hturn hlater, hsame⟩
      · obtain ⟨later, hlater, hsame⟩ := ih hinside
        exact ⟨_, .enters hturn hlater, hsame⟩
    cases h.woven with
    | extra hsprouts hrest => exact hextra { h with woven := hrest } hsprouts
    | same hrest =>
      -- The path is the next one of both walks, and the second turn is that of the first.
      cases h.walks with
      | @leaf _ _ _ part _ hpart =>
        have h' : search.Tracks disk after out trace visited visited' _ rest part :=
          ⟨hpart, List.Subset.trans (List.subset_cons_self ..) h.leaves, h.entered, hrest,
            h.visited_iff⟩
        have hleaf := hunspoiled.leaves names (h.leaves List.mem_cons_self)
        have hturn' := @turn_of_isLeaf (search.leaving out) after names hleaf visited'
        rw [hturn'] at ih
        obtain ⟨later, hlater, hsame⟩ := ih h'
        refine ⟨_, .leaf hturn' hlater, ?_⟩
        simp only [List.filter_cons, hsame]
      | leftOut hturn hpart =>
        have hturn' := turn_leaving_of_leftOut hgrows hout hturn visited'
        rw [hturn'] at ih
        obtain ⟨later, hlater, hsame⟩ := ih { h with walks := hpart, woven := hrest }
        exact ⟨later, .leftOut hturn' hlater, hsame⟩
      | known hturn hpart =>
        have hturn' := h.turn_of_known hgrows hout hturn
        rw [hturn'] at ih
        obtain ⟨later, hlater, hsame⟩ := ih { h with walks := hpart, woven := hrest }
        exact ⟨_, .known hturn' hlater, hsame⟩
      | enters hturn hpart =>
        obtain ⟨hturn', hinside⟩ :=
          h.turn_of_enters hgrows htree' hwalk hroot hout hunspoiled hturn hpart hrest
        rw [hturn'] at ih
        obtain ⟨later, hlater, hsame⟩ := ih hinside
        exact ⟨_, .enters hturn' hlater, hsame⟩

end Tracks

include hgrows htree htree' hwalk hroot hout hunspoiled in
/-- The second walk finds what the first one has found. -/
theorem collect_again {files : List (List String)} {noted : List Event}
    (hfound : disk.collect search = (.ok files, noted)) :
    ∃ noted, after.collect (search.leaving out) = (.ok files, noted) := by
  have htracks : search.Tracks disk after out trace [] [] [[]] [[]] trace :=
    ⟨hwalk, List.Subset.refl _, List.Subset.refl _, .refl [[]], fun _ _ => Iff.rfl⟩
  obtain ⟨later, hlater, hsame⟩ :=
    htracks.exists_walks hgrows htree htree' hwalk hroot hout hunspoiled
  have hsame' : later.leaves.filter (search.leaving out).keep =
      trace.leaves.filter search.keep := hsame
  rw [hwalk.collect_eq, Prod.mk.injEq] at hfound
  rw [hlater.collect_eq, hsame', hfound.1]
  exact ⟨_, rfl⟩

end

/-! ## Walks without links -/

/-- A directory that is entered lies below those on the way to it, which are entered as well. -/
theorem entered_of_prefix (hwalk : search.Walks disk [] [[]] trace) {names : List String}
    {location : Location} (hentered : (names, location) ∈ trace.entered) {front : List String}
    (hfront : front <+: names) : ∃ above, (front, above) ∈ trace.entered := by
  induction names using List.reverseRecOn generalizing location with
  | nil => exact ⟨location, List.prefix_nil.1 hfront ▸ hentered⟩
  | append_singleton before name ih =>
    rcases List.prefix_concat_iff.1 hfront with rfl | hfront
    · exact ⟨location, hentered⟩
    rcases hwalk.entered_inside hentered with hroot | ⟨e, he, other, -, heq⟩
    · simp at hroot
    · obtain ⟨rfl, -⟩ := List.append_singleton_inj.1 heq
      exact ih he hfront

section

variable {root : Location} (htree : disk.IsTree)
  (hroot : disk.canonical? search.root = .ok root) (hplain : disk.IsPlain root)
  (hwalk : search.Walks disk [] [[]] trace)

include htree hplain hwalk in
/-- The path of what lies in a directory that is entered leads to it. -/
theorem exists_reach_inside {names : List String}
    (hentered : (names, root ++ names) ∈ trace.entered) {name : String}
    (hname : name ∈ disk.names (root ++ names)) :
    ∃ links, disk.reach (disk.origin (search.path (names ++ [name])))
      (partsOf (search.path (names ++ [name])).toList) =
        .ok ⟨links, root ++ names ++ [name]⟩ := by
  obtain ⟨mid, hmid, hlocation⟩ := arrive_of_entered (.refl disk) hwalk hentered
  obtain ⟨entry, hentry⟩ := Option.isSome_iff_exists.1 (mem_names.1 hname)
  rw [← hlocation] at hentry ⊢
  refine ⟨mid.links, ?_⟩
  rw [path, pathBelow_concat]
  refine reach_join (htree.isFileName hentry) hmid fun target => ?_
  rw [hlocation, List.append_assoc]
  exact hplain (names ++ [name]) target

include htree hroot hplain hwalk

/-- The location of a directory that is entered has the names by which that happens. -/
theorem location_of_entered {names : List String} {location : Location}
    (hentered : (names, location) ∈ trace.entered) : location = root ++ names := by
  induction names using List.reverseRecOn generalizing location with
  | nil =>
    have hcanonical := hwalk.canonical_of_entered _ hentered
    rw [show search.path [] = search.root from rfl, hroot, Except.ok.injEq] at hcanonical
    rw [List.append_nil]
    exact hcanonical.symm
  | append_singleton before name ih =>
    rcases hwalk.entered_inside hentered with hempty | ⟨⟨above, outer⟩, he, other, hname, heq⟩
    · simp at hempty
    obtain ⟨rfl, rfl⟩ := List.append_singleton_inj.1 heq
    obtain rfl : outer = root ++ before := ih he
    obtain ⟨links, hreach⟩ := exists_reach_inside htree hplain hwalk he hname
    obtain ⟨last, hlast, rfl⟩ := arrive_of_entered (.refl disk) hwalk hentered
    rw [(enter_eq_ok.1 hlast).1, Except.ok.injEq] at hreach
    rw [hreach, List.append_assoc]

/-- Whatever is looked at on the way to a file is there. -/
theorem isSome_of_looks {names : List String} (hleaf : names ∈ trace.leaves) {location : Location}
    (hlooks : disk.Looks (search.path names) location) : (disk.get? location).isSome := by
  rcases hwalk.leaf_inside hleaf with hempty | ⟨⟨above, outer⟩, he, name, hname, rfl⟩
  · rw [List.mem_singleton.1 hempty] at hleaf
    have hno := hwalk.isLeaf [] hleaf
    simp [isLeaf] at hno
  obtain rfl : outer = root ++ above := location_of_entered htree hroot hplain hwalk he
  obtain ⟨links, hreach⟩ := exists_reach_inside htree hplain hwalk he hname
  exact hlooks.isSome_of_reach hreach (mem_names.1 hname)

/-- A directory that is entered does not lie in the one that is left out, if the root does not. -/
theorem not_prefix_of_entered {left : Location} (hbeside : ¬ left <+: root)
    (hleft : disk.get? left = some .directory → search.leftOut = some left)
    {names : List String} {location : Location} (hentered : (names, location) ∈ trace.entered) :
    ¬ left <+: location := by
  intro hbelow
  rw [location_of_entered htree hroot hplain hwalk hentered] at hbelow
  obtain ⟨front, rfl⟩ := (List.prefix_or_prefix_of_prefix hbelow
    (List.prefix_append root names)).resolve_left hbeside
  -- then the walk has entered the one that is left out on its way
  obtain ⟨above, habove⟩ :=
    entered_of_prefix hwalk hentered ((List.prefix_append_right_inj root).1 hbelow)
  obtain rfl := location_of_entered htree hroot hplain hwalk habove
  obtain ⟨visited, inside, henters⟩ := hwalk.exists_enters _ habove
  have hno : search.isLeftOut disk front = false := henters.not_leftOut
  have hne : front ≠ [] := by
    rintro rfl
    exact hbeside (by simp)
  rw [(isLeftOut_iff henters.canonical).2 ⟨hne, hleft henters.directory⟩] at hno
  cases hno

end

end Search

end Stencil.Disk
