import Mathlib.Data.List.Nodup
import Mathlib.Data.String.Basic
import Stencil.Proofs.Filling

/-!
# What a walk meets

A walk takes one path after the other from its agenda. `turn` says what it does with a path, and
`Walks` declares a whole walk that does not fail, with a `Trace` of what it has met: the files, the
directories that it entered, and those that it met again. `Walks.run_eq` and `exists_walks` tie the
two together, so that what a walk finds is shown by induction on the walk.
-/

namespace Stencil.Disk.Search

variable {search : Search} {disk : Disk}

/-! ## One turn -/

/-- What a walk does with the next path of its agenda. -/
inductive Turn where
  /-- It leads to a file, or to something else that is no directory. -/
  | leaf
  /-- It leads to the directory that is left out. -/
  | leftOut
  /-- It leads to a directory that has been entered before. -/
  | known
  | enters (location : Location) (inside : List String)
  | fails (fault : Fault)

/-- The test whether two locations are equal is right, so a list of them can be searched for one. -/
local instance : LawfulBEq Location := inferInstance

/-- The turn at a path of the agenda. -/
def turn (search : Search) (disk : Disk) (visited : List Location) (names : List String) : Turn :=
  if search.isLeaf disk names then .leaf
  else if search.isLeftOut disk names then .leftOut
  else
    match disk.canonical? (search.path names) with
    | .error fault => .fails fault
    | .ok location =>
      if location ∈ visited then .known
      else
        match disk.list? (search.path names) with
        | .error fault => .fails fault
        | .ok inside => .enters location inside

/-- What leads to no directory is a leaf. -/
theorem isLeaf_of_locate? {names : List String} {location : Location} (hne : names ≠ [])
    (hlocation : disk.locate? false (search.path names) = .ok location)
    (hno : disk.get? location ≠ some .directory) : search.isLeaf disk names = true := by
  unfold isLeaf isDirectory
  rw [hlocation]
  simp [hne, hno]

theorem turn_of_isLeaf {names : List String} (h : search.isLeaf disk names = true)
    (visited : List Location) : search.turn disk visited names = .leaf := if_pos h

/-- A file that is found, if it is wanted. -/
def keep (search : Search) (names : List String) : Bool := search.wanted ("/".intercalate names)

/-- A walk goes on as its turns say. -/
theorem run_cons (visited : List Location) (names : List String) (agenda : List (List String)) :
    search.run disk visited (names :: agenda) =
      match search.turn disk visited names with
      | .leaf =>
        ((search.run disk visited agenda).1.map fun found =>
            if search.keep names then names :: found else found,
          (search.run disk visited agenda).2)
      | .leftOut => search.run disk visited agenda
      | .known =>
        ((search.run disk visited agenda).1,
          .revisited (search.path names) :: (search.run disk visited agenda).2)
      | .enters location inside =>
        search.run disk (location :: visited) (inside.map (names ++ [·]) ++ agenda)
      | .fails fault => (.error (.disk (search.path names) fault.message), []) := by
  rw [run]
  unfold turn
  split
  · unfold keep
    split
    rename_i found events hrun
    rw [hrun]
    by_cases hwanted : search.wanted ("/".intercalate names) = true
    · simp only [if_pos hwanted]
    · simp only [if_neg hwanted]
      cases found <;> rfl
  · split
    · rfl
    · cases disk.canonical? (search.path names) with
      | error fault => rfl
      | ok location =>
        dsimp only
        split
        · rfl
        · cases disk.list? (search.path names) <;> rfl

/-! ## A whole walk -/

/-- What a walk has met. -/
structure Trace where
  /-- The files, and whatever else is no directory. -/
  leaves : List (List String) := []
  /-- The directories that were entered, each with the names by which that happened first. -/
  entered : List (List String × Location) := []
  /-- The names that led to a directory once more. -/
  revisited : List (List String) := []

/-- A walk that does not fail, from an agenda and the directories visited before. -/
inductive Walks (search : Search) (disk : Disk) :
    List Location → List (List String) → Trace → Prop
  | done (visited : List Location) : Walks search disk visited [] {}
  | leaf {visited : List Location} {names : List String} {agenda : List (List String)}
    {trace : Trace} (hturn : search.turn disk visited names = .leaf)
    (hrest : Walks search disk visited agenda trace) :
    Walks search disk visited (names :: agenda) { trace with leaves := names :: trace.leaves }
  | leftOut {visited : List Location} {names : List String} {agenda : List (List String)}
    {trace : Trace} (hturn : search.turn disk visited names = .leftOut)
    (hrest : Walks search disk visited agenda trace) :
    Walks search disk visited (names :: agenda) trace
  | known {visited : List Location} {names : List String} {agenda : List (List String)}
    {trace : Trace} (hturn : search.turn disk visited names = .known)
    (hrest : Walks search disk visited agenda trace) :
    Walks search disk visited (names :: agenda)
      { trace with revisited := names :: trace.revisited }
  | enters {visited : List Location} {names : List String} {agenda : List (List String)}
    {location : Location} {inside : List String} {trace : Trace}
    (hturn : search.turn disk visited names = .enters location inside)
    (hrest : Walks search disk (location :: visited) (inside.map (names ++ [·]) ++ agenda) trace) :
    Walks search disk visited (names :: agenda)
      { trace with entered := (names, location) :: trace.entered }

/-- A walk finds the wanted ones of the files that it meets, and notes the directories that it meets
again. -/
theorem Walks.run_eq {visited : List Location} {agenda : List (List String)} {trace : Trace}
    (h : search.Walks disk visited agenda trace) :
    search.run disk visited agenda = (.ok (trace.leaves.filter search.keep),
      trace.revisited.map fun names => .revisited (search.path names)) := by
  induction h with
  | done visited => rw [run]; rfl
  | @leaf visited names agenda trace hturn _ ih =>
    rw [run_cons, hturn, ih]
    by_cases hkeep : search.keep names = true <;> simp [Except.map, hkeep]
  | leftOut hturn _ ih => rw [run_cons, hturn, ih]
  | known hturn _ ih => rw [run_cons, hturn, ih]; rfl
  | enters hturn _ ih =>
    rw [run_cons, hturn]
    exact ih

/-- What a whole walk finds is sorted. -/
theorem Walks.collect_eq {trace : Trace} (h : search.Walks disk [] [[]] trace) :
    disk.collect search =
      (.ok ((trace.leaves.filter search.keep).mergeSort fun a b => !decide (b < a)),
        trace.revisited.map fun names => .revisited (search.path names)) := by
  unfold collect
  rw [h.run_eq]
  rfl

/-- A walk that does not fail has a trace. -/
theorem exists_walks {visited : List Location} {agenda : List (List String)}
    {found : List (List String)} (h : (search.run disk visited agenda).1 = .ok found) :
    ∃ trace, search.Walks disk visited agenda trace := by
  fun_induction search.run disk visited agenda generalizing found with
  | case1 visited => exact ⟨{}, .done visited⟩
  | case2 visited names agenda hleaf rest events hrun hwanted ih =>
    rw [hrun] at ih
    cases rest with
    | error failure => cases h
    | ok rest =>
      obtain ⟨trace, htrace⟩ := ih rfl
      exact ⟨_, .leaf (turn_of_isLeaf hleaf visited) htrace⟩
  | case3 visited names agenda hleaf rest events hrun hwanted ih =>
    rw [hrun] at ih
    obtain ⟨trace, htrace⟩ := ih h
    exact ⟨_, .leaf (turn_of_isLeaf hleaf visited) htrace⟩
  | case4 visited names agenda hleaf hout ih =>
    obtain ⟨trace, htrace⟩ := ih h
    exact ⟨_, .leftOut (by simp [turn, hleaf, hout]) htrace⟩
  | case5 => cases h
  | case6 visited names agenda hleaf hout location hcanonical hvisited rest events hrun ih =>
    rw [hrun] at ih
    obtain ⟨trace, htrace⟩ := ih h
    exact ⟨_, .known (by simp [turn, hleaf, hout, hcanonical, hvisited]) htrace⟩
  | case7 => cases h
  | case8 visited names agenda hleaf hout location hcanonical hnew inside hlist ih =>
    obtain ⟨trace, htrace⟩ := ih h
    exact ⟨_, .enters (by simp [turn, hleaf, hout, hcanonical, hnew, hlist]) htrace⟩

/-- What becomes of a path that a walk meets. -/
inductive Accounted (search : Search) (disk : Disk) (trace : Trace) (names : List String) : Prop
  | leaf (h : names ∈ trace.leaves)
  | leftOut (hleaf : search.isLeaf disk names = false)
    (hout : search.isLeftOut disk names = true)
  | revisited (hleaf : search.isLeaf disk names = false) (h : names ∈ trace.revisited)
  | entered {location : Location} (hleaf : search.isLeaf disk names = false)
    (h : (names, location) ∈ trace.entered)

/-- A longer trace accounts for whatever a shorter one does. -/
theorem Accounted.mono {a b : Trace} {names : List String} (hleaves : a.leaves ⊆ b.leaves)
    (hentered : a.entered ⊆ b.entered) (hrevisited : a.revisited ⊆ b.revisited)
    (h : Accounted search disk a names) : Accounted search disk b names := by
  rcases h with h | ⟨hleaf, hout⟩ | ⟨hleaf, h⟩ | ⟨hleaf, h⟩
  · exact .leaf (hleaves h)
  · exact .leftOut hleaf hout
  · exact .revisited hleaf (hrevisited h)
  · exact .entered hleaf (hentered h)

/-! ## What a turn says -/

/-- What a turn that enters a directory says about it. -/
structure Enters (search : Search) (disk : Disk) (visited : List Location) (names : List String)
    (location : Location) (inside : List String) : Prop where
  not_leaf : search.isLeaf disk names = false
  not_leftOut : search.isLeftOut disk names = false
  canonical : disk.canonical? (search.path names) = .ok location
  new : location ∉ visited
  usable : IsUsable (search.path names)
  directory : disk.get? location = some .directory
  inside_eq : inside = disk.names location

/-- What a turn says about its path. -/
def Turn.Tells (search : Search) (disk : Disk) (visited : List Location) (names : List String) :
    Turn → Prop
  | .leaf => search.isLeaf disk names = true
  | .leftOut => search.isLeaf disk names = false ∧ search.isLeftOut disk names = true
  | .known => search.isLeaf disk names = false ∧ search.isLeftOut disk names = false ∧
      ∃ location ∈ visited, disk.canonical? (search.path names) = .ok location
  | .enters location inside => Enters search disk visited names location inside
  | .fails _ => True

/-- Every turn tells what was found. -/
theorem tells_turn (visited : List Location) (names : List String) :
    (search.turn disk visited names).Tells search disk visited names := by
  unfold turn
  split
  · rename_i hleaf
    exact hleaf
  rename_i hleaf
  rw [Bool.not_eq_true] at hleaf
  split
  · rename_i hout
    exact ⟨hleaf, hout⟩
  rename_i hout
  rw [Bool.not_eq_true] at hout
  split
  · trivial
  rename_i location hcanonical
  split
  · rename_i hvisited
    exact ⟨hleaf, hout, location, hvisited, hcanonical⟩
  rename_i hnew
  split
  · trivial
  · rename_i inside hlist
    -- The directory that is listed is the one that the canonical path names.
    obtain ⟨-, -, -, last, hreach, hlocation⟩ := canonical?_eq_ok.1 hcanonical
    obtain ⟨husable, last', harrive, hinside⟩ := list?_eq_ok.1 hlist
    obtain ⟨hreach', hdirectory⟩ := enter_eq_ok.1 harrive
    rw [hreach, Except.ok.injEq] at hreach'
    subst hreach'
    rw [hlocation] at hdirectory hinside
    exact ⟨hleaf, hout, hcanonical, hnew, husable, hdirectory, hinside⟩

theorem Turn.tells {visited : List Location} {names : List String} {turn : Turn}
    (h : search.turn disk visited names = turn) : turn.Tells search disk visited names :=
  h ▸ tells_turn visited names

/-! ## The files that a walk meets -/

namespace Walks

variable {visited : List Location} {agenda : List (List String)} {trace : Trace}

/-- What the walk meets are files. -/
theorem isLeaf (h : search.Walks disk visited agenda trace) :
    ∀ names ∈ trace.leaves, search.isLeaf disk names = true := by
  induction h with
  | done => simp
  | leaf hturn _ ih =>
    intro names hnames
    rcases List.mem_cons.1 hnames with rfl | hnames
    · exact Turn.tells hturn
    · exact ih names hnames
  | leftOut _ _ ih => exact ih
  | known _ _ ih => exact ih
  | enters _ _ ih => exact ih

/-- Every file lies at or below a path of the agenda. -/
theorem above_leaf (h : search.Walks disk visited agenda trace) :
    ∀ names ∈ trace.leaves, ∃ item ∈ agenda, item <+: names := by
  induction h with
  | done => simp
  | leaf _ _ ih =>
    intro names hnames
    rcases List.mem_cons.1 hnames with rfl | hnames
    · exact ⟨_, List.mem_cons_self, List.prefix_refl _⟩
    · obtain ⟨item, hitem, hinit⟩ := ih names hnames
      exact ⟨item, List.mem_cons_of_mem _ hitem, hinit⟩
  | leftOut _ _ ih | known _ _ ih =>
    intro names hnames
    obtain ⟨item, hitem, hinit⟩ := ih names hnames
    exact ⟨item, List.mem_cons_of_mem _ hitem, hinit⟩
  | enters _ _ ih =>
    intro names hnames
    obtain ⟨item, hitem, hinit⟩ := ih names hnames
    rcases List.mem_append.1 hitem with hitem | hitem
    · obtain ⟨name, -, rfl⟩ := List.mem_map.1 hitem
      exact ⟨_, List.mem_cons_self, (List.prefix_append _ [name]).trans hinit⟩
    · exact ⟨item, List.mem_cons_of_mem _ hitem, hinit⟩

/-- The names that lead to a file are names that files can have. -/
theorem isFileName (htree : disk.IsTree) (h : search.Walks disk visited agenda trace)
    (hagenda : ∀ item ∈ agenda, ∀ name ∈ item, IsFileName name) :
    ∀ names ∈ trace.leaves, ∀ name ∈ names, IsFileName name := by
  induction h with
  | done => simp
  | leaf _ _ ih =>
    intro names hnames
    rcases List.mem_cons.1 hnames with rfl | hnames
    · exact hagenda _ List.mem_cons_self
    · exact ih (fun item hitem => hagenda item (List.mem_cons_of_mem _ hitem)) names hnames
  | leftOut _ _ ih | known _ _ ih =>
    exact ih fun item hitem => hagenda item (List.mem_cons_of_mem _ hitem)
  | enters hturn _ ih =>
    have henters : Enters .. := Turn.tells hturn
    refine ih fun item hitem => ?_
    rcases List.mem_append.1 hitem with hitem | hitem
    · obtain ⟨name, hname, rfl⟩ := List.mem_map.1 hitem
      rw [henters.inside_eq, mem_names] at hname
      obtain ⟨entry, hentry⟩ := Option.isSome_iff_exists.1 hname
      intro other hother
      rcases List.mem_append.1 hother with hother | hother
      · exact hagenda _ List.mem_cons_self other hother
      · rw [List.mem_singleton.1 hother]
        exact htree.isFileName hentry
    · exact hagenda item (List.mem_cons_of_mem _ hitem)

/-- No file that a walk meets lies at or below another one. -/
theorem leaves_apart (htree : disk.IsTree) (h : search.Walks disk visited agenda trace)
    (hagenda : agenda.Pairwise IsApart) : trace.leaves.Pairwise IsApart := by
  induction h with
  | done => exact List.Pairwise.nil
  | leaf _ hrest ih =>
    obtain ⟨happart, hagenda⟩ := List.pairwise_cons.1 hagenda
    refine List.pairwise_cons.2 ⟨fun other hother => ?_, ih hagenda⟩
    obtain ⟨item, hitem, hinit⟩ := hrest.above_leaf other hother
    exact (happart item hitem).below hinit
  | leftOut _ _ ih | known _ _ ih => exact ih (List.pairwise_cons.1 hagenda).2
  | @enters visited names agenda location inside trace hturn _ ih =>
    obtain ⟨happart, hagenda⟩ := List.pairwise_cons.1 hagenda
    -- Names in one directory are different, so what is behind them is apart.
    have hnodup : inside.Nodup := by
      rw [Enters.inside_eq (Turn.tells hturn)]
      exact htree.nodup_names location
    refine ih (List.pairwise_append.2 ⟨?_, hagenda, ?_⟩)
    · refine List.pairwise_map.2 (hnodup.imp fun {a b} hne => ?_)
      constructor <;> intro hinit
      · have heq := hinit.eq_of_length (by simp)
        exact hne (List.singleton_inj.1 (List.append_cancel_left heq))
      · have heq := hinit.eq_of_length (by simp)
        exact hne (List.singleton_inj.1 (List.append_cancel_left heq)).symm
    · intro below hbelow item hitem
      obtain ⟨name, -, rfl⟩ := List.mem_map.1 hbelow
      exact ((happart item hitem).symm.below (List.prefix_append names [name])).symm

/-! ## The directories that a walk meets -/

/-- A directory that is new is met once if those behind it are, and are new behind it. -/
theorem once_cons {visited : List Location} {names : List String} {location : Location}
    {met : List (List String × Location)} (hnew : location ∉ visited)
    (h : (met.map (·.2)).Nodup ∧ ∀ e ∈ met, e.2 ∉ location :: visited) :
    (((names, location) :: met).map (·.2)).Nodup ∧
      ∀ e ∈ (names, location) :: met, e.2 ∉ visited := by
  obtain ⟨hnodup, hbehind⟩ := h
  constructor
  · refine List.nodup_cons.2 ⟨fun hmem => ?_, hnodup⟩
    obtain ⟨e, he, heq⟩ := List.mem_map.1 hmem
    exact hbehind e he (heq ▸ List.mem_cons_self)
  · intro e he
    rcases List.mem_cons.1 he with rfl | he
    · exact hnew
    · exact fun hmem => hbehind e he (List.mem_cons_of_mem _ hmem)

/-- A directory is entered once. -/
theorem entered_once (h : search.Walks disk visited agenda trace) :
    (trace.entered.map (·.2)).Nodup ∧ ∀ e ∈ trace.entered, e.2 ∉ visited := by
  induction h with
  | done => simp
  | leaf _ _ ih | leftOut _ _ ih | known _ _ ih => exact ih
  | enters hturn _ ih => exact once_cons (Enters.new (Turn.tells hturn)) ih

/-- Every directory that a walk has entered was entered at some turn. -/
theorem exists_enters (h : search.Walks disk visited agenda trace) :
    ∀ e ∈ trace.entered, ∃ visited inside, Enters search disk visited e.1 e.2 inside := by
  induction h with
  | done => simp
  | leaf _ _ ih | leftOut _ _ ih | known _ _ ih => exact ih
  | enters hturn _ ih =>
    intro e he
    rcases List.mem_cons.1 he with rfl | he
    · exact ⟨_, _, Turn.tells hturn⟩
    · exact ih e he

/-- What the walk enters it knows by its canonical path. -/
theorem canonical_of_entered (h : search.Walks disk visited agenda trace) :
    ∀ e ∈ trace.entered, disk.canonical? (search.path e.1) = .ok e.2 := by
  intro e he
  obtain ⟨visited, inside, henters⟩ := h.exists_enters e he
  exact henters.canonical

/-- A directory that is met again has been entered before. -/
theorem entered_of_revisited (h : search.Walks disk visited agenda trace) :
    ∀ names ∈ trace.revisited, ∃ location, disk.canonical? (search.path names) = .ok location ∧
      (location ∈ visited ∨ location ∈ trace.entered.map (·.2)) := by
  induction h with
  | done => simp
  | leaf _ _ ih | leftOut _ _ ih => exact ih
  | known hturn _ ih =>
    intro names hnames
    rcases List.mem_cons.1 hnames with rfl | hnames
    · obtain ⟨-, -, location, hvisited, hcanonical⟩ := Turn.tells hturn
      exact ⟨location, hcanonical, .inl hvisited⟩
    · exact ih names hnames
  | enters _ _ ih =>
    intro names hnames
    obtain ⟨location, hcanonical, hmet⟩ := ih names hnames
    refine ⟨location, hcanonical, ?_⟩
    rcases hmet with hvisited | hentered
    · rcases List.mem_cons.1 hvisited with rfl | hvisited
      · exact .inr List.mem_cons_self
      · exact .inl hvisited
    · exact .inr (List.mem_cons_of_mem _ hentered)

/-- Every path of the agenda is accounted for, and so is whatever lies in a directory that has been
entered. -/
theorem accounted (h : search.Walks disk visited agenda trace) :
    (∀ names ∈ agenda, Accounted search disk trace names) ∧
      ∀ e ∈ trace.entered, ∀ name ∈ disk.names e.2,
        Accounted search disk trace (e.1 ++ [name]) := by
  induction h with
  | done => simp
  | @leaf visited names agenda trace hturn _ ih =>
    have hmono : ∀ {other}, Accounted search disk trace other → _ :=
      Accounted.mono (b := { trace with leaves := names :: trace.leaves })
        (List.subset_cons_self names _) (List.Subset.refl _) (List.Subset.refl _)
    refine ⟨fun other hother => ?_, fun e he name hname => hmono (ih.2 e he name hname)⟩
    rcases List.mem_cons.1 hother with rfl | hother
    · exact .leaf List.mem_cons_self
    · exact hmono (ih.1 other hother)
  | leftOut hturn _ ih =>
    refine ⟨fun other hother => ?_, ih.2⟩
    rcases List.mem_cons.1 hother with rfl | hother
    · exact .leftOut (Turn.tells hturn).1 (Turn.tells hturn).2
    · exact ih.1 other hother
  | @known visited names agenda trace hturn _ ih =>
    have hmono : ∀ {other}, Accounted search disk trace other → _ :=
      Accounted.mono (b := { trace with revisited := names :: trace.revisited })
        (List.Subset.refl _) (List.Subset.refl _) (List.subset_cons_self names _)
    refine ⟨fun other hother => ?_, fun e he name hname => hmono (ih.2 e he name hname)⟩
    rcases List.mem_cons.1 hother with rfl | hother
    · exact .revisited (Turn.tells hturn).1 List.mem_cons_self
    · exact hmono (ih.1 other hother)
  | @enters visited names agenda location inside trace hturn _ ih =>
    have hmono : ∀ {other}, Accounted search disk trace other → _ :=
      Accounted.mono (b := { trace with entered := (names, location) :: trace.entered })
        (List.Subset.refl _) (List.subset_cons_self _ _) (List.Subset.refl _)
    have hinside : inside = disk.names location := Enters.inside_eq (Turn.tells hturn)
    refine ⟨fun other hother => ?_, fun e he name hname => hmono ?_⟩
    · rcases List.mem_cons.1 hother with rfl | hother
      · exact .entered (Enters.not_leaf (Turn.tells hturn)) List.mem_cons_self
      · exact hmono (ih.1 other (List.mem_append_right _ hother))
    · -- What is inside of a directory that is entered comes onto the agenda.
      rcases List.mem_cons.1 he with rfl | he
      · exact ih.1 _ (List.mem_append_left _ (List.mem_map.2 ⟨name, hinside ▸ hname, rfl⟩))
      · exact ih.2 e he name hname

/-- A walk enters the root. -/
theorem entered_root (h : search.Walks disk [] [[]] trace) :
    ∃ location, ([], location) ∈ trace.entered := by
  cases h with
  | leaf hturn =>
    have hleaf : search.isLeaf disk [] = true := Turn.tells hturn
    simp [Search.isLeaf] at hleaf
  | leftOut hturn =>
    have hout : search.isLeftOut disk [] = true := (Turn.tells hturn).2
    simp [isLeftOut] at hout
  | known hturn =>
    obtain ⟨-, -, location, hvisited, -⟩ := Turn.tells hturn
    cases hvisited
  | enters => exact ⟨_, List.mem_cons_self⟩

/-- Whatever a walk meets, or enters, was on the agenda or lies in a directory that it has
entered. -/
theorem met_inside (h : search.Walks disk visited agenda trace) :
    ∀ names ∈ trace.leaves ++ trace.entered.map (·.1), names ∈ agenda ∨
      ∃ e ∈ trace.entered, ∃ name ∈ disk.names e.2, names = e.1 ++ [name] := by
  induction h with
  | done => simp
  | leaf _ _ ih =>
    intro names hnames
    rw [List.cons_append, List.mem_cons] at hnames
    rcases hnames with rfl | hnames
    · exact .inl List.mem_cons_self
    · exact (ih names hnames).imp (List.mem_cons_of_mem _) id
  | leftOut _ _ ih | known _ _ ih =>
    intro names hnames
    exact (ih names hnames).imp (List.mem_cons_of_mem _) id
  | enters hturn _ ih =>
    intro names hnames
    rw [List.map_cons, List.mem_append, List.mem_cons, or_left_comm, ← List.mem_append] at hnames
    rcases hnames with rfl | hnames
    · exact .inl List.mem_cons_self
    rcases ih names hnames with hmem | ⟨e, he, hinside⟩
    · rcases List.mem_append.1 hmem with hmem | hmem
      · obtain ⟨name, hname, rfl⟩ := List.mem_map.1 hmem
        rw [Enters.inside_eq (Turn.tells hturn)] at hname
        exact .inr ⟨_, List.mem_cons_self, name, hname, rfl⟩
      · exact .inl (List.mem_cons_of_mem _ hmem)
    · exact .inr ⟨e, List.mem_cons_of_mem _ he, hinside⟩

/-- Every file that a walk meets was on the agenda, or lies in a directory that it has entered. -/
theorem leaf_inside (h : search.Walks disk visited agenda trace) {names : List String}
    (hnames : names ∈ trace.leaves) :
    names ∈ agenda ∨ ∃ e ∈ trace.entered, ∃ name ∈ disk.names e.2, names = e.1 ++ [name] :=
  h.met_inside names (List.mem_append_left _ hnames)

/-- Every directory that a walk enters was on the agenda, or lies in one that it has entered. -/
theorem entered_inside (h : search.Walks disk visited agenda trace) {names : List String}
    {location : Location} (hentered : (names, location) ∈ trace.entered) :
    names ∈ agenda ∨ ∃ e ∈ trace.entered, ∃ name ∈ disk.names e.2, names = e.1 ++ [name] :=
  h.met_inside names (List.mem_append_right _ (List.mem_map_of_mem hentered))

/-- The files of a directory that is entered under one name are not met under another. So a wanted
file is lost where its directory is entered by a link and the path along the link is not wanted. -/
theorem not_mem_leaves_of_ne (h : search.Walks disk [] [[]] trace) {first other : List String}
    {location : Location} (hentered : (first, location) ∈ trace.entered) (hne : other ≠ first)
    (hcanonical : disk.canonical? (search.path other) = .ok location) (name : String) :
    other ++ [name] ∉ trace.leaves := by
  intro hleaf
  rcases h.leaf_inside hleaf with hroot | ⟨⟨above, below⟩, habove, last, -, heq⟩
  · simp at hroot
  obtain ⟨rfl, -⟩ := List.append_singleton_inj.1 heq
  have hbelow := h.canonical_of_entered _ habove
  rw [hcanonical, Except.ok.injEq] at hbelow
  exact hne (congrArg Prod.fst
    (List.inj_on_of_nodup_map h.entered_once.1 habove hentered hbelow.symm))

end Walks

/-! ## The files that are found -/

/-- The names lead down from the root through directories, none of which is the one left out, to a
location. -/
inductive Descends (search : Search) (disk : Disk) : List String → Location → Prop
  | root {location : Location} (hcanonical : disk.canonical? (search.path []) = .ok location) :
    Descends search disk [] location
  | step {names : List String} {name : String} {above location : Location}
    (habove : Descends search disk names above) (hname : name ∈ disk.names above)
    (hleaf : search.isLeaf disk (names ++ [name]) = false)
    (hout : search.isLeftOut disk (names ++ [name]) = false)
    (hcanonical : disk.canonical? (search.path (names ++ [name])) = .ok location) :
    Descends search disk (names ++ [name]) location

/-- What is found are the wanted files that the walk meets, in ascending order. -/
theorem exists_walks_of_collect {files : List (List String)} {noted : List Event}
    (h : disk.collect search = (.ok files, noted)) :
    ∃ trace, search.Walks disk [] [[]] trace ∧ files.Perm (trace.leaves.filter search.keep) ∧
      files.Pairwise (· ≤ ·) ∧
      noted = trace.revisited.map fun names => .revisited (search.path names) := by
  obtain ⟨trace, htrace⟩ : ∃ trace, search.Walks disk [] [[]] trace := by
    unfold collect at h
    cases hrun : search.run disk [] [[]] with
    | mk found events =>
      rw [hrun] at h
      cases found with
      | error failure => cases h
      | ok found => exact exists_walks (congrArg Prod.fst hrun)
  rw [htrace.collect_eq, Prod.mk.injEq, Except.ok.injEq] at h
  obtain ⟨hfiles, hnoted⟩ := h
  refine ⟨trace, htrace, hfiles ▸ List.mergeSort_perm .., ?_, hnoted.symm⟩
  -- Sorting leaves the files in ascending order.
  have hsorted := @List.pairwise_mergeSort _ (fun a b : List String => !decide (b < a))
    (fun a b c hab hbc => by
      simp only [Bool.not_eq_true', decide_eq_false_iff_not] at hab hbc ⊢
      exact List.le_trans hab hbc)
    (fun a b => by
      rw [Bool.or_eq_true]
      simp only [Bool.not_eq_true', decide_eq_false_iff_not]
      exact List.le_total a b)
    (trace.leaves.filter search.keep)
  rw [hfiles] at hsorted
  refine hsorted.imp fun {a b} hle => ?_
  simpa using hle

/-- The files that are found have names that files can have, and none lies at or below another. -/
theorem found_apart (htree : disk.IsTree) {files : List (List String)} {noted : List Event}
    (h : disk.collect search = (.ok files, noted)) :
    files.Pairwise IsApart ∧ ∀ names ∈ files, IsPagePath names := by
  obtain ⟨trace, htrace, hperm, -, -⟩ := exists_walks_of_collect h
  have hleaf : ∀ names ∈ files, names ∈ trace.leaves := fun names hnames =>
    (List.mem_filter.1 (hperm.mem_iff.1 hnames)).1
  constructor
  · refine hperm.symm.pairwise ?_ fun {a b} => IsApart.symm
    exact (htrace.leaves_apart htree (by simp)).filter _
  · intro names hnames
    refine ⟨?_, htrace.isFileName htree (by simp) names (hleaf names hnames)⟩
    rintro rfl
    have hroot := htrace.isLeaf [] (hleaf [] hnames)
    simp [isLeaf] at hroot

/-- A walk finds the wanted files of every directory that it enters, under the names by which it
entered that directory and under no others. It enters the root and whatever directory lies in one
that it enters, unless it is left out, and it enters no directory twice. -/
theorem found_of_entered (htree : disk.IsTree) {files : List (List String)} {noted : List Event}
    (h : disk.collect search = (.ok files, noted)) :
    ∃ entered : List (List String × Location),
      (entered.map (·.2)).Nodup ∧ files.Nodup ∧ (∃ location, ([], location) ∈ entered) ∧
      (∀ names location, (names, location) ∈ entered →
        disk.canonical? (search.path names) = .ok location ∧
        ∀ name ∈ disk.names location,
          if search.isLeaf disk (names ++ [name]) then
            names ++ [name] ∈ files ↔ search.keep (names ++ [name]) = true
          else search.isLeftOut disk (names ++ [name]) = true ∨
            ∃ first below, (first, below) ∈ entered ∧
              disk.canonical? (search.path (names ++ [name])) = .ok below) ∧
      ∀ names ∈ files, ∃ above location name,
        (above, location) ∈ entered ∧ name ∈ disk.names location ∧ names = above ++ [name] := by
  obtain ⟨trace, htrace, hperm, -, -⟩ := exists_walks_of_collect h
  have hfound : ∀ names, names ∈ files ↔ names ∈ trace.leaves ∧ search.keep names = true :=
    fun names => hperm.mem_iff.trans List.mem_filter
  have hcanonical : ∀ names location, (names, location) ∈ trace.entered →
      disk.canonical? (search.path names) = .ok location :=
    fun names location => htrace.canonical_of_entered (names, location)
  refine ⟨trace.entered, htrace.entered_once.1, (found_apart htree h).1.imp IsApart.ne,
    htrace.entered_root, ?_, ?_⟩
  · intro names location hentered
    refine ⟨hcanonical _ _ hentered, fun name hname => ?_⟩
    rw [hfound]
    -- The walk accounts for each name in one of four ways; the first one makes a file of it.
    rcases htrace.accounted.2 _ hentered name hname with
      hleaf | ⟨hleaf, hout⟩ | ⟨hleaf, hagain⟩ | @⟨below, hleaf, hbelow⟩
    · rw [if_pos (htrace.isLeaf _ hleaf)]
      exact and_iff_right hleaf
    · rw [hleaf, if_neg Bool.false_ne_true]
      exact .inl hout
    · rw [hleaf, if_neg Bool.false_ne_true]
      obtain ⟨below, hbelow, hvisited | hmem⟩ := htrace.entered_of_revisited _ hagain
      · cases hvisited
      · obtain ⟨e, he, rfl⟩ := List.mem_map.1 hmem
        exact .inr ⟨e.1, e.2, he, hbelow⟩
    · rw [hleaf, if_neg Bool.false_ne_true]
      exact .inr ⟨_, below, hbelow, hcanonical _ _ hbelow⟩
  · intro names hnames
    obtain hagenda | ⟨e, he, name, hname, rfl⟩ :=
      htrace.leaf_inside ((hfound names).1 hnames).1
    · rw [List.mem_singleton] at hagenda
      exact absurd hagenda ((found_apart htree h).2 names hnames).nonempty
    · exact ⟨e.1, e.2, name, he, hname, rfl⟩

/-- Where no directory is met twice, the wanted files of all directories below the root are
found. -/
theorem found_of_descends {files : List (List String)} (h : disk.collect search = (.ok files, []))
    {names : List String} {location : Location} (hdown : search.Descends disk names location)
    {name : String} (hname : name ∈ disk.names location)
    (hleaf : search.isLeaf disk (names ++ [name]) = true)
    (hkeep : search.keep (names ++ [name]) = true) : names ++ [name] ∈ files := by
  obtain ⟨trace, htrace, hperm, -, hnoted⟩ := exists_walks_of_collect h
  have hnone : trace.revisited = [] := List.map_eq_nil_iff.1 hnoted.symm
  -- By induction on the way down, every directory on it is entered, as nothing is met again.
  have hentered : (names, location) ∈ trace.entered := by
    clear hname hleaf hkeep
    induction hdown with
    | root hcanonical =>
      obtain ⟨root, hroot⟩ := htrace.entered_root
      have hsame := htrace.canonical_of_entered _ hroot
      rw [hcanonical, Except.ok.injEq] at hsame
      exact hsame ▸ hroot
    | @step names other above location _ hother hleaf hout hcanonical ih =>
      rcases htrace.accounted.2 _ ih other hother with
        hmem | ⟨-, hout'⟩ | ⟨-, hagain⟩ | @⟨below, -, hbelow⟩
      · rw [htrace.isLeaf _ hmem] at hleaf
        cases hleaf
      · rw [hout] at hout'
        cases hout'
      · rw [hnone] at hagain
        cases hagain
      · have hsame := htrace.canonical_of_entered _ hbelow
        rw [hcanonical, Except.ok.injEq] at hsame
        exact hsame ▸ hbelow
  refine hperm.mem_iff.2 (List.mem_filter.2 ⟨?_, hkeep⟩)
  rcases htrace.accounted.2 _ hentered name hname with
    hmem | ⟨hno, -⟩ | ⟨hno, -⟩ | ⟨hno, -⟩
  · exact hmem
  all_goals
    rw [hleaf] at hno
    cases hno

end Stencil.Disk.Search
