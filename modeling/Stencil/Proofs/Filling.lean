import Stencil.Proofs.Saving

/-!
# Filling the output directory

A build saves one page after the other. The first one that gets so far makes the output directory,
and from then on pages and the directories on their way are all that is added to it. `Stage` says
how far the disk has come, and `Stage.save_eq_none_iff` that this does not matter for whether a
further page can be saved.
-/

namespace Stencil.Disk

variable {disk : Disk}

/-! ## Pages in a directory -/

/-- Neither of two pages lies at or below the other. -/
def IsApart (a b : List String) : Prop := ¬ a <+: b ∧ ¬ b <+: a

/-- What lies at or below one of two pages that are apart is apart from the other. -/
theorem IsApart.below {a b c : List String} (h : IsApart a b) (hbelow : b <+: c) :
    IsApart a c := by
  refine ⟨fun hac => ?_, fun hca => h.2 (hbelow.trans hca)⟩
  rcases List.prefix_or_prefix_of_prefix hac hbelow with hab | hba
  · exact h.1 hab
  · exact h.2 hba

theorem IsApart.ne {a b : List String} (h : IsApart a b) : a ≠ b := by
  rintro rfl
  exact h.1 (List.prefix_refl a)

theorem IsApart.symm {a b : List String} (h : IsApart a b) : IsApart b a := ⟨h.2, h.1⟩

instance : Std.Symm IsApart := ⟨fun _ _ => IsApart.symm⟩

/-- Some of the files below a directory have been saved, and directories have been made on the way
of files. -/
structure Fills (base : Disk) (location : Location) (files saved : List (List String))
    (disk : Disk) : Prop where
  tree : disk.IsTree
  grows : base.Grows disk
  sub : saved ⊆ files
  only (place : Location) : disk.get? place = base.get? place ∨
    (base.get? place = none ∧ disk.get? place = some .directory ∧
      ∃ names ∈ files, ∃ front, front <+: names.dropLast ∧ place = location ++ front) ∨
    (∃ content, disk.get? place = some (.file content)) ∧
      ∃ names ∈ saved, place = location ++ names

/-- What is filled with some files is filled with more. -/
theorem Fills.mono {base : Disk} {location : Location}
    {files saved moreFiles moreSaved : List (List String)}
    (h : Fills base location files saved disk) (hfiles : files ⊆ moreFiles)
    (hsaved : saved ⊆ moreSaved) (hsub : moreSaved ⊆ moreFiles) :
    Fills base location moreFiles moreSaved disk where
  tree := h.tree
  grows := h.grows
  sub := hsub
  only place := by
    rcases h.only place with hsame | ⟨hnone, hdirectory, names, hnames, hfront⟩ |
        ⟨hfile, names, hnames, heq⟩
    · exact .inl hsame
    · exact .inr (.inl ⟨hnone, hdirectory, names, hfiles hnames, hfront⟩)
    · exact .inr (.inr ⟨hfile, names, hsaved hnames, heq⟩)

/-- A directory is filled with two lists of files one after the other. -/
theorem Fills.trans {base later : Disk} {location : Location} {a b c d : List (List String)}
    (h : Fills base location a c disk) (h' : Fills disk location b d later) :
    Fills base location (a ++ b) (c ++ d) later where
  tree := h'.tree
  grows := h.grows.trans h'.grows
  sub := List.append_subset.2 ⟨List.subset_append_of_subset_left b h.sub,
    List.subset_append_of_subset_right a h'.sub⟩
  only place := by
    rcases h'.only place with hsame | ⟨hnone, hdirectory, names, hnames, hfront⟩ |
        ⟨hfile, names, hnames, heq⟩
    · rw [hsame]
      rcases h.only place with hsame' | ⟨hnone, hdirectory, names, hnames, hfront⟩ |
          ⟨hfile, names, hnames, heq⟩
      · exact .inl hsame'
      · exact .inr (.inl ⟨hnone, hdirectory, names, List.mem_append_left b hnames, hfront⟩)
      · exact .inr (.inr ⟨hfile, names, List.mem_append_left d hnames, heq⟩)
    · exact .inr (.inl ⟨h.grows.eq_none hnone, hdirectory, names, List.mem_append_right a hnames,
        hfront⟩)
    · exact .inr (.inr ⟨hfile, names, List.mem_append_right c hnames, heq⟩)

/-- The file that has been saved, if it has been. -/
def savedOf (names : List String) (failure : Option Failure) : List (List String) :=
  if failure.isNone then [names] else []

/-- What is saved is the page at hand or nothing. -/
theorem savedOf_subset (names : List String) (failure : Option Failure) :
    savedOf names failure ⊆ [names] := by
  unfold savedOf
  split <;> simp

/-- Saving a page fills the directory with it. -/
theorem Saves.fills {location : Location} {names : List String} {text : String}
    {result : Disk × Option Failure} (h : disk.Saves location names text result) :
    Fills disk location [names] (savedOf names result.2) result.1 where
  tree := h.tree
  grows := h.grows
  sub := savedOf_subset names result.2
  only place := by
    rcases h.only place with hsame | ⟨hnone, hdirectory, hfront⟩ | ⟨hsaved, heq⟩
    · exact .inl hsame
    · exact .inr (.inl ⟨hnone, hdirectory, names, by simp, hfront⟩)
    · exact .inr (.inr ⟨⟨_, heq ▸ h.page hsaved⟩, names, by simp [savedOf, hsaved], heq⟩)

/-! ## What saving looks at -/

/-- Whether directories can be made depends on what bars the way. -/
theorem barred_congr {other : Disk} {location : Location} {names : List String}
    (h : ∀ front, front <+: names →
      (other.Bars (location ++ front) ↔ disk.Bars (location ++ front))) :
    other.barred location names = disk.barred location names := by
  have hway : other.BarsWay location names.dropLast ↔ disk.BarsWay location names.dropLast := by
    unfold BarsWay
    refine exists_congr fun front => and_congr_right fun hfront => ?_
    exact h front (hfront.trans (List.dropLast_prefix names))
  unfold barred
  simp only [hway, h _ (List.prefix_refl _)]

/-- Whether a page can be saved depends on what bars its way and on a directory in its place. -/
theorem saveFault_congr {other : Disk} {top : String} {location : Location} {names : List String}
    (hbarred : other.barred location names.dropLast = disk.barred location names.dropLast)
    (hpage : other.get? (location ++ names) = some .directory ↔
      disk.get? (location ++ names) = some .directory) :
    other.saveFault top location names = disk.saveFault top location names := by
  unfold saveFault
  simp only [hbarred, hpage]

/-- A path is longer than the path above it. -/
theorem not_prefix_dropLast {names : List String} (hne : names ≠ []) :
    ¬ names <+: names.dropLast := by
  intro h
  have hlength := h.length_le
  have hpos := List.length_pos_of_ne_nil hne
  rw [List.length_dropLast] at hlength
  omega

/-- Pages do not bar the way of one that is apart from them, or of one of them. -/
theorem Fills.barred_eq {base : Disk} {location : Location} {files saved : List (List String)}
    (h : Fills base location files saved disk) {names : List String} (hne : names ≠ [])
    (hapart : ∀ other ∈ files, other = names ∨ IsApart other names) :
    disk.barred location names.dropLast = base.barred location names.dropLast := by
  refine barred_congr fun front hfront => ?_
  rcases h.only (location ++ front) with hsame | ⟨hnone, hdirectory, -⟩ | ⟨-, other, hother, heq⟩
  · rw [bars_iff, bars_iff, hsame]
  · rw [bars_iff, bars_iff, hnone, hdirectory]
    simp
  · obtain rfl := List.append_cancel_left heq
    rcases hapart front (h.sub hother) with rfl | happart
    · exact absurd hfront (not_prefix_dropLast hne)
    · exact absurd (hfront.trans (List.dropLast_prefix names)) happart.1

/-- Pages do not matter for whether one apart from them, or one of them, can be saved. -/
theorem Fills.saveFault_eq {base : Disk} {location : Location} {files saved : List (List String)}
    (h : Fills base location files saved disk) {names : List String} (hne : names ≠ [])
    (hapart : ∀ other ∈ files, other = names ∨ IsApart other names) (top : String) :
    disk.saveFault top location names = base.saveFault top location names := by
  refine saveFault_congr (h.barred_eq hne hapart) ?_
  rcases h.only (location ++ names) with hsame | ⟨-, -, other, hother, front, hfront, heq⟩ |
      ⟨⟨content, hfile⟩, -⟩
  · rw [hsame]
  · obtain rfl := List.append_cancel_left heq
    rcases hapart other hother with rfl | happart
    · exact absurd hfront (not_prefix_dropLast hne)
    · exact absurd (hfront.trans (List.dropLast_prefix other)) happart.2
  · constructor
    · intro hdirectory
      rw [hfile] at hdirectory
      cases hdirectory
    · intro hdirectory
      rw [h.grows.directory hdirectory] at hfile
      cases hfile

/-- Nothing changes at the place of a page that is apart from the others. -/
theorem Fills.get?_of_apart {base : Disk} {location : Location} {files saved : List (List String)}
    (h : Fills base location files saved disk) {names : List String}
    (hapart : ∀ other ∈ files, IsApart names other) :
    disk.get? (location ++ names) = base.get? (location ++ names) := by
  rcases h.only (location ++ names) with hsame | ⟨-, -, other, hother, front, hfront, heq⟩ |
      ⟨-, other, hother, heq⟩
  · exact hsame
  · obtain rfl := List.append_cancel_left heq
    exact absurd (hfront.trans (List.dropLast_prefix other)) (hapart other hother).1
  · obtain rfl := List.append_cancel_left heq
    exact absurd (List.prefix_refl _) (hapart _ (h.sub hother)).1

/-! ## The output directory -/

/-- A disk with the output directory made, and where that is. -/
structure Base (disk : Disk) (top : String) (base : Disk) (mid : Position) : Prop where
  made : disk.makeDirectories (spot top []) = (base, none)
  tree : base.IsTree
  adds : disk.AddsDirectories base
  arrive : base.arrive top = .ok mid

variable {top : String}

/-- Directories that can be made lead somewhere. -/
theorem exists_base (htree : disk.IsTree) {base : Disk}
    (h : disk.makeDirectories (spot top []) = (base, none)) : ∃ mid, Base disk top base mid := by
  have hmakes := makes_makeDirectories htree (isTrimmed_spot top [])
  rw [h] at hmakes
  obtain ⟨mid, hmid⟩ := hmakes.enter rfl
  rw [← hmakes.adds.grows.home_eq, enter_spot] at hmid
  exact ⟨mid, h, hmakes.tree, hmakes.adds, hmid⟩

/-- They lead to one place. -/
theorem Base.unique {base base' : Disk} {mid mid' : Position} (h : Base disk top base mid)
    (h' : Base disk top base' mid') : base' = base ∧ mid' = mid := by
  have hbase : base' = base := by
    have hmade := h'.made
    rw [h.made] at hmade
    exact (Prod.mk.inj hmade).1.symm
  subst hbase
  have harrive := h'.arrive
  rw [h.arrive, Except.ok.injEq] at harrive
  exact ⟨rfl, harrive.symm⟩

/-- An output directory that has been made need not be made again. -/
theorem Base.again {base after : Disk} {mid : Position} (h : Base disk top base mid)
    (htree : after.IsTree) (hgrows : base.Grows after) : Base after top after mid := by
  have harrive := hgrows.arrive_ok h.arrive
  refine ⟨?_, htree, .refl after, harrive⟩
  exact makeDirectories_of_directory htree (isTrimmed_spot ..)
    (isMakeable_of_makeDirectories h.made) (enter_spot.trans harrive)

/-- No links lie in the output directory once it has been made. -/
def IsClear (disk : Disk) (top : String) : Prop :=
  ∀ base mid, Base disk top base mid → disk.IsPlain mid.location

/-- A page can be saved when the directories above it can be made and the file written there. -/
theorem save_eq_none_iff {names : List String} {name text : String} (hname : IsFileName name)
    {saved : Disk} :
    disk.save (pathBelow top (names ++ [name])) text = (saved, none) ↔
      ∃ above, disk.makeDirectories (spot top names) = (above, none) ∧
        above.write? (pathBelow top (names ++ [name])) text.toUTF8 = .ok saved := by
  rw [save_pathBelow hname]
  rcases disk.makeDirectories (spot top names) with ⟨above, failure | fault⟩
  · simp only [Prod.mk.injEq, and_true, exists_eq_left']
    split <;> rename_i hwrite <;> rw [hwrite] <;> simp
  · simp

/-- Pages are saved as they would be if the output directory were there. -/
theorem Base.save_eq_none_iff (htree : disk.IsTree) {base : Disk} {mid : Position}
    (h : Base disk top base mid) {names : List String} (hpath : IsPagePath names) (text : String)
    {saved : Disk} :
    disk.save (pathBelow top names) text = (saved, none) ↔
      base.save (pathBelow top names) text = (saved, none) := by
  obtain ⟨front, name, rfl, hfront, hname⟩ := hpath.exists_concat
  rw [Disk.save_eq_none_iff hname, Disk.save_eq_none_iff hname]
  refine exists_congr fun above => and_congr_left fun _ => ?_
  rw [makeDirectories_spot_iff htree hfront, h.made]
  simp

/-- Where the output directory cannot be made no page can be saved. -/
theorem save_of_stuck (htree : disk.IsTree) {made : Disk} {fault : Fault}
    (h : disk.makeDirectories (spot top []) = (made, some fault)) {names : List String}
    (hpath : IsPagePath names) (text : String) :
    (disk.save (pathBelow top names) text).2 ≠ none := by
  obtain ⟨front, name, rfl, hfront, hname⟩ := hpath.exists_concat
  intro hsaved
  obtain ⟨above, habove, -⟩ := (save_eq_none_iff hname).1 (Prod.ext rfl hsaved)
  obtain ⟨base, hbase, -⟩ := (makeDirectories_spot_iff htree hfront).1 habove
  rw [h] at hbase
  cases hbase

/-- A page that has been saved lies in the output directory, and its path can be used. -/
theorem page_of_save (htree : disk.IsTree) (hclear : disk.IsClear top) {names : List String}
    (hpath : IsPagePath names) {text : String} {saved : Disk}
    (h : disk.save (pathBelow top names) text = (saved, none)) :
    ∃ base mid, Base disk top base mid ∧ Base saved top saved mid ∧
      IsUsable (pathBelow top names) ∧
      saved.get? (mid.location ++ names) = some (.file text.toUTF8) := by
  obtain ⟨front, name, rfl, hfront, hname⟩ := hpath.exists_concat
  obtain ⟨above, habove, -⟩ := (save_eq_none_iff hname).1 h
  obtain ⟨base, hmade, -⟩ := (makeDirectories_spot_iff htree hfront).1 habove
  obtain ⟨mid, hbase⟩ := exists_base htree hmade
  have hplain := hbase.adds.grows.isPlain (hclear base mid hbase)
  obtain ⟨hfault, hsaves, -⟩ := save_eq hbase.tree hbase.arrive hplain hpath text
  rw [(hbase.save_eq_none_iff htree hpath text).1 h] at hfault hsaves
  exact ⟨base, mid, hbase, hbase.again hsaves.tree hsaves.grows,
    isUsable_of_saveFault hfault.symm, hsaves.page rfl⟩

/-- A page below the output directory can be read. -/
theorem Base.readText? {base : Disk} {mid : Position} (h : Base disk top base mid)
    {names : List String} (hpath : IsPagePath names) (husable : IsUsable (pathBelow top names))
    {text : String} (hfile : base.get? (mid.location ++ names) = some (.file text.toUTF8)) :
    base.readText? (pathBelow top names) = .ok text := by
  obtain ⟨front, name, rfl, hfront, hname⟩ := hpath.exists_concat
  rw [pathBelow_concat] at husable ⊢
  rw [← List.append_assoc] at hfile
  have harrive : base.arrive (pathBelow top front) = .ok ⟨mid.links, mid.location ++ front⟩ := by
    rw [arrive_pathBelow hfront, h.arrive]
    exact enter_names h.tree (h.tree.directory hfile)
  exact readText?_join husable hname harrive hfile

/-! ## How far a build has come -/

/-- How far a disk has come while pages were saved: nothing has been done, or the output directory
could not be made, or pages have been saved in it. -/
inductive Stage (disk : Disk) (top : String) (files saved : List (List String)) : Disk → Prop
  | same : Stage disk top files saved disk
  | stuck {made : Disk} {fault : Fault}
    (hfault : disk.makeDirectories (spot top []) = (made, some fault)) :
    Stage disk top files saved made
  | filled {base after : Disk} {mid : Position} (hbase : Base disk top base mid)
    (hfills : Fills base mid.location files saved after) : Stage disk top files saved after

/-- Directories below the output directory may be all that saving a page has made. -/
theorem Digs.fills {made : Disk} {location : Location} {front names : List String}
    (hmakes : made.IsTree) (hgrows : disk.Grows made) (h : disk.Digs location front made)
    (hfront : front <+: names.dropLast) : Fills disk location [names] [] made where
  tree := hmakes
  grows := hgrows
  sub := List.nil_subset _
  only place := by
    rcases h.only place with hsame | ⟨hnone, hdirectory, other, hother, heq⟩
    · exact .inl hsame
    · exact .inr (.inl ⟨hnone, hdirectory, names, by simp, other, hother.trans hfront, heq⟩)

/-- The directories that have been made below the output directory were not there. -/
theorem digs_of_makeDirectories (htree : disk.IsTree) {mid : Position}
    (harrive : disk.arrive top = .ok mid) (hplain : disk.IsPlain mid.location)
    {names : List String} (hnames : ∀ name ∈ names, IsFileName name) {made : Disk}
    (h : disk.makeDirectories (spot top names) = (made, none)) :
    disk.Digs mid.location names made := by
  have hmakeable := isMakeable_of_makeDirectories h
  cases hbarred : disk.barred mid.location names with
  | some fault =>
    rw [makeDirectories_of_barred htree harrive hplain hnames hmakeable hbarred] at h
    cases h
  | none =>
    obtain ⟨above, habove, hdigs⟩ := makeDirectories_of_clear htree harrive hnames hmakeable hbarred
    rw [h, Prod.mk.injEq] at habove
    exact habove.1 ▸ hdigs

/-- A page that is not saved leaves what making the directory above it has left. -/
theorem eq_makeDirectories_of_save {names : List String} {name text : String} {saved : Disk}
    {failure : Failure} (hname : IsFileName name)
    (h : disk.save (pathBelow top (names ++ [name])) text = (saved, some failure)) :
    saved = (disk.makeDirectories (spot top names)).1 := by
  rw [save_pathBelow hname] at h
  rcases habove : disk.makeDirectories (spot top names) with ⟨above, _ | fault⟩ <;> rw [habove] at h
  · dsimp only at h
    split at h
    · cases h
    · exact (Prod.mk.inj h).1.symm
  · exact (Prod.mk.inj h).1.symm

/-- Directories that have been made on the way to a page are a stage at which nothing is saved. -/
theorem stage_of_makeDirectories (htree : disk.IsTree) (hclear : disk.IsClear top)
    {base made : Disk} {front other : List String} (hfront : ∀ name ∈ front, IsFileName name)
    (hother : other <+: front) (hbase : disk.makeDirectories (spot top []) = (base, none))
    (hmade : base.makeDirectories (spot top other) = (made, none)) (name : String) :
    Stage disk top [front ++ [name]] [] made := by
  obtain ⟨mid, hmid⟩ := exists_base htree hbase
  have hmakes := makes_makeDirectories hmid.tree (isTrimmed_spot top other)
  rw [hmade] at hmakes
  have hdigs := digs_of_makeDirectories hmid.tree hmid.arrive
    (hmid.adds.grows.isPlain (hclear base mid hmid))
    (fun name hname => hfront name (hother.subset hname)) hmade
  exact .filled hmid (hdigs.fills hmakes.tree hmakes.adds.grows (by simpa using hother))

/-- Saving a page takes a disk one stage further. -/
theorem stage_save (htree : disk.IsTree) (hclear : disk.IsClear top) {names : List String}
    (hpath : IsPagePath names) (text : String) :
    Stage disk top [names] (savedOf names (disk.save (pathBelow top names) text).2)
      (disk.save (pathBelow top names) text).1 := by
  obtain ⟨front, name, rfl, hfront, hname⟩ := hpath.exists_concat
  rcases hsaved : disk.save (pathBelow top (front ++ [name])) text with ⟨saved, _ | failure⟩
  · obtain ⟨above, habove, -⟩ := (save_eq_none_iff hname).1 hsaved
    obtain ⟨base, hbase, -⟩ := (makeDirectories_spot_iff htree hfront).1 habove
    obtain ⟨mid, hmid⟩ := exists_base htree hbase
    have hplain := hmid.adds.grows.isPlain (hclear base mid hmid)
    have hsaves := (save_eq hmid.tree hmid.arrive hplain hpath text).2.1
    rw [(hmid.save_eq_none_iff htree hpath text).1 hsaved] at hsaves
    exact .filled hmid hsaves.fills
  · -- what is left of a page that is not saved are directories on its way
    have hsame := eq_makeDirectories_of_save hname hsaved
    subst hsame
    rcases habove : disk.makeDirectories (spot top front) with ⟨above, _ | fault⟩
    · obtain ⟨base, hbase, hbelow⟩ := (makeDirectories_spot_iff htree hfront).1 habove
      exact stage_of_makeDirectories htree hclear hfront (List.prefix_refl front) hbase hbelow name
    · rcases makeDirectories_spot_eq_some htree hfront habove with
        rfl | ⟨fault, hfault⟩ | ⟨base, other, hother, hbase, hbelow⟩
      · exact .same
      · exact .stuck hfault
      · exact stage_of_makeDirectories htree hclear hfront hother hbase hbelow name

namespace Stage

variable {after : Disk} {files saved : List (List String)}

/-- A build leaves a tree at every stage. -/
theorem tree (htree : disk.IsTree) (h : Stage disk top files saved after) : after.IsTree := by
  rcases h with _ | ⟨hfault⟩ | ⟨-, hfills⟩
  · exact htree
  · have hmakes := makes_makeDirectories htree (isTrimmed_spot top [])
    rw [hfault] at hmakes
    exact hmakes.tree
  · exact hfills.tree

/-- At every stage the disk has grown. -/
theorem grows (htree : disk.IsTree) (h : Stage disk top files saved after) : disk.Grows after := by
  rcases h with _ | ⟨hfault⟩ | ⟨hbase, hfills⟩
  · exact .refl disk
  · have hmakes := makes_makeDirectories htree (isTrimmed_spot top [])
    rw [hfault] at hmakes
    exact hmakes.adds.grows
  · exact hbase.adds.grows.trans hfills.grows

/-- The output directory stays clear. -/
theorem isClear (htree : disk.IsTree) (hclear : disk.IsClear top)
    (h : Stage disk top files saved after) : after.IsClear top := by
  intro later mid hlater
  have hgrows := h.grows htree
  rcases h with _ | ⟨hfault⟩ | ⟨hbase, hfills⟩
  · exact hclear later mid hlater
  · obtain ⟨fault, hagain⟩ := makeDirectories_again htree (isTrimmed_spot ..) hfault
    have hmade := hlater.made
    rw [hagain] at hmade
    cases hmade
  · obtain ⟨-, rfl⟩ := (hbase.again hfills.tree hfills.grows).unique hlater
    exact hgrows.isPlain (hclear _ _ hbase)

/-- One stage after another. -/
theorem trans (htree : disk.IsTree) {later : Disk} {moreFiles moreSaved : List (List String)}
    (h : Stage disk top files saved after) (h' : Stage after top moreFiles moreSaved later)
    (hsub : saved ⊆ files) (hsub' : moreSaved ⊆ moreFiles) :
    Stage disk top (files ++ moreFiles) (saved ++ moreSaved) later := by
  have hsub_append : saved ++ moreSaved ⊆ files ++ moreFiles :=
    List.append_subset.2 ⟨List.subset_append_of_subset_left moreFiles hsub,
      List.subset_append_of_subset_right files hsub'⟩
  rcases h with _ | ⟨hfault⟩ | ⟨hbase, hfills⟩
  · rcases h' with _ | hfault' | ⟨hbase', hfills'⟩
    · exact .same
    · exact .stuck hfault'
    · exact .filled hbase' (hfills'.mono (List.subset_append_right ..) (List.subset_append_right ..)
        hsub_append)
  · -- What could not be made in the first stage cannot be made in the second one.
    obtain ⟨fault, hagain⟩ := makeDirectories_again htree (isTrimmed_spot ..) hfault
    rcases h' with _ | hfault' | ⟨hbase', -⟩
    · exact .stuck hfault
    · rw [hagain, Prod.mk.injEq] at hfault'
      exact hfault'.1 ▸ .stuck hfault
    · have hmade := hbase'.made
      rw [hagain] at hmade
      cases hmade
  · have hagain := hbase.again hfills.tree hfills.grows
    rcases h' with _ | hfault' | ⟨hbase', hfills'⟩
    · exact .filled hbase (hfills.mono (List.subset_append_left ..) (List.subset_append_left ..)
        hsub_append)
    · rw [hagain.made] at hfault'
      cases hfault'
    · obtain ⟨rfl, rfl⟩ := hagain.unique hbase'
      exact .filled hbase (hfills.trans hfills')

/-- Where the output directory has been made, pages are saved in it. -/
theorem fills {mid : Position} (h : Stage disk top files saved after)
    (hbase : Base disk top disk mid) (hsub : saved ⊆ files) :
    Fills disk mid.location files saved after := by
  rcases h with _ | ⟨hfault⟩ | ⟨hbase', hfills⟩
  · exact ⟨hbase.tree, .refl disk, hsub, fun _ => .inl rfl⟩
  · rw [hbase.made] at hfault
    cases hfault
  · obtain ⟨rfl, rfl⟩ := hbase.unique hbase'
    exact hfills

/-- Besides the saved pages there are at most new directories. -/
theorem frame (htree : disk.IsTree) (h : Stage disk top files saved after) (place : Location) :
    after.get? place = disk.get? place ∨
      (disk.get? place = none ∧ after.get? place = some .directory) ∨
      ∃ base mid, Base disk top base mid ∧ ∃ names ∈ saved, place = mid.location ++ names := by
  rcases h with _ | ⟨hfault⟩ | ⟨hbase, hfills⟩
  · exact .inl rfl
  · have hmakes := makes_makeDirectories htree (isTrimmed_spot top [])
    rw [hfault] at hmakes
    exact (hmakes.adds.only place).imp id .inl
  · rcases hfills.only place with hsame | ⟨hnone, hdirectory, -⟩ | ⟨-, names, hnames, heq⟩
    · rw [hsame]
      exact (hbase.adds.only place).imp id .inl
    · exact .inr (.inl ⟨hbase.adds.grows.eq_none hnone, hdirectory⟩)
    · exact .inr (.inr ⟨_, _, hbase, names, hnames, heq⟩)

/-- The place of a page that is not saved holds the file that it held before, or none. -/
theorem file_iff (htree : disk.IsTree) (h : Stage disk top files saved after) {base : Disk}
    {mid : Position} (hbase : Base disk top base mid) {names : List String}
    (hno : names ∉ saved) (content : ByteArray) :
    after.get? (mid.location ++ names) = some (.file content) ↔
      disk.get? (mid.location ++ names) = some (.file content) := by
  rcases h.frame htree (mid.location ++ names) with
    hsame | ⟨hnone, hdirectory⟩ | ⟨base', mid', hbase', other, hother, heq⟩
  · rw [hsame]
  · simp [hnone, hdirectory]
  · obtain ⟨-, rfl⟩ := hbase.unique hbase'
    exact absurd (List.append_cancel_left heq ▸ hother) hno

/-- How far the build has come does not matter for whether a page can be saved. -/
theorem save_eq_none_iff (htree : disk.IsTree) (hclear : disk.IsClear top)
    (h : Stage disk top files saved after) {names : List String} (hpath : IsPagePath names)
    (hapart : ∀ other ∈ files, IsApart other names) (text : String) :
    (after.save (pathBelow top names) text).2 = none ↔
      (disk.save (pathBelow top names) text).2 = none := by
  rcases h with _ | ⟨hfault⟩ | @⟨base, _, mid, hbase, hfills⟩
  · exact Iff.rfl
  · obtain ⟨fault, hagain⟩ := makeDirectories_again htree (isTrimmed_spot ..) hfault
    have hmakes := makes_makeDirectories htree (isTrimmed_spot top [])
    rw [hfault] at hmakes
    have hno := save_of_stuck htree hfault hpath text
    have hno' := save_of_stuck hmakes.tree hagain hpath text
    simp [hno, hno']
  · have hplain := hbase.adds.grows.isPlain (hclear _ _ hbase)
    have hbase_iff : (disk.save (pathBelow top names) text).2 = none ↔
        (base.save (pathBelow top names) text).2 = none := by
      constructor
      · intro hsaved
        rw [(hbase.save_eq_none_iff htree hpath text).1 (Prod.ext rfl hsaved)]
      · intro hsaved
        rw [(hbase.save_eq_none_iff htree hpath text).2 (Prod.ext rfl hsaved)]
    rw [hbase_iff, (save_eq hbase.tree hbase.arrive hplain hpath text).1,
      (save_eq hfills.tree (hfills.grows.arrive_ok hbase.arrive) (hfills.grows.isPlain hplain)
        hpath text).1,
      hfills.saveFault_eq hpath.nonempty fun other hother => .inr (hapart other hother)]

end Stage

end Stencil.Disk
