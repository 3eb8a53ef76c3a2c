import Stencil.Proofs.Filling

/-!
# Saving pages again

A page that has been saved is saved to the same place again, whatever has been added to the disk in
the meantime and whether or not links lie on its way: `IsSaved.again`. A page that could not be
saved still cannot where no links lie in the output directory: `Stage.save_failure_eq`.
-/

namespace Stencil.Disk

variable {disk : Disk}

/-! ## The place of a file -/

/-- A directory, or a place in one where a file can lie. -/
inductive IsPlace (disk : Disk) (location : Location) : Prop
  | directory (h : disk.get? location = some .directory)
  | inside {above : Location} {name : String} (habove : disk.get? above = some .directory)
    (hname : IsFileName name) (heq : location = above ++ [name])
    (hlink : ∀ target, disk.get? location ≠ some (.link target))

/-- The directory above a directory is one. -/
theorem IsTree.directory_dropLast (h : disk.IsTree) {location : Location}
    (hdirectory : disk.get? location = some .directory) :
    disk.get? location.dropLast = some .directory := by
  rcases List.eq_nil_or_concat' location with rfl | ⟨above, name, rfl⟩
  · exact get?_nil
  · rw [List.dropLast_concat]
    exact h.directory hdirectory

/-- A path leads to a place where a file can lie, unless it leads nowhere. -/
theorem isPlace_of_follow (htree : disk.IsTree) {creating : Bool} {links : Nat}
    {start location : Location} {parts : List String}
    (hparts : ∀ part ∈ parts, '/' ∉ part.toList) (hstart : disk.IsPlace start)
    (h : disk.follow creating links start parts = .ok location) : disk.IsPlace location := by
  fun_induction follow disk creating links start parts with
  | case1 => exact Except.ok.inj h ▸ hstart
  | case2 | case5 | case6 | case7 => cases h
  | case3 links start part rest hfault hidle ih =>
    exact ih (fun other hother => hparts other (List.mem_cons_of_mem _ hother)) hstart h
  | case4 links start rest hfault _ ih =>
    refine ih (fun other hother => hparts other (List.mem_cons_of_mem _ hother)) ?_ h
    exact .directory (htree.directory_dropLast (directoryFault?_eq_none.1 hfault))
  -- A link goes on from the root or from the directory that holds it.
  | case8 start part rest hfault hidle hup hslash hlong target links hentry ih =>
    refine ih ?_ ?_ h
    · intro other hother
      rcases List.mem_append.1 hother with hother | hother
      · exact not_mem_of_mem_partsOf hother
      · exact hparts other (List.mem_cons_of_mem _ hother)
    · split
      · exact .directory get?_nil
      · exact .directory (directoryFault?_eq_none.1 hfault)
  | case9 start part rest hfault hidle hup hslash hlong links hno hno' ih =>
    refine ih (fun other hother => hparts other (List.mem_cons_of_mem _ hother)) ?_ h
    have hname : IsFileName part := ⟨⟨by simpa using hidle, hup⟩, hparts part List.mem_cons_self,
      Nat.le_of_not_lt hlong⟩
    refine .inside (directoryFault?_eq_none.1 hfault) hname rfl fun target htarget => ?_
    cases links with
    | zero => exact hno target htarget rfl
    | succ links => exact hno' target links htarget rfl

/-- Where a path leads to a place it leads there on a disk that has grown. -/
theorem Grows.follow_ok {grown : Disk} (hgrows : disk.Grows grown) {creating : Bool} {links : Nat}
    {start location : Location} {parts : List String}
    (h : disk.follow creating links start parts = .ok location) :
    grown.follow creating links start parts = .ok location := by
  have hclear : ∀ {start}, disk.directoryFault? start = none →
      grown.directoryFault? start = none := fun hfault =>
    directoryFault?_eq_none.2 (hgrows.directory (directoryFault?_eq_none.1 hfault))
  fun_induction follow disk creating links start parts with
  | case1 links start =>
    rw [follow.eq_1]
    exact h
  | case2 | case5 | case6 | case7 => cases h
  | case3 links start part rest hfault hidle ih =>
    rw [follow.eq_def]
    dsimp only
    rw [hclear hfault]
    dsimp only
    rw [if_pos hidle]
    exact ih h
  | case4 links start rest hfault hidle ih =>
    rw [follow.eq_def]
    dsimp only
    rw [hclear hfault]
    dsimp only
    rw [if_neg hidle, if_pos rfl]
    exact ih h
  | case8 start part rest hfault hidle hup hslash hlong target links hentry ih =>
    rw [follow.eq_def]
    dsimp only
    rw [hclear hfault]
    dsimp only
    rw [if_neg hidle, if_neg hup, if_neg hslash, if_neg hlong, hgrows.link_iff.2 hentry]
    exact ih h
  | case9 start part rest hfault hidle hup hslash hlong links hno hno' ih =>
    rw [follow.eq_def]
    dsimp only
    rw [hclear hfault]
    dsimp only
    rw [if_neg hidle, if_neg hup, if_neg hslash, if_neg hlong]
    split
    · rename_i hlink
      exact absurd rfl (hno _ (hgrows.link_iff.1 hlink))
    · rename_i hlink
      exact absurd rfl (hno' _ _ (hgrows.link_iff.1 hlink))
    · exact ih h

/-- A location stays where it was on a grown disk. -/
theorem Grows.locate?_ok {grown : Disk} (hgrows : disk.Grows grown) {creating : Bool}
    {path : String} {place : Location} (h : disk.locate? creating path = .ok place) :
    grown.locate? creating path = .ok place := by
  by_cases husable : IsUsable path
  · unfold locate? at h ⊢
    rw [usableStartOf?_eq_ok husable] at h ⊢
    rw [hgrows.origin_eq]
    exact hgrows.follow_ok h
  · rw [locate?_of_not_isUsable husable] at h
    cases h

/-- A file is written in a directory, where there was another one or nothing. -/
theorem exists_of_write? (htree : disk.IsTree) {path : String} {content : ByteArray}
    {written : Disk} (h : disk.write? path content = .ok written) :
    ∃ above name, disk.get? above = some .directory ∧ IsFileName name ∧
      disk.locate? true path = .ok (above ++ [name]) ∧
      (∀ entry, disk.get? (above ++ [name]) = some entry → ∃ old, entry = .file old) ∧
      written = disk.put (above ++ [name]) (.file content) := by
  unfold write? at h
  rw [bind_eq_ok] at h
  obtain ⟨place, hplace, hput⟩ := h
  split at hput
  · cases hput
  rename_i hno
  -- Following a path comes to a directory or to a name inside of one.
  have hkind : disk.IsPlace place := by
    by_cases husable : IsUsable path
    · unfold locate? at hplace
      rw [usableStartOf?_eq_ok husable] at hplace
      refine isPlace_of_follow htree (fun part => not_mem_of_mem_partsOf) (.directory ?_) hplace
      unfold origin
      split
      · exact get?_nil
      · exact htree.working
    · rw [locate?_of_not_isUsable husable] at hplace
      cases hplace
  rcases hkind with hdirectory | @⟨above, name, habove, hname, rfl, hlink⟩
  · exact absurd hdirectory hno
  · refine ⟨above, name, habove, hname, hplace, fun entry hentry => ?_, (Except.ok.inj hput).symm⟩
    rcases entry with old | _ | target
    · exact ⟨old, rfl⟩
    · exact absurd hentry hno
    · exact absurd hentry (hlink target)

/-! ## A page that has been saved -/

/-- A page has been saved to a place: it lies there, and besides there are at most new directories.
It is saved to the same place on any disk that has grown from there. -/
structure IsSaved (disk : Disk) (path text : String) (saved : Disk) (place : Location) : Prop where
  tree : saved.IsTree
  grows : disk.Grows saved
  page : saved.get? place = some (.file text.toUTF8)
  only (location : Location) : location ≠ place → saved.get? location = disk.get? location ∨
    disk.get? location = none ∧ saved.get? location = some .directory
  again {later : Disk} (htree : later.IsTree) (hgrows : saved.Grows later) :
    later.save path text = (later.put place (.file text.toUTF8), none)

/-- A page that is saved has a place, where it would be saved again. -/
theorem exists_isSaved (htree : disk.IsTree) {top text : String} {names : List String}
    (hpath : IsPagePath names) {saved : Disk}
    (h : disk.save (pathBelow top names) text = (saved, none)) :
    ∃ place, disk.IsSaved (pathBelow top names) text saved place := by
  obtain ⟨front, name, rfl, hfront, hname⟩ := hpath.exists_concat
  obtain ⟨above, habove, hwrite⟩ := (save_eq_none_iff hname).1 h
  have hmakes := makes_makeDirectories htree (isTrimmed_spot top front)
  rw [habove] at hmakes
  obtain ⟨directory, last, hdirectory, hlast, hplace, hold, rfl⟩ :=
    exists_of_write? hmakes.tree hwrite
  have hne : directory ++ [last] ≠ [] := by simp
  have hget := fun other => get?_put above hne other (.file text.toUTF8)
  have hadds : disk.AddsDirectories above := hmakes.adds
  have hgrows : above.Grows (above.put (directory ++ [last]) (.file text.toUTF8)) :=
    grows_put_file hne hold
  refine ⟨directory ++ [last], ?_, hadds.grows.trans hgrows, by rw [hget, if_pos rfl], ?_, ?_⟩
  · refine hmakes.tree.put hdirectory hlast fun hthere => ?_
    obtain ⟨old, heq⟩ := hold _ hthere
    cases heq
  · intro location hother
    rw [hget, if_neg hother]
    exact hadds.only location
  · -- Whatever is added later, the page can be written again: its directory stays, and it stays a
    -- file.
    intro later htree' hlater
    have hall := hgrows.trans hlater
    rw [save_eq_none_iff hname]
    refine ⟨later, ?_, ?_⟩
    · obtain ⟨pos, hpos⟩ := hmakes.enter rfl
      have henter := hall.enter_ok hpos
      rw [← hadds.grows.home_eq, ← hall.home_eq] at henter
      exact makeDirectories_of_directory htree' (isTrimmed_spot ..)
        (isMakeable_of_makeDirectories habove) henter
    · have hfile : later.get? (directory ++ [last]) ≠ some .directory := by
        obtain ⟨content, hcontent⟩ := hlater.file (by rw [hget, if_pos rfl])
        rw [hcontent]
        simp
      rw [write?, hall.locate?_ok hplace, ok_bind]
      split
      · rename_i hthere
        exact absurd hthere hfile
      · rfl

/-! ## A page that could not be saved -/

/-- A page that is not saved leaves new directories at most. -/
theorem addsDirectories_of_save (htree : disk.IsTree) {top text : String} {names : List String}
    (hpath : IsPagePath names) {made : Disk} {failure : Failure}
    (h : disk.save (pathBelow top names) text = (made, some failure)) :
    made.IsTree ∧ disk.AddsDirectories made := by
  obtain ⟨front, name, rfl, hfront, hname⟩ := hpath.exists_concat
  have hmakes := makes_makeDirectories htree (isTrimmed_spot top front)
  rw [save_pathBelow hname] at h
  rcases habove : disk.makeDirectories (spot top front) with ⟨above, failed⟩
  have hsame : made = above := by
    rw [habove] at h
    rcases failed with _ | fault
    · dsimp only at h
      split at h
      · cases h
      · exact (Prod.mk.inj h).1.symm
    · exact (Prod.mk.inj h).1.symm
  rw [habove] at hmakes
  exact hsame ▸ ⟨hmakes.tree, hmakes.adds⟩

variable {top : String} {base : Disk} {mid : Position} {names : List String}

/-- A page whose way is barred leaves the disk as it is. -/
theorem save_of_barred (htree : disk.IsTree) (harrive : disk.arrive top = .ok mid)
    (hplain : disk.IsPlain mid.location) (hpath : IsPagePath names) (text : String)
    (h : IsMakeable (spot top names.dropLast) → disk.barred mid.location names.dropLast ≠ none) :
    (disk.save (pathBelow top names) text).1 = disk := by
  obtain ⟨front, name, rfl, hfront, hname⟩ := hpath.exists_concat
  rw [List.dropLast_concat] at h
  rw [save_pathBelow hname]
  by_cases hmakeable : IsMakeable (spot top front)
  · obtain ⟨fault, hbarred⟩ := Option.ne_none_iff_exists'.1 (h hmakeable)
    rw [makeDirectories_of_barred htree harrive hplain hfront hmakeable hbarred]
  · rw [makeDirectories_of_not_isMakeable hmakeable]

/-- In an output directory that is new nothing bars the way, and pages are saved as if it had been
there. -/
theorem Base.save_eq_of_new (htree : disk.IsTree) (hbase : Base disk top base mid)
    (hnew : disk.get? mid.location = none) (hpath : IsPagePath names) (text : String)
    (hmakeable : IsMakeable (spot top names.dropLast)) :
    disk.save (pathBelow top names) text = base.save (pathBelow top names) text := by
  obtain ⟨front, name, rfl, hfront, hname⟩ := hpath.exists_concat
  rw [List.dropLast_concat] at hmakeable
  have hclear : base.barred mid.location front = none := by
    refine barred_eq_none.2 ?_
    rintro ⟨other, -, hbars⟩
    obtain ⟨entry, hentry, hne⟩ := bars_iff.1 hbars
    rcases hbase.adds.only (mid.location ++ other) with hsame | ⟨-, hdirectory⟩
    · rw [hsame, htree.none_below hnew] at hentry
      cases hentry
    · exact hne (Option.some.inj (hentry.symm.trans hdirectory))
  obtain ⟨made, hmade, -⟩ :=
    makeDirectories_of_clear hbase.tree hbase.arrive hfront hmakeable hclear
  have hmade' := (makeDirectories_spot_iff htree hfront).2 ⟨base, hbase.made, hmade⟩
  rw [save_pathBelow hname, save_pathBelow hname, hmade, hmade']

section

variable (htree : disk.IsTree) (hclear : disk.IsClear top) (hbase : Base disk top base mid)
  (hold : disk.arrive top = .ok mid ∨ disk.get? mid.location = none) (hpath : IsPagePath names)
  (text : String)

include htree hclear hbase hold hpath

/-- Whether a page can be saved, and why not, is read off the disk with the output directory. -/
theorem Base.save_failure_eq :
    (disk.save (pathBelow top names) text).2 = base.saveFault top mid.location names ∧
      (IsMakeable (spot top names.dropLast) → base.barred mid.location names.dropLast = none →
        (disk.save (pathBelow top names) text).1.get? (mid.location ++ names.dropLast) =
          some .directory) := by
  obtain ⟨hfault, -, hway⟩ := save_eq hbase.tree hbase.arrive
    (hbase.adds.grows.isPlain (hclear base mid hbase)) hpath text
  rcases hold with harrive | hnew
  · have hsame : base = disk := by
      have hmade := makeDirectories_of_directory htree (isTrimmed_spot top [])
        (isMakeable_of_makeDirectories hbase.made) (enter_spot.trans harrive)
      rw [hbase.made] at hmade
      exact (Prod.mk.inj hmade).1
    subst hsame
    exact ⟨hfault, hway⟩
  by_cases hmakeable : IsMakeable (spot top names.dropLast)
  · rw [hbase.save_eq_of_new htree hnew hpath text hmakeable]
    exact ⟨hfault, hway⟩
  · refine ⟨?_, fun h => absurd h hmakeable⟩
    obtain ⟨front, name, rfl, hfront, hname⟩ := hpath.exists_concat
    unfold saveFault
    rw [if_pos hmakeable]
    rw [List.dropLast_concat] at hmakeable ⊢
    rw [save_pathBelow hname, makeDirectories_of_not_isMakeable hmakeable]

variable {files saved : List (List String)} {after : Disk}

/-- Neither does it matter how far the build has come. -/
theorem Stage.save_failure_eq (h : Stage disk top files saved after)
    (hapart : ∀ other ∈ files, other = names ∨ IsApart other names) :
    (after.save (pathBelow top names) text).2 = base.saveFault top mid.location names ∧
      (IsMakeable (spot top names.dropLast) → base.barred mid.location names.dropLast = none →
        (after.save (pathBelow top names) text).1.get? (mid.location ++ names.dropLast) =
          some .directory) := by
  rcases h with _ | ⟨hfault⟩ | ⟨hbase', hfills⟩
  · exact hbase.save_failure_eq htree hclear hold hpath text
  · rw [hbase.made] at hfault
    cases hfault
  · obtain ⟨rfl, rfl⟩ := hbase.unique hbase'
    have hgrows := hbase.adds.grows.trans hfills.grows
    obtain ⟨hfault, -, hway⟩ := save_eq hfills.tree (hfills.grows.arrive_ok hbase.arrive)
      (hgrows.isPlain (hclear _ _ hbase)) hpath text
    rw [hfills.saveFault_eq hpath.nonempty hapart] at hfault
    rw [hfills.barred_eq hpath.nonempty hapart] at hway
    exact ⟨hfault, hway⟩

end

/-! ## What a build leaves alone -/

/-- A build does not change what lies at a location: a directory, which stays one, or else something
that is not in the output directory and is not made on the way to it. -/
def IsSpared (disk base : Disk) (out location : Location) : Prop :=
  disk.get? location = some .directory ∨
    base.get? location = disk.get? location ∧ ¬ out <+: location

namespace Stage

variable {files saved : List (List String)} {after : Disk}

/-- Where the output directory can be made, nothing has been done or pages have been saved in it. -/
theorem eq_or_fills (hbase : Base disk top base mid) (h : Stage disk top files saved after) :
    after = disk ∨ Fills base mid.location files saved after := by
  rcases h with _ | ⟨hfault⟩ | ⟨hbase', hfills⟩
  · exact .inl rfl
  · rw [hbase.made] at hfault
    cases hfault
  · obtain ⟨rfl, rfl⟩ := hbase.unique hbase'
    exact .inr hfills

/-- What is spared is the same at every stage. -/
theorem get?_of_isSpared (hbase : Base disk top base mid) (h : Stage disk top files saved after)
    {location : Location} (hspared : IsSpared disk base mid.location location) :
    after.get? location = disk.get? location := by
  rcases h.eq_or_fills hbase with rfl | hfills
  · rfl
  rcases hspared with hdirectory | ⟨hsame, hbeside⟩
  · rw [hdirectory, (hbase.adds.grows.trans hfills.grows).directory hdirectory]
  rcases hfills.only location with hkept | ⟨-, -, -, -, front, -, rfl⟩ | ⟨-, names, -, rfl⟩
  · exact hkept.trans hsame
  · exact absurd (List.prefix_append _ front) hbeside
  · exact absurd (List.prefix_append _ names) hbeside

/-- What is new at a stage is a directory that is made with the output directory, or lies below
it. -/
theorem new_cases (hbase : Base disk top base mid) (hpaths : ∀ names ∈ files, IsPagePath names)
    (h : Stage disk top files saved after) {location : Location} {entry : Entry}
    (hnone : disk.get? location = none) (hentry : after.get? location = some entry) :
    (entry = .directory ∧ base.get? location = some .directory) ∨
      ∃ rest, rest ≠ [] ∧ location = mid.location ++ rest := by
  rcases h.eq_or_fills hbase with rfl | hfills
  · rw [hnone] at hentry
    cases hentry
  rcases hfills.only location with hkept | ⟨hnone', -, -, -, front, -, rfl⟩ |
      ⟨-, names, hnames, rfl⟩
  · rcases hbase.adds.only location with hsame | ⟨-, hdirectory⟩
    · rw [hkept, hsame, hnone] at hentry
      cases hentry
    · rw [hkept, hdirectory, Option.some.injEq] at hentry
      exact .inl ⟨hentry.symm, hdirectory⟩
  · -- the output directory itself is there once it has been made
    refine .inr ⟨front, ?_, rfl⟩
    rintro rfl
    rw [List.append_nil, (enter_eq_ok.1 hbase.arrive).2] at hnone'
    cases hnone'
  · exact .inr ⟨names, (hpaths names (hfills.sub hnames)).nonempty, rfl⟩

end Stage

/-! ## Going through the pages again -/

/-- A disk on which the pages of a build are saved once more: at each location it holds what the
first time has left in the end, or the content that the file had when the first time had come as
far. -/
structure Resumes (after now later : Disk) : Prop where
  tree : later.IsTree
  grows : after.Grows later
  entry (location : Location) : later.get? location = after.get? location ∨
    later.get? location = now.get? location ∧ ∃ content past,
      after.get? location = some (.file content) ∧ now.get? location = some (.file past)

namespace Resumes

variable {after now next later : Disk}

theorem start (htree : after.IsTree) (now : Disk) : Resumes after now after :=
  ⟨htree, .refl after, fun _ => .inl rfl⟩

/-- In the end everything is as it was left. -/
theorem get?_eq_of_end (h : Resumes after after later) (location : Location) :
    later.get? location = after.get? location := (h.entry location).elim id And.left

/-- What does not change for the rest of the build is as it was the first time. -/
theorem get?_eq (h : Resumes after now later) {location : Location}
    (hsame : after.get? location = now.get? location) :
    later.get? location = now.get? location :=
  (h.entry location).elim (fun hleft => hleft.trans hsame) And.left

/-- There are the same directories. -/
theorem directory_iff (h : Resumes after now later) (location : Location) :
    later.get? location = some .directory ↔ after.get? location = some .directory := by
  rcases h.entry location with hsame | ⟨hsame, content, past, hcontent, hpast⟩
  · rw [hsame]
  · rw [hsame, hcontent, hpast]
    simp

/-- The same bars the way. -/
theorem bars_iff (h : Resumes after now later) (location : Location) :
    later.Bars location ↔ after.Bars location := by
  rw [Disk.bars_iff, Disk.bars_iff]
  rcases h.entry location with hsame | ⟨hsame, content, past, hcontent, hpast⟩
  · rw [hsame]
  · rw [hsame, hcontent, hpast]
    simp

/-- New directories make no difference. -/
theorem adds (h : Resumes after now later) (hadds : now.AddsDirectories next) :
    Resumes after next later where
  tree := h.tree
  grows := h.grows
  entry location := by
    refine (h.entry location).imp id ?_
    rintro ⟨hsame, content, past, hcontent, hpast⟩
    have hkept : next.get? location = now.get? location := by
      refine (hadds.only location).resolve_right ?_
      rintro ⟨hnone, -⟩
      rw [hpast] at hnone
      cases hnone
    exact ⟨hsame.trans hkept.symm, content, past, hcontent, hkept.trans hpast⟩

/-- A page that has been saved the first time is saved again. -/
theorem save (h : Resumes after now later) {path text : String} {place : Location}
    (hsaved : now.IsSaved path text next place) (hgrows : next.Grows after) :
    ∃ again, later.save path text = (again, none) ∧ Resumes after next again := by
  have hnext : next.Grows later := hgrows.trans h.grows
  obtain ⟨content, hcontent⟩ := hgrows.file hsaved.page
  obtain ⟨old, hold⟩ := hnext.file hsaved.page
  have hne : place ≠ [] := by
    rintro rfl
    rw [get?_nil] at hold
    cases hold
  have hget := fun other => get?_put later hne other (.file text.toUTF8)
  refine ⟨_, hsaved.again h.tree hnext, ?_, ?_, fun location => ?_⟩
  · obtain ⟨above, name, rfl⟩ := (List.eq_nil_or_concat' place).resolve_left hne
    refine h.tree.put (h.tree.directory hold) (h.tree.isFileName hold) fun hthere => ?_
    rw [hold] at hthere
    cases hthere
  · -- The page takes the place of a file.
    refine h.grows.trans (grows_put_file hne fun entry hentry => ?_)
    rw [hold] at hentry
    cases hentry
    exact ⟨old, rfl⟩
  · rw [hget]
    -- The page is as the first build left it, everything else as it was before this turn.
    by_cases hplace : location = place
    · subst hplace
      rw [if_pos rfl]
      exact .inr ⟨hsaved.page.symm, content, _, hcontent, hsaved.page⟩
    rw [if_neg hplace]
    refine (h.entry location).imp id ?_
    rintro ⟨hsame, content, past, hcontent, hpast⟩
    have hkept : next.get? location = now.get? location := by
      refine (hsaved.only location hplace).resolve_right ?_
      rintro ⟨hnone, -⟩
      rw [hpast] at hnone
      cases hnone
    exact ⟨hsame.trans hkept.symm, content, past, hcontent, hkept.trans hpast⟩

variable {before files saved more : List (List String)}

/-- A page that could not be saved the first time cannot be saved again. -/
theorem save_fault (htree : disk.IsTree) (hclear : disk.IsClear top)
    (hbase : Base disk top base mid)
    (hold : disk.arrive top = .ok mid ∨ disk.get? mid.location = none) (hpath : IsPagePath names)
    (hstage : Stage disk top before saved now) (hbefore : before ⊆ files)
    (hfills : Fills base mid.location files more after)
    (hapart : ∀ other ∈ files, other = names ∨ IsApart other names)
    (h : Resumes after now later) {text : String} {failure : Failure}
    (hfault : now.save (pathBelow top names) text = (next, some failure))
    (hgrows : next.Grows after) :
    ∃ again, later.save (pathBelow top names) text = (again, some failure) ∧
      Resumes after now again := by
  obtain ⟨hverdict, hway⟩ :=
    hstage.save_failure_eq htree hclear hbase hold hpath text fun other hother =>
      hapart other (hbefore hother)
  rw [hfault] at hverdict hway
  have hbarred : later.barred mid.location names.dropLast =
      base.barred mid.location names.dropLast :=
    (barred_congr fun front _ => h.bars_iff _).trans (hfills.barred_eq hpath.nonempty hapart)
  have hsame : later.saveFault top mid.location names = base.saveFault top mid.location names :=
    (saveFault_congr (barred_congr fun front _ => h.bars_iff _) (h.directory_iff _)).trans
      (hfills.saveFault_eq hpath.nonempty hapart top)
  have hplain : later.IsPlain mid.location := by
    refine h.grows.isPlain (hfills.grows.isPlain (hbase.adds.grows.isPlain ?_))
    exact hclear base mid hbase
  have harrive := h.grows.arrive_ok (hfills.grows.arrive_ok hbase.arrive)
  obtain ⟨hverdict', hsaves, -⟩ := save_eq h.tree harrive hplain hpath text
  rw [hsame, ← hverdict] at hverdict'
  refine ⟨_, Prod.ext rfl hverdict', hsaves.tree, h.grows.trans hsaves.grows, fun location => ?_⟩
  have hkept : (later.save (pathBelow top names) text).1.get? location =
      later.get? location := by
    by_cases hclean : IsMakeable (spot top names.dropLast) ∧
        base.barred mid.location names.dropLast = none
    · -- the directories on the way are there since the first time
      have hthere := h.grows.directory (hgrows.directory (hway hclean.1 hclean.2))
      rcases hsaves.only location with hsame | ⟨hnone, -, front, ⟨rest, hrest⟩, rfl⟩ | ⟨hsaved, -⟩
      · exact hsame
      · rw [← hrest, ← List.append_assoc, h.tree.none_below hnone] at hthere
        cases hthere
      · rw [hverdict'] at hsaved
        cases hsaved
    · rw [save_of_barred h.tree harrive hplain hpath text fun hmakeable hnone =>
        hclean ⟨hmakeable, hbarred ▸ hnone⟩]
  rw [hkept]
  exact h.entry location

end Resumes

end Stencil.Disk
