import Stencil.Proofs.Paths

/-!
# Making directories

`enter` finds the directory that a path leads to; only the names of the path matter for it
(`enter_leading`). With it the operations on directories are described by names and no longer by
texts: `isDirectory_text` and `create?_text`.

`makeDirectories` tries the whole path first and goes up only where that is missing. Main
statements: it adds nothing but directories, and where it succeeds the path leads to one
(`makes_makeDirectories`); it succeeds exactly where it succeeds for the parent and then for the
last name (`makeDirectories_eq_none_iff`); and where it fails it fails again
(`makeDirectories_again`).
-/

namespace Stencil.Disk

variable {disk : Disk}

/-! ## Entering directories -/

/-- The directory that the parts of a path lead to. -/
def enter (disk : Disk) (pos : Position) (parts : List String) : Except Fault Position := do
  let last ← disk.reach pos parts
  match disk.directoryFault? last.location with
  | some fault => .error fault
  | none => .ok last

/-- A path can be entered exactly if it leads to a directory. -/
theorem enter_eq_ok {pos last : Position} {parts : List String} :
    disk.enter pos parts = .ok last ↔
      disk.reach pos parts = .ok last ∧ disk.get? last.location = some .directory := by
  unfold enter
  rw [bind_eq_ok]
  constructor
  · rintro ⟨found, hfound, h⟩
    split at h
    · cases h
    · rename_i hfault
      rw [directoryFault?_eq_none] at hfault
      cases h
      exact ⟨hfound, hfault⟩
  · rintro ⟨hfound, hdirectory⟩
    exact ⟨last, hfound, by rw [directoryFault?_eq_none.2 hdirectory]⟩

/-- From what is no directory no path leads anywhere. -/
theorem enter_of_fault {pos : Position} {fault : Fault}
    (h : disk.directoryFault? pos.location = some fault) (parts : List String) :
    disk.enter pos parts = .error fault := by
  unfold enter
  rcases parts with _ | ⟨part, parts⟩
  · rw [reach_nil]
    change (match disk.directoryFault? pos.location with
      | some fault => Except.error fault
      | none => .ok pos) = _
    rw [h]
  · rw [reach_cons, (Blocks.start h).advance_eq]
    rfl

/-- What goes on only from a directory goes on from where a path leads. -/
theorem reach_bind {α : Type} (pos : Position) (parts : List String)
    {f : Position → Except Fault α}
    (hf : ∀ mid fault, disk.directoryFault? mid.location = some fault → f mid = .error fault) :
    disk.reach pos parts >>= f = disk.enter pos parts >>= f := by
  unfold enter
  rw [bind_assoc]
  cases disk.reach pos parts with
  | error fault => rfl
  | ok mid =>
    change f mid = (match disk.directoryFault? mid.location with
      | some fault => Except.error fault
      | none => .ok mid) >>= f
    cases hfault : disk.directoryFault? mid.location with
    | none => rfl
    | some fault => exact hf mid fault hfault

/-- Entering goes part by part. -/
theorem enter_append (pos : Position) (a b : List String) :
    disk.enter pos (a ++ b) = disk.enter pos a >>= fun mid => disk.enter mid b := by
  rw [← reach_bind pos a fun mid fault hfault => enter_of_fault hfault b]
  unfold enter
  rw [reach_append, bind_assoc]

theorem enter_idle {part : String} (h : isIdle part = true) (pos : Position)
    (parts : List String) : disk.enter pos (part :: parts) = disk.enter pos parts := by
  cases hfault : disk.directoryFault? pos.location with
  | none =>
    unfold enter
    rw [reach_cons, (Advances.idle (directoryFault?_eq_none.1 hfault) h).advance_eq]
    rfl
  | some fault => rw [enter_of_fault hfault, enter_of_fault hfault]

/-- Only the names of a path matter for the directory that it leads to. -/
theorem enter_leading (pos : Position) (parts : List String) :
    disk.enter pos parts = disk.enter pos (leading parts) := by
  induction parts generalizing pos with
  | nil => rfl
  | cons part rest ih =>
    by_cases hidle : isIdle part = true
    · rw [enter_idle hidle, leading_idle hidle, ih]
    · rw [leading_of_not_idle (by simpa using hidle)]
      have hsplit : ∀ parts, disk.enter pos (part :: parts) =
          disk.enter pos [part] >>= fun mid => disk.enter mid parts :=
        fun parts => enter_append pos [part] parts
      rw [hsplit rest, hsplit (leading rest)]
      cases disk.enter pos [part] with
      | error fault => rfl
      | ok mid => exact ih mid

/-- A directory is not found, or it is still the same on a disk that has grown. -/
theorem Grows.enter {grown : Disk} (h : disk.Grows grown) (pos : Position)
    (parts : List String) :
    disk.enter pos parts = .error .notFound ∨
      grown.enter pos parts = disk.enter pos parts := by
  unfold Disk.enter
  rcases h.reach pos parts with hnone | hsame
  · rw [hnone]
    exact .inl rfl
  · rw [hsame]
    cases disk.reach pos parts with
    | error fault => exact .inr rfl
    | ok last =>
      change (match disk.directoryFault? last.location with
          | some fault => Except.error fault
          | none => .ok last) = _ ∨ (match grown.directoryFault? last.location with
          | some fault => Except.error fault
          | none => .ok last) = (match disk.directoryFault? last.location with
          | some fault => Except.error fault
          | none => .ok last)
      cases hfault : disk.directoryFault? last.location with
      | none =>
        rw [directoryFault?_eq_none.2 (h.directory (directoryFault?_eq_none.1 hfault))]
        exact .inr rfl
      | some fault =>
        -- Something may have come where nothing was, but what is no directory stays none.
        rcases directoryFault?_eq_some.1 hfault with ⟨-, rfl⟩ | ⟨-, rfl⟩
        · exact .inl rfl
        · rw [h.notDirectory hfault]
          exact .inr rfl

/-- What could be entered leads to the same place on a grown disk. -/
theorem Grows.enter_ok {grown : Disk} (h : disk.Grows grown) {pos last : Position}
    {parts : List String} (hlast : disk.enter pos parts = .ok last) :
    grown.enter pos parts = .ok last := by
  rcases h.enter pos parts with hnone | hsame
  · rw [hlast] at hnone
    cases hnone
  · rw [hsame, hlast]

/-! ## Paths in use -/

/-- A path that can be handed over for use. -/
def IsUsable (path : String) : Prop :=
  '\x00' ∉ path.toList ∧ path ≠ "" ∧ path.utf8ByteSize ≤ maxPathBytes

instance (path : String) : Decidable (IsUsable path) := inferInstanceAs (Decidable (_ ∧ _))

/-- Where following a path starts. -/
def origin (disk : Disk) (path : String) : Position :=
  ⟨maxLinks, if isAbsolute path then [] else disk.working⟩

/-- A usable path is followed from its origin. -/
theorem usableStartOf?_eq_ok {path : String} (h : IsUsable path) :
    disk.usableStartOf? path = .ok (disk.origin path).location := by
  obtain ⟨hnul, hne, hshort⟩ := h
  unfold usableStartOf? startOf?
  rw [if_neg hnul, if_neg hne]
  change (if _ then _ else _) = _
  rw [if_neg (Nat.not_lt.2 hshort)]
  rfl

/-- Why a path is not usable, whatever the disk. -/
def misuse (path : String) : Fault :=
  if '\x00' ∈ path.toList then .nulInName else if path = "" then .notFound else .nameTooLong

/-- Another path is misused. -/
theorem usableStartOf?_eq_error {path : String} (h : ¬ IsUsable path) :
    disk.usableStartOf? path = .error (misuse path) := by
  unfold usableStartOf? startOf? misuse
  by_cases hnul : '\x00' ∈ path.toList
  · rw [if_pos hnul, if_pos hnul]
    rfl
  rw [if_neg hnul, if_neg hnul]
  by_cases hne : path = ""
  · rw [if_pos hne, if_pos hne]
    rfl
  · have hlong : maxPathBytes < path.utf8ByteSize :=
      Nat.lt_of_not_le fun hshort => h ⟨hnul, hne, hshort⟩
    rw [if_neg hne, if_neg hne]
    change (if _ then _ else _) = _
    rw [if_pos hlong]

/-- Only the empty path is not found for how it is written. -/
theorem misuse_ne_notFound {path : String} (h : path ≠ "") : misuse path ≠ .notFound := by
  unfold misuse
  rw [if_neg h]
  split <;> simp

/-- Where following a path starts that has been taken apart. -/
def home (disk : Disk) (path : Path) : Position :=
  ⟨maxLinks, if path.lead = .root then [] else disk.working⟩

/-- A path is followed from the same place in parts and as a text. -/
theorem origin_text {path : Path} (h : path.IsTrimmed) :
    disk.origin path.text = disk.home path := by
  unfold origin home
  by_cases hroot : path.lead = .root
  · rw [if_pos hroot, if_pos (h.isAbsolute_text.2 hroot)]
  · rw [if_neg hroot, if_neg fun habsolute => hroot (h.isAbsolute_text.1 habsolute)]

/-- The location that a path in use leads to. -/
theorem locate?_eq_reach {path : String} (h : IsUsable path) :
    disk.locate? false path =
      (disk.reach (disk.origin path) (partsOf path.toList)).map (·.location) := by
  unfold locate?
  rw [usableStartOf?_eq_ok h]
  exact follow_eq_reach ..

/-- What is not usable is not located. -/
theorem locate?_of_not_isUsable {path : String} (h : ¬ IsUsable path) (creating : Bool) :
    disk.locate? creating path = .error (misuse path) := by
  unfold locate?
  rw [usableStartOf?_eq_error h]
  rfl

/-- A directory is what a usable path can enter. -/
theorem isDirectory_iff {path : String} :
    disk.isDirectory path = true ↔
      IsUsable path ∧ ∃ last, disk.enter (disk.origin path) (partsOf path.toList) = .ok last := by
  unfold isDirectory
  by_cases husable : IsUsable path
  · rw [locate?_eq_reach husable]
    simp only [enter_eq_ok, husable, true_and]
    cases disk.reach (disk.origin path) (partsOf path.toList) with
    | error fault => simp [Except.map]
    | ok last => simp [Except.map]
  · rw [locate?_of_not_isUsable husable]
    simp [husable]

/-- A path that has been taken apart names a directory when its names lead to one. -/
theorem isDirectory_text {path : Path} (h : path.IsTrimmed) :
    disk.isDirectory path.text = true ↔
      IsUsable path.text ∧ ∃ last, disk.enter (disk.home path) path.names = .ok last := by
  have hnames := h.trim_eq ▸ Path.IsWritten.names_text (h.trim_eq.symm ▸ h.toIsWritten)
  rw [isDirectory_iff, enter_leading, origin_text h, hnames]

/-! ## What a path names -/

/-- The directory that a path leads to. -/
def arrive (disk : Disk) (path : String) : Except Fault Position :=
  disk.enter (disk.origin path) (partsOf path.toList)

/-- Paths start at the same places on a grown disk. -/
theorem Grows.origin_eq {grown : Disk} (h : disk.Grows grown) (path : String) :
    grown.origin path = disk.origin path := by
  unfold origin
  rw [h.working_eq]

/-- A directory that a path arrived at is arrived at on a grown disk. -/
theorem Grows.arrive_ok {grown : Disk} (h : disk.Grows grown) {path : String} {last : Position}
    (hlast : disk.arrive path = .ok last) : grown.arrive path = .ok last := by
  unfold arrive at hlast ⊢
  rw [h.origin_eq]
  exact h.enter_ok hlast

/-- A path that has a canonical one leads to something. -/
theorem canonical?_eq_ok {path : String} {location : Location} :
    disk.canonical? path = .ok location ↔ ('\x00' ∉ path.toList ∧ path ≠ "") ∧
      (pathOf location).utf8ByteSize ≤ maxPathBytes ∧ (disk.get? location).isSome ∧
        ∃ last, disk.reach (disk.origin path) (partsOf path.toList) = .ok last ∧
          last.location = location := by
  unfold canonical? startOf?
  by_cases hnul : '\x00' ∈ path.toList
  · rw [if_pos hnul]
    exact ⟨fun h => (by cases h), fun h => absurd hnul h.1.1⟩
  by_cases hempty : path = ""
  · rw [if_neg hnul, if_pos hempty]
    exact ⟨fun h => (by cases h), fun h => absurd hempty h.1.2⟩
  rw [if_neg hnul, if_neg hempty]
  -- From here on the path is usable, and it is followed to the end.
  change (disk.follow false maxLinks (disk.origin path).location _ >>= _) = _ ↔ _
  rw [follow_eq_reach]
  change ((disk.reach (disk.origin path) _).map (·.location) >>= _) = _ ↔ _
  cases disk.reach (disk.origin path) (partsOf path.toList) with
  | error fault => simp [Except.map, bind, Except.bind]
  | ok last =>
    change (if _ then _ else if _ then _ else _) = _ ↔ _
    constructor
    · intro h
      split at h
      · cases h
      rename_i hshort
      split at h
      · rename_i hsome
        cases h
        exact ⟨⟨hnul, hempty⟩, Nat.le_of_not_lt hshort, hsome, last, rfl, rfl⟩
      · cases h
    · rintro ⟨-, hshort, hsome, last', hlast, rfl⟩
      cases hlast
      rw [if_neg (Nat.not_lt.2 hshort), if_pos hsome]

/-- A directory that can be listed is one that the path leads to. -/
theorem list?_eq_ok {path : String} {inside : List String} :
    disk.list? path = .ok inside ↔ IsUsable path ∧
      ∃ last, disk.arrive path = .ok last ∧ inside = disk.names last.location := by
  unfold list? arrive
  by_cases husable : IsUsable path
  · rw [locate?_eq_reach husable, and_iff_right husable]
    simp only [enter_eq_ok]
    cases disk.reach (disk.origin path) (partsOf path.toList) with
    | error fault => simp [Except.map, bind, Except.bind]
    | ok last =>
      change (match disk.directoryFault? last.location with
        | some fault => Except.error fault
        | none => .ok (disk.names last.location)) = _ ↔ _
      rcases hfault : disk.directoryFault? last.location with _ | fault
      · simp [directoryFault?_eq_none.1 hfault, eq_comm]
      · have hno : disk.get? last.location ≠ some .directory := fun hdirectory => by
          rw [directoryFault?_eq_none.2 hdirectory] at hfault
          cases hfault
        constructor
        · intro h
          cases h
        · rintro ⟨last', ⟨hlast, hdirectory⟩, -⟩
          cases hlast
          exact absurd hdirectory hno
  · rw [locate?_of_not_isUsable husable]
    simp [husable, bind, Except.bind]

/-! ## Making one directory -/

variable {path parent : Path} {name : String}

/-- A path starts where the directory above it does. -/
theorem home_of_below (h : path.IsBelow parent name) : disk.home path = disk.home parent := by
  unfold home
  rw [h.lead_eq]

/-- Paths that are taken apart start at the same places on a grown disk. -/
theorem Grows.home_eq {grown : Disk} (h : disk.Grows grown) (path : Path) :
    grown.home path = disk.home path := by
  unfold home
  rw [h.working_eq]

/-- A new entry goes into the directory that the parent leads to. -/
theorem create?_text (htrimmed : path.IsTrimmed) (hbelow : path.IsBelow parent name)
    (husable : IsUsable path.text) (entry : Entry) :
    disk.create? path.text entry = disk.enter (disk.home path) parent.names >>= fun mid =>
      if maxNameBytes < name.utf8ByteSize then .error .nameTooLong
      else if name = ".." ∨ (disk.get? (mid.location ++ [name])).isSome then .error .occupied
      else .ok (disk.put (mid.location ++ [name]) entry) := by
  obtain ⟨before, htext, hbefore⟩ := hbelow.text
  have hne : ¬ (name == "") = true := by
    intro heq
    have hidle := hbelow.not_idle
    rw [eq_of_beq heq] at hidle
    cases hidle
  -- The last part of the text is the name, with no slash behind it.
  have hlast : (partsOf path.text.toList).reverse.dropWhile (· == "") =
      name :: before.reverse := by
    rw [htext, List.reverse_append, List.reverse_singleton, List.singleton_append]
    exact List.dropWhile_cons_of_neg hne
  have horigin : disk.origin path.text = disk.home path := origin_text htrimmed
  rw [← hbefore, ← enter_leading, ← horigin]
  unfold create? enter
  rw [usableStartOf?_eq_ok husable, ok_bind, hlast]
  dsimp only
  rw [follow_eq_reach, List.reverse_reverse, bind_assoc]
  change (disk.reach (disk.origin path.text) before).map (·.location) >>= _ = _
  cases disk.reach (disk.origin path.text) before with
  | error fault => rfl
  | ok mid =>
    change (match disk.directoryFault? mid.location with | some fault => _ | none => _) =
      (match disk.directoryFault? mid.location with
        | some fault => Except.error fault
        | none => .ok mid) >>= _
    cases disk.directoryFault? mid.location with
    | some fault => rfl
    | none =>
      simp only [hbelow.not_idle, Bool.false_eq_true, false_or]
      rfl

/-- A name leads on only where there is something of that name. -/
theorem isSome_of_enter_name {pos last : Position} (hname : IsName name)
    (h : disk.enter pos [name] = .ok last) :
    (disk.get? (pos.location ++ [name])).isSome := by
  obtain ⟨hreach, hdirectory⟩ := enter_eq_ok.1 h
  rw [reach_cons, bind_eq_ok] at hreach
  obtain ⟨⟨next, ahead⟩, hadvance, hnext⟩ := hreach
  rcases advance_eq_ok.1 hadvance with ⟨-, hidle⟩ | - | - | ⟨-, -, -, hentry, -⟩
  · exact absurd hidle hname.not_idle
  · exact absurd rfl hname.2
  · rw [List.nil_append, reach_nil, Except.ok.injEq] at hnext
    rw [← hnext] at hdirectory
    simp [hdirectory]
  · simp [hentry]

/-- In a directory there is a directory of some name already, or it is made, or something else is in
the way. -/
theorem ensureDirectory_cases (htrimmed : path.IsTrimmed)
    (hbelow : path.IsBelow parent name) (husable : IsUsable path.text) {mid : Position}
    (hmid : disk.enter (disk.home path) parent.names = .ok mid) :
    (∃ last, disk.enter mid [name] = .ok last ∧
        disk.ensureDirectory path.text = (disk, none)) ∨
      (IsFileName name ∧ disk.get? (mid.location ++ [name]) = none ∧
        disk.ensureDirectory path.text =
          (disk.put (mid.location ++ [name]) .directory, none)) ∨
      ∃ fault, (∀ last, disk.enter mid [name] ≠ .ok last) ∧
        (IsFileName name → fault = .occupied ∧ (disk.get? (mid.location ++ [name])).isSome) ∧
        disk.ensureDirectory path.text = (disk, some fault) := by
  have hcreate : disk.create? path.text .directory = _ :=
    create?_text htrimmed hbelow husable .directory
  rw [hmid] at hcreate
  change _ = if _ then _ else _ at hcreate
  have hdirectory : disk.isDirectory path.text = true ↔
      ∃ last, disk.enter mid [name] = .ok last := by
    rw [isDirectory_text htrimmed, hbelow.names_eq, enter_append, hmid]
    exact and_iff_right husable
  -- A fault is only forgiven where the directory turns out to be there already.
  have hblocked : ∀ {fault}, disk.create? path.text .directory = .error fault →
      (∃ last, disk.enter mid [name] = .ok last ∧
        disk.ensureDirectory path.text = (disk, none)) ∨
      (∀ last, disk.enter mid [name] ≠ .ok last) ∧
        disk.ensureDirectory path.text = (disk, some fault) := by
    intro fault hfault
    unfold ensureDirectory
    rw [hfault]
    by_cases hlast : ∃ last, disk.enter mid [name] = .ok last
    · rw [hdirectory.2 hlast]
      exact .inl (hlast.imp fun last hlast => ⟨hlast, rfl⟩)
    · rw [Bool.eq_false_iff.2 fun h => hlast (hdirectory.1 h)]
      exact .inr ⟨fun last h => hlast ⟨last, h⟩, rfl⟩
  by_cases hlong : maxNameBytes < name.utf8ByteSize
  · rw [if_pos hlong] at hcreate
    refine (hblocked hcreate).imp id fun h => .inr ⟨_, h.1, fun hname => ?_, h.2⟩
    exact absurd hname.2.2 (Nat.not_le.2 hlong)
  · rw [if_neg hlong] at hcreate
    by_cases hthere : name = ".." ∨ (disk.get? (mid.location ++ [name])).isSome
    · rw [if_pos hthere] at hcreate
      refine (hblocked hcreate).imp id fun h => .inr ⟨_, h.1, fun hname => ⟨rfl, ?_⟩, h.2⟩
      exact hthere.resolve_left hname.1.2
    · rw [if_neg hthere] at hcreate
      have hname : IsFileName name :=
        ⟨⟨hbelow.not_idle, fun h => hthere (.inl h)⟩, hbelow.no_slash, Nat.le_of_not_lt hlong⟩
      have hnone : disk.get? (mid.location ++ [name]) = none :=
        Option.not_isSome_iff_eq_none.1 fun h => hthere (.inr h)
      refine .inr (.inl ⟨hname, hnone, ?_⟩)
      unfold ensureDirectory
      rw [hcreate]

/-! ## Making all directories of a path -/

/-- A path that can be made: one that is usable, or the empty one, which is the working
directory. -/
def IsMakeable (path : Path) : Prop := path.text = "" ∨ IsUsable path.text

instance (path : Path) : Decidable (IsMakeable path) := inferInstanceAs (Decidable (_ ∨ _))

/-- What is above a path that can be made can be made. -/
theorem isMakeable_parent (hbelow : path.IsBelow parent name) (h : IsMakeable path) :
    IsMakeable parent := by
  obtain ⟨more, hmore⟩ := hbelow.text_prefix
  rcases h with hempty | ⟨hnul, hne, hshort⟩
  · rw [hempty, eq_comm, String.append_eq_empty_iff] at hmore
    exact .inl hmore.1
  · by_cases hempty : parent.text = ""
    · exact .inl hempty
    · rw [hmore] at hnul hshort
      rw [String.toList_append, List.mem_append] at hnul
      rw [String.utf8ByteSize_append] at hshort
      exact .inr ⟨fun hmem => hnul (.inl hmem), hempty, by omega⟩

/-- A path below another one is not empty, so it is usable where it can be made. -/
theorem isUsable_of_below (hbelow : path.IsBelow parent name) (h : IsMakeable path) :
    IsUsable path.text := by
  refine h.resolve_left fun hempty => ?_
  obtain ⟨before, htext, -⟩ := hbelow.text
  rw [hempty] at htext
  have hname : [] ++ [""] = before ++ [name] := htext
  have hidle := hbelow.not_idle
  rw [← (List.append_inj' hname rfl).2 |> List.singleton_inj.1] at hidle
  cases hidle

/-- A path that cannot be made leaves the disk as it is. -/
theorem makeDirectories_of_not_isMakeable (h : ¬ IsMakeable path) :
    disk.makeDirectories path = (disk, some (misuse path.text)) := by
  have hne : path.text ≠ "" := fun hempty => h (.inl hempty)
  have husable : ¬ IsUsable path.text := fun husable => h (.inr husable)
  have hcreate : disk.create? path.text .directory = .error (misuse path.text) := by
    unfold create?
    rw [usableStartOf?_eq_error husable]
    rfl
  have hdirectory : disk.isDirectory path.text = false :=
    Bool.eq_false_iff.2 fun hdirectory => husable (isDirectory_iff.1 hdirectory).1
  rw [makeDirectories, if_neg hne]
  split
  · rename_i hnone _
    rw [hcreate, Except.error.injEq] at hnone
    exact absurd hnone (misuse_ne_notFound hne)
  · rw [ensureDirectory, hcreate, hdirectory]
    rfl

/-- A lone lead is a directory. -/
theorem makeDirectories_lead (htree : disk.IsTree) (lead : Lead) :
    disk.makeDirectories ⟨lead, []⟩ = (disk, none) := by
  by_cases hempty : Path.text ⟨lead, []⟩ = ""
  · rw [makeDirectories, if_pos hempty]
  have husable : IsUsable (Path.text ⟨lead, []⟩) := by
    cases lead with
    | plain => exact absurd rfl hempty
    | root => decide
    | here => decide
  have hstart : disk.get? (disk.home ⟨lead, []⟩).location = some .directory := by
    unfold home
    split
    · exact get?_nil
    · exact htree.working
  have hdirectory : disk.isDirectory (Path.text ⟨lead, []⟩) = true :=
    (isDirectory_text (Path.isTrimmed_empty lead)).2
      ⟨husable, _, enter_eq_ok.2 ⟨reach_nil _, hstart⟩⟩
  -- Where a path starts there is a directory, so it is occupied and that is forgiven.
  have hcreate : disk.create? (Path.text ⟨lead, []⟩) .directory = .error .occupied := by
    unfold create?
    rw [usableStartOf?_eq_ok husable]
    cases lead with
    | plain => exact absurd rfl hempty
    | root => rfl
    | here =>
      change (disk.follow false maxLinks disk.working [] >>= fun directory =>
        match disk.directoryFault? directory with | some fault => _ | none => _) = _
      rw [follow.eq_1]
      change (match disk.directoryFault? disk.working with | some fault => _ | none => _) = _
      rw [directoryFault?_eq_none.2 htree.working]
      rfl
  rw [makeDirectories, if_neg hempty]
  split
  · rename_i hnone _
    rw [hcreate] at hnone
    cases hnone
  · rw [ensureDirectory, hcreate, hdirectory]
    rfl

section

variable (htrimmed : path.IsTrimmed) (hbelow : path.IsBelow parent name)
  (hparent : path.parent? = some parent) (husable : IsUsable path.text)

include htrimmed hbelow husable in
/-- Behind a directory only the last name may have to be made. -/
theorem makeDirectories_of_enter {mid : Position}
    (hmid : disk.enter (disk.home path) parent.names = .ok mid) :
    disk.makeDirectories path = disk.ensureDirectory path.text := by
  have hcreate : disk.create? path.text .directory = _ :=
    create?_text htrimmed hbelow husable .directory
  rw [hmid] at hcreate
  change _ = if _ then _ else _ at hcreate
  rw [makeDirectories, if_neg husable.2.1]
  split
  · rename_i hnone _
    rw [hcreate] at hnone
    split at hnone
    · cases hnone
    · split at hnone <;> cases hnone
  · rfl

include htrimmed hbelow hparent husable in
/-- Behind a directory that is missing the parent has to be made first. -/
theorem makeDirectories_of_notFound
    (hnone : disk.enter (disk.home path) parent.names = .error .notFound) :
    disk.makeDirectories path =
      match disk.makeDirectories parent with
      | (above, none) => above.ensureDirectory path.text
      | (above, some fault) => (above, some fault) := by
  have hcreate : disk.create? path.text .directory = _ :=
    create?_text htrimmed hbelow husable .directory
  rw [hnone] at hcreate
  rw [makeDirectories, if_neg husable.2.1]
  split
  · rename_i above _ hsame
    rw [hparent, Option.some.injEq] at hsame
    subst hsame
    rfl
  · rename_i hother
    exact absurd hparent (hother _ hcreate)

include htrimmed hbelow husable in
/-- Behind anything else nothing can be made. -/
theorem makeDirectories_of_fault {fault : Fault} (hne : fault ≠ .notFound)
    (hfault : disk.enter (disk.home path) parent.names = .error fault) :
    disk.makeDirectories path = (disk, some fault) := by
  have hcreate : disk.create? path.text .directory = _ :=
    create?_text htrimmed hbelow husable .directory
  rw [hfault] at hcreate
  have hdirectory : disk.isDirectory path.text = false := by
    refine Bool.eq_false_iff.2 fun hdirectory => ?_
    obtain ⟨-, last, hlast⟩ := (isDirectory_text htrimmed).1 hdirectory
    rw [hbelow.names_eq, enter_append, hfault] at hlast
    cases hlast
  rw [makeDirectories, if_neg husable.2.1]
  split
  · rename_i hnone _
    rw [hcreate] at hnone
    exact absurd (Except.error.inj hnone) hne
  · rw [ensureDirectory, hcreate]
    change (disk, if disk.isDirectory path.text = true then none else some fault) = _
    rw [hdirectory]
    rfl

end

/-! ## What making directories adds -/

/-- Directories have been added to a disk, and nothing else has changed. -/
structure AddsDirectories (disk grown : Disk) : Prop where
  grows : disk.Grows grown
  only (location : Location) : grown.get? location = disk.get? location ∨
    disk.get? location = none ∧ grown.get? location = some .directory

theorem AddsDirectories.refl (disk : Disk) : disk.AddsDirectories disk :=
  ⟨.refl disk, fun _ => .inl rfl⟩

/-- Directories that are added twice are added. -/
theorem AddsDirectories.trans {grown later : Disk} (h : disk.AddsDirectories grown)
    (h' : grown.AddsDirectories later) : disk.AddsDirectories later := by
  refine ⟨h.grows.trans h'.grows, fun location => ?_⟩
  rcases h.only location with hsame | hnew
  · rw [← hsame]
    exact h'.only location
  · exact .inr ⟨hnew.1, h'.grows.directory hnew.2⟩

/-- A directory that is put where nothing was is added. -/
theorem addsDirectories_put {location : Location} (hnone : disk.get? location = none) :
    disk.AddsDirectories (disk.put location .directory) := by
  refine ⟨grows_put_directory hnone, fun other => ?_⟩
  have hne : location ≠ [] := by
    rintro rfl
    rw [get?_nil] at hnone
    cases hnone
  rw [get?_put disk hne]
  split
  · rename_i heq
    exact .inr ⟨heq ▸ hnone, rfl⟩
  · exact .inl rfl

/-- From a directory a name leads to the directory of that name. -/
theorem enter_name {pos : Position} (hstart : disk.get? pos.location = some .directory)
    (hname : IsFileName name) (hdirectory : disk.get? (pos.location ++ [name]) = some .directory) :
    disk.enter pos [name] = .ok ⟨pos.links, pos.location ++ [name]⟩ := by
  have hadvances : disk.Advances pos name ⟨pos.links, pos.location ++ [name]⟩ [] :=
    .name hstart hname.1 hname.2.2 fun target htarget => by
      rw [hdirectory] at htarget
      cases htarget
  refine enter_eq_ok.2 ⟨?_, hdirectory⟩
  rw [reach_cons, hadvances.advance_eq]
  exact reach_nil _

/-- What becomes of a disk on which the directories of a path are made. -/
structure Makes (disk : Disk) (path : Path) (made : Disk × Option Fault) : Prop where
  tree : made.1.IsTree
  adds : disk.AddsDirectories made.1
  enter : made.2 = none → ∃ last, made.1.enter (disk.home path) path.names = .ok last

/-- A fault that comes first leaves the disk as it is. -/
theorem Makes.nothing (htree : disk.IsTree) (path : Path) (fault : Fault) :
    disk.Makes path (disk, some fault) :=
  ⟨htree, .refl disk, fun h => by cases h⟩

/-- Making sure of the last directory of a path makes the path, if what is above it is there. -/
theorem makes_ensureDirectory (htree : disk.IsTree) (htrimmed : path.IsTrimmed)
    (hbelow : path.IsBelow parent name) (husable : IsUsable path.text) {mid : Position}
    (hmid : disk.enter (disk.home path) parent.names = .ok mid) :
    disk.Makes path (disk.ensureDirectory path.text) := by
  have hstart := (enter_eq_ok.1 hmid).2
  rcases ensureDirectory_cases htrimmed hbelow husable hmid with
    ⟨last, hlast, hmade⟩ | ⟨hname, hnone, hmade⟩ | ⟨fault, -, -, hmade⟩
  · rw [hmade]
    refine ⟨htree, .refl disk, fun _ => ⟨last, ?_⟩⟩
    rw [hbelow.names_eq, enter_append, hmid]
    exact hlast
  · have hadds := addsDirectories_put hnone
    rw [hmade]
    refine ⟨htree.put hstart hname fun _ => rfl, hadds,
      fun _ => ⟨⟨mid.links, mid.location ++ [name]⟩, ?_⟩⟩
    have hne : mid.location ++ [name] ≠ [] := List.concat_ne_nil name mid.location
    have hnew := get?_put disk hne (mid.location ++ [name]) .directory
    rw [if_pos rfl] at hnew
    rw [hbelow.names_eq, enter_append, hadds.grows.enter_ok hmid]
    exact enter_name (hadds.grows.directory hstart) hname hnew
  · rw [hmade]
    exact .nothing htree path fault

/-- Making the directories of a path adds directories only, and where it succeeds the path leads to
one. -/
theorem makes_makeDirectories (htree : disk.IsTree) (htrimmed : path.IsTrimmed) :
    disk.Makes path (disk.makeDirectories path) := by
  refine htrimmed.induction (motive := fun path => disk.Makes path (disk.makeDirectories path))
    (fun lead => ?_) ?_
  · rw [makeDirectories_lead htree]
    have hstart : disk.get? (disk.home ⟨lead, []⟩).location = some .directory := by
      unfold home
      split
      · exact get?_nil
      · exact htree.working
    exact ⟨htree, .refl disk, fun _ => ⟨_, enter_eq_ok.2 ⟨reach_nil _, hstart⟩⟩⟩
  · intro path parent name hparent htrimmed hptrimmed hbelow ih
    by_cases hmakeable : IsMakeable path
    · have husable := isUsable_of_below hbelow hmakeable
      cases henter : disk.enter (disk.home path) parent.names with
      | ok mid =>
        rw [makeDirectories_of_enter htrimmed hbelow husable henter]
        exact makes_ensureDirectory htree htrimmed hbelow husable henter
      | error fault =>
        by_cases hnone : fault = .notFound
        · subst hnone
          rw [makeDirectories_of_notFound htrimmed hbelow hparent husable henter]
          obtain ⟨htree', hadds, hlast⟩ := ih
          cases hmade : disk.makeDirectories parent with
          | mk above failure =>
            rw [hmade] at htree' hadds hlast
            cases failure with
            | some fault => exact ⟨htree', hadds, fun h => by cases h⟩
            | none =>
              obtain ⟨mid, hmid⟩ := hlast rfl
              rw [← hadds.grows.home_eq, ← home_of_below hbelow] at hmid
              obtain ⟨htree'', hadds', hlast'⟩ :=
                makes_ensureDirectory htree' htrimmed hbelow husable hmid
              rw [hadds.grows.home_eq] at hlast'
              exact ⟨htree'', hadds.trans hadds', hlast'⟩
        · rw [makeDirectories_of_fault htrimmed hbelow husable hnone henter]
          exact .nothing htree path fault
    · rw [makeDirectories_of_not_isMakeable hmakeable]
      exact .nothing htree path _

/-! ## When making directories succeeds -/

/-- Nothing has to be made where there is a directory. -/
theorem makeDirectories_of_directory (htree : disk.IsTree) (htrimmed : path.IsTrimmed)
    (hmakeable : IsMakeable path) {last : Position}
    (hlast : disk.enter (disk.home path) path.names = .ok last) :
    disk.makeDirectories path = (disk, none) := by
  rcases htrimmed.below with hparts | ⟨parent, name, -, -, hbelow⟩
  · obtain ⟨lead, parts⟩ := path
    dsimp only at hparts
    exact hparts ▸ makeDirectories_lead htree lead
  · have husable := isUsable_of_below hbelow hmakeable
    rw [hbelow.names_eq, enter_append, bind_eq_ok] at hlast
    obtain ⟨mid, hmid, hlast⟩ := hlast
    rw [makeDirectories_of_enter htrimmed hbelow husable hmid]
    rcases ensureDirectory_cases htrimmed hbelow husable hmid with
      ⟨-, -, hmade⟩ | ⟨hname, hnone, -⟩ | ⟨-, hno, -⟩
    · exact hmade
    · have hsome := isSome_of_enter_name hname.1 hlast
      rw [hnone] at hsome
      cases hsome
    · exact absurd hlast (hno last)

/-- Only what can be made has been made. -/
theorem isMakeable_of_makeDirectories {made : Disk}
    (h : disk.makeDirectories path = (made, none)) : IsMakeable path := by
  by_cases hmakeable : IsMakeable path
  · exact hmakeable
  · rw [makeDirectories_of_not_isMakeable hmakeable] at h
    cases h

/-- What has been made need not be made again. -/
theorem makeDirectories_twice (htree : disk.IsTree) (htrimmed : path.IsTrimmed) {made : Disk}
    (h : disk.makeDirectories path = (made, none)) :
    made.makeDirectories path = (made, none) := by
  have hmakes := makes_makeDirectories htree htrimmed
  rw [h] at hmakes
  obtain ⟨last, hlast⟩ := hmakes.enter rfl
  rw [← hmakes.adds.grows.home_eq] at hlast
  exact makeDirectories_of_directory hmakes.tree htrimmed (isMakeable_of_makeDirectories h) hlast

/-- The directories of a path are made by making those of its parent and then the last one. -/
theorem makeDirectories_eq_none_iff (htree : disk.IsTree) (htrimmed : path.IsTrimmed)
    (hparent : path.parent? = some parent) (hptrimmed : parent.IsTrimmed)
    (hbelow : path.IsBelow parent name) {made : Disk} :
    disk.makeDirectories path = (made, none) ↔
      IsMakeable path ∧ ∃ above, disk.makeDirectories parent = (above, none) ∧
        above.ensureDirectory path.text = (made, none) := by
  by_cases hmakeable : IsMakeable path
  · have husable := isUsable_of_below hbelow hmakeable
    rw [and_iff_right hmakeable]
    cases henter : disk.enter (disk.home path) parent.names with
    | ok mid =>
      have hhere := henter
      rw [home_of_below hbelow] at hhere
      rw [makeDirectories_of_enter htrimmed hbelow husable henter,
        makeDirectories_of_directory htree hptrimmed (isMakeable_parent hbelow hmakeable) hhere]
      simp
    | error fault =>
      by_cases hnone : fault = .notFound
      · subst hnone
        rw [makeDirectories_of_notFound htrimmed hbelow hparent husable henter]
        rcases disk.makeDirectories parent with ⟨above, failure | fault⟩ <;> simp
      · rw [makeDirectories_of_fault htrimmed hbelow husable hnone henter]
        constructor
        · intro h
          cases h
        · rintro ⟨above, habove, -⟩
          -- what is in the way of the parent is still there when its directories have been made
          have hmakes := makes_makeDirectories htree hptrimmed
          rw [habove] at hmakes
          obtain ⟨last, hlast⟩ := hmakes.enter rfl
          rw [home_of_below hbelow] at henter
          rcases hmakes.adds.grows.enter (disk.home parent) parent.names with h | h
          · rw [henter, Except.error.injEq] at h
            exact absurd h hnone
          · rw [henter, hlast] at h
            cases h
  · rw [makeDirectories_of_not_isMakeable hmakeable]
    constructor
    · intro h
      cases h
    · exact fun h => absurd h.1 hmakeable

/-- A directory that cannot be made leaves the disk as it is. -/
theorem eq_of_ensureDirectory {path : String} {made : Disk} {fault : Fault}
    (h : disk.ensureDirectory path = (made, some fault)) : made = disk := by
  unfold ensureDirectory at h
  split at h
  · cases h
  · exact (Prod.mk.inj h).1.symm

/-- Where the parent cannot be made, and nothing changes, the path cannot be made either. -/
theorem makeDirectories_of_parent (htree : disk.IsTree) (htrimmed : path.IsTrimmed)
    (hparent : path.parent? = some parent) (hptrimmed : parent.IsTrimmed)
    (hbelow : path.IsBelow parent name) (husable : IsUsable path.text) {fault : Fault}
    (h : disk.makeDirectories parent = (disk, some fault)) :
    ∃ fault, disk.makeDirectories path = (disk, some fault) := by
  cases henter : disk.enter (disk.home path) parent.names with
  | ok mid =>
    rw [home_of_below hbelow] at henter
    rw [makeDirectories_of_directory htree hptrimmed
      (isMakeable_parent hbelow (.inr husable)) henter] at h
    cases h
  | error reason =>
    by_cases hnone : reason = .notFound
    · subst hnone
      rw [makeDirectories_of_notFound htrimmed hbelow hparent husable henter, h]
      exact ⟨fault, rfl⟩
    · exact ⟨reason, makeDirectories_of_fault htrimmed hbelow husable hnone henter⟩

/-- Directories that could not be made cannot be made afterwards. -/
theorem makeDirectories_again (htree : disk.IsTree) (htrimmed : path.IsTrimmed) {made : Disk}
    {fault : Fault} (h : disk.makeDirectories path = (made, some fault)) :
    ∃ fault, made.makeDirectories path = (made, some fault) := by
  revert made fault
  refine htrimmed.induction (motive := fun path => ∀ {made : Disk} {fault : Fault},
    disk.makeDirectories path = (made, some fault) →
      ∃ fault, made.makeDirectories path = (made, some fault)) (fun lead => ?_) ?_
  · intro made fault h
    rw [makeDirectories_lead htree] at h
    cases h
  · intro path parent name hparent htrimmed hptrimmed hbelow ih made fault h
    by_cases hmakeable : IsMakeable path
    · have husable := isUsable_of_below hbelow hmakeable
      cases henter : disk.enter (disk.home path) parent.names with
      | ok mid =>
        rw [makeDirectories_of_enter htrimmed hbelow husable henter] at h
        obtain rfl := eq_of_ensureDirectory h
        exact ⟨fault, (makeDirectories_of_enter htrimmed hbelow husable henter).trans h⟩
      | error reason =>
        by_cases hnone : reason = .notFound
        · subst hnone
          rw [makeDirectories_of_notFound htrimmed hbelow hparent husable henter] at h
          have hmakes := makes_makeDirectories htree hptrimmed
          cases habove : disk.makeDirectories parent with
          | mk above failure =>
            rw [habove] at h hmakes
            -- The directories above were made or not; in both cases the same fault is met again
            -- behind them.
            cases failure with
            | some reason =>
              cases h
              obtain ⟨again, hagain⟩ := ih habove
              exact makeDirectories_of_parent hmakes.tree htrimmed hparent hptrimmed hbelow husable
                hagain
            | none =>
              obtain rfl := eq_of_ensureDirectory h
              obtain ⟨mid, hmid⟩ := hmakes.enter rfl
              rw [← hmakes.adds.grows.home_eq, ← home_of_below hbelow] at hmid
              exact ⟨fault, (makeDirectories_of_enter htrimmed hbelow husable hmid).trans h⟩
        · rw [makeDirectories_of_fault htrimmed hbelow husable hnone henter] at h
          cases h
          exact ⟨_, makeDirectories_of_fault htrimmed hbelow husable hnone henter⟩
    · exact ⟨_, makeDirectories_of_not_isMakeable hmakeable⟩

end Stencil.Disk
