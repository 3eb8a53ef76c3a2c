import Mathlib.Data.List.Infix
import Stencil.Build
import Stencil.Proofs.Directories

/-!
# Saving below a directory

A page is saved to a path below the output directory. Where that directory holds no links, its names
are the locations below it, and whether a page can be saved is read off what lies there:
`saveFault` says why it cannot, and `save_eq` that saving does as it says.
-/

namespace Stencil.Disk

variable {disk : Disk}

/-! ## Going down by names -/

/-- No link lies at or below a location. -/
def IsPlain (disk : Disk) (top : Location) : Prop :=
  ∀ below target, disk.get? (top ++ below) ≠ some (.link target)

/-- Below a directory without links there are none either. -/
theorem IsPlain.below {top : Location} (h : disk.IsPlain top) (names : List String) :
    disk.IsPlain (top ++ names) := by
  intro below target
  rw [List.append_assoc]
  exact h (names ++ below) target

/-- No links come with growth. -/
theorem Grows.isPlain {grown : Disk} (h : disk.Grows grown) {top : Location}
    (hplain : disk.IsPlain top) : grown.IsPlain top :=
  fun below target htarget => hplain below target (h.link_iff.1 htarget)

/-- Something lies at a location that is no directory, so that nothing can lie below it. -/
def Bars (disk : Disk) (location : Location) : Prop :=
  disk.directoryFault? location = some .notDirectory

instance (location : Location) : Decidable (disk.Bars location) :=
  inferInstanceAs (Decidable (_ = _))

/-- What bars the way is anything but a directory. -/
theorem bars_iff {location : Location} :
    disk.Bars location ↔ ∃ entry, disk.get? location = some entry ∧ entry ≠ .directory := by
  unfold Bars
  rw [directoryFault?_eq_some]
  simp

/-- What lies at a location is a directory, or nothing, or bars the way. -/
theorem directory_or_none_or_bars (location : Location) :
    disk.get? location = some .directory ∨ disk.get? location = none ∨ disk.Bars location := by
  rw [bars_iff]
  cases disk.get? location with
  | none => simp
  | some entry => by_cases hentry : entry = .directory <;> simp [hentry]

/-- Names lead to the directory that they name. -/
theorem enter_names (htree : disk.IsTree) {names : List String} {pos : Position}
    (hdirectory : disk.get? (pos.location ++ names) = some .directory) :
    disk.enter pos names = .ok ⟨pos.links, pos.location ++ names⟩ := by
  induction names using List.reverseRecOn with
  | nil =>
    rw [List.append_nil] at hdirectory ⊢
    exact enter_eq_ok.2 ⟨reach_nil pos, hdirectory⟩
  | append_singleton front name ih =>
    rw [← List.append_assoc] at hdirectory ⊢
    have hfront := htree.directory hdirectory
    rw [enter_append, ih hfront]
    exact enter_name hfront (htree.isFileName hdirectory) hdirectory

/-- Names lead nowhere where something bars the way. -/
theorem enter_of_bars (htree : disk.IsTree) {names front : List String} {pos : Position}
    (hplain : disk.IsPlain pos.location) (hfront : front <+: names)
    (hbars : disk.Bars (pos.location ++ front)) :
    disk.enter pos names = .error .notDirectory := by
  obtain ⟨rest, rfl⟩ := hfront
  rcases List.eq_nil_or_concat' front with rfl | ⟨before, name, rfl⟩
  · rw [List.append_nil] at hbars
    exact enter_of_fault hbars _
  · obtain ⟨entry, hentry, hne⟩ := bars_iff.1 hbars
    rw [← List.append_assoc] at hentry
    have hbefore := htree.directory hentry
    have hname := htree.isFileName hentry
    have hadvances : disk.Advances ⟨pos.links, pos.location ++ before⟩ name
        ⟨pos.links, pos.location ++ before ++ [name]⟩ [] := by
      refine .name hbefore hname.1 hname.2.2 fun target htarget => ?_
      exact hplain.below before [name] target htarget
    rw [List.append_assoc, enter_append, enter_names htree hbefore]
    change disk.enter _ (name :: rest) = _
    unfold enter
    rw [reach_cons, hadvances.advance_eq]
    rw [← List.append_assoc] at hbars
    apply enter_of_fault
    exact hbars

/-- Names lead nowhere where something is missing. -/
theorem enter_of_missing (htree : disk.IsTree) {names : List String} {pos : Position}
    (hnames : ∀ name ∈ names, IsFileName name)
    (hnone : disk.get? (pos.location ++ names) = none)
    (hclear : ∀ front, front <+: names → ¬ disk.Bars (pos.location ++ front)) :
    disk.enter pos names = .error .notFound := by
  induction names using List.reverseRecOn with
  | nil =>
    rw [List.append_nil] at hnone
    exact enter_of_fault (directoryFault?_eq_some.2 (.inl ⟨hnone, rfl⟩)) _
  | append_singleton front name ih =>
    have hinit : front <+: front ++ [name] := List.prefix_append ..
    rw [enter_append]
    rcases disk.directory_or_none_or_bars (pos.location ++ front) with hfront | hfront | hfront
    · -- Everything but the last name is there.
      rw [enter_names htree hfront]
      rw [← List.append_assoc] at hnone
      have hname := hnames name (by simp)
      have hadvances : disk.Advances ⟨pos.links, pos.location ++ front⟩ name
          ⟨pos.links, pos.location ++ front ++ [name]⟩ [] := by
        refine .name hfront hname.1 hname.2.2 fun target htarget => ?_
        rw [hnone] at htarget
        cases htarget
      change disk.enter _ [name] = _
      unfold enter
      rw [reach_cons, hadvances.advance_eq]
      exact enter_of_fault (directoryFault?_eq_some.2 (.inl ⟨hnone, rfl⟩)) []
    · rw [ih (fun other hother => hnames other (hinit.subset hother)) hfront
        (fun other hother => hclear other (hother.trans hinit))]
      rfl
    · exact absurd hfront (hclear front hinit)

/-! ## The directories below the output directory -/

/-- The path of the directory that the names lead to, as it is made. -/
def spot (top : String) (names : List String) : Path := (Path.ofString (pathBelow top names)).trim

section

variable {top : String} {names : List String} {name : String}

theorem isTrimmed_spot (top : String) (names : List String) : (spot top names).IsTrimmed :=
  (Path.isWritten_ofString _).trimmed

/-- The path of a directory leads to it. -/
theorem enter_spot : disk.enter (disk.home (spot top names)) (spot top names).names =
    disk.arrive (pathBelow top names) := by
  have hhome : disk.home (spot top names) = disk.origin (pathBelow top names) := by
    unfold home origin
    change (Position.mk _ (if (Path.ofString (pathBelow top names)).lead = .root then _ else _)) = _
    by_cases habsolute : isAbsolute (pathBelow top names) = true
    · rw [if_pos ((Path.lead_ofString _).2 habsolute), if_pos habsolute]
    · rw [if_neg fun h => habsolute ((Path.lead_ofString _).1 h), if_neg habsolute]
  rw [hhome, spot, Path.names_trim, Path.names_ofString, ← enter_leading]
  rfl

/-- A path below another one is followed from where that one arrives. -/
theorem arrive_pathBelow (hnames : ∀ name ∈ names, IsFileName name) :
    disk.arrive (pathBelow top names) = disk.arrive top >>= fun mid => disk.enter mid names := by
  have horigin : disk.origin (pathBelow top names) = disk.origin top := by
    unfold origin
    rw [isAbsolute_pathBelow top hnames]
  unfold arrive
  rw [enter_leading, horigin, leading_partsOf_pathBelow top hnames, enter_append, ← enter_leading]

/-- The directory of a page is what is above its path. -/
theorem parent?_spot (hname : IsFileName name) :
    (Path.ofString (pathBelow top (names ++ [name]))).parent? = some (spot top names) := by
  rw [pathBelow_concat, Path.parent?_join _ hname]
  rfl

/-- Each directory of a page is a name below the one above it. -/
theorem isBelow_spot (top : String) (hnames : ∀ other ∈ names ++ [name], IsFileName other) :
    (spot top (names ++ [name])).IsBelow (spot top names) name := by
  have hname := hnames name (by simp)
  have hnames_eq : ∀ {names : List String}, (∀ name ∈ names, IsFileName name) →
      (spot top names).names = leading (partsOf top.toList) ++ names := by
    intro names hnames
    rw [spot, Path.names_trim, Path.names_ofString, leading_partsOf_pathBelow top hnames]
  have hall := hnames_eq hnames
  rcases (isTrimmed_spot top (names ++ [name])).below with
    hparts | ⟨parent, other, hparent, -, hbelow⟩
  · rw [Path.names, hparts] at hall
    simp at hall
  · rw [spot, Path.parent?_trim, parent?_spot hname, Option.some.injEq] at hparent
    subst hparent
    have hother := hbelow.names_eq
    rw [hall, hnames_eq fun other hother => hnames other (by simp [hother]),
      ← List.append_assoc] at hother
    obtain rfl := List.singleton_inj.1 (List.append_inj' hother rfl).2
    exact hbelow

/-- The directories below another one can be made when that one has been made and they can be made
then. -/
theorem makeDirectories_spot_iff (htree : disk.IsTree) (hnames : ∀ name ∈ names, IsFileName name)
    {made : Disk} :
    disk.makeDirectories (spot top names) = (made, none) ↔
      ∃ base, disk.makeDirectories (spot top []) = (base, none) ∧
        base.makeDirectories (spot top names) = (made, none) := by
  induction names using List.reverseRecOn generalizing made with
  | nil =>
    -- Making the top again changes nothing.
    have htwice : ∀ {base : Disk}, disk.makeDirectories (spot top []) = (base, none) →
        base.makeDirectories (spot top []) = (base, none) :=
      makeDirectories_twice htree (isTrimmed_spot ..)
    constructor
    · intro h
      exact ⟨made, h, htwice h⟩
    · rintro ⟨base, hbase, hmade⟩
      rw [htwice hbase, Prod.mk.injEq] at hmade
      exact hmade.1 ▸ hbase
  | append_singleton names name ih =>
    have hparent : (spot top (names ++ [name])).parent? = some (spot top names) := by
      rw [spot, Path.parent?_trim, parent?_spot (hnames name (by simp))]
    have hbelow := isBelow_spot top hnames
    have ih := @ih fun other hother => hnames other (by simp [hother])
    rw [makeDirectories_eq_none_iff htree (isTrimmed_spot ..) hparent (isTrimmed_spot ..) hbelow]
    constructor
    · rintro ⟨hmakeable, above, habove, hmade⟩
      obtain ⟨base, hbase, hbelow'⟩ := ih.1 habove
      have htree' := (hbase ▸ makes_makeDirectories htree (isTrimmed_spot ..)).tree
      refine ⟨base, hbase, ?_⟩
      rw [makeDirectories_eq_none_iff htree' (isTrimmed_spot ..) hparent (isTrimmed_spot ..) hbelow]
      exact ⟨hmakeable, above, hbelow', hmade⟩
    · rintro ⟨base, hbase, hmade⟩
      have htree' := (hbase ▸ makes_makeDirectories htree (isTrimmed_spot ..)).tree
      rw [makeDirectories_eq_none_iff htree' (isTrimmed_spot ..) hparent (isTrimmed_spot ..)
        hbelow] at hmade
      obtain ⟨hmakeable, above, habove, hmade⟩ := hmade
      exact ⟨hmakeable, above, ih.2 ⟨base, hbase, habove⟩, hmade⟩

/-- Where the directories below another one cannot be made, the disk is as it was, or that one could
not be made, or some of them have been made below it. -/
theorem makeDirectories_spot_eq_some (htree : disk.IsTree)
    (hnames : ∀ name ∈ names, IsFileName name) {made : Disk} {fault : Fault}
    (h : disk.makeDirectories (spot top names) = (made, some fault)) :
    made = disk ∨ (∃ fault, disk.makeDirectories (spot top []) = (made, some fault)) ∨
      ∃ base front, front <+: names ∧ disk.makeDirectories (spot top []) = (base, none) ∧
        base.makeDirectories (spot top front) = (made, none) := by
  induction names using List.reverseRecOn generalizing made fault with
  | nil => exact .inr (.inl ⟨fault, h⟩)
  | append_singleton names name ih =>
    have hparent : (spot top (names ++ [name])).parent? = some (spot top names) := by
      rw [spot, Path.parent?_trim, parent?_spot (hnames name (by simp))]
    have hbelow := isBelow_spot top hnames
    have hfront : ∀ other ∈ names, IsFileName other := fun other hother =>
      hnames other (by simp [hother])
    by_cases hmakeable : IsMakeable (spot top (names ++ [name]))
    · have husable := isUsable_of_below hbelow hmakeable
      cases henter : disk.enter (disk.home (spot top (names ++ [name])))
          (spot top names).names with
      | ok mid =>
        rw [makeDirectories_of_enter (isTrimmed_spot ..) hbelow husable henter] at h
        exact .inl (eq_of_ensureDirectory h)
      | error reason =>
        by_cases hnone : reason = .notFound
        · subst hnone
          rw [makeDirectories_of_notFound (isTrimmed_spot ..) hbelow hparent husable henter] at h
          cases habove : disk.makeDirectories (spot top names) with
          | mk above failure =>
            rw [habove] at h
            -- What is above was made before the fault, or the fault is that of what is above.
            cases failure with
            | some reason =>
              cases h
              refine (ih hfront habove).imp id (.imp id ?_)
              rintro ⟨base, front, hinit, hmade⟩
              exact ⟨base, front, hinit.trans (List.prefix_append ..), hmade⟩
            | none =>
              obtain rfl := eq_of_ensureDirectory h
              obtain ⟨base, hbase, hmade⟩ := (makeDirectories_spot_iff htree hfront).1 habove
              exact .inr (.inr ⟨base, names, List.prefix_append .., hbase, hmade⟩)
        · rw [makeDirectories_of_fault (isTrimmed_spot ..) hbelow husable hnone henter] at h
          exact .inl (Prod.mk.inj h).1.symm
    · rw [makeDirectories_of_not_isMakeable hmakeable] at h
      exact .inl (Prod.mk.inj h).1.symm

end

/-! ## What lies on the way -/

/-- Something bars the way along some names below a directory. -/
def BarsWay (disk : Disk) (top : Location) (names : List String) : Prop :=
  ∃ front, front <+: names ∧ disk.Bars (top ++ front)

instance (top : Location) (names : List String) : Decidable (disk.BarsWay top names) :=
  decidable_of_iff (∃ front ∈ names.inits, disk.Bars (top ++ front)) (by simp [BarsWay])

/-- Why the directories of some names cannot be made below a directory, if something bars the
way. -/
def barred (disk : Disk) (top : Location) (names : List String) : Option Fault :=
  if disk.BarsWay top names.dropLast then some .notDirectory
  else if disk.Bars (top ++ names) then some .occupied
  else none

/-- Nothing is found to bar the way exactly if nothing does. -/
theorem barred_eq_none {top : Location} {names : List String} :
    disk.barred top names = none ↔ ¬ disk.BarsWay top names := by
  have hsplit : disk.BarsWay top names ↔
      disk.BarsWay top names.dropLast ∨ disk.Bars (top ++ names) := by
    unfold BarsWay
    constructor
    · rintro ⟨front, hfront, hbars⟩
      rcases List.eq_nil_or_concat' names with rfl | ⟨before, name, rfl⟩
      · exact .inl ⟨front, hfront, hbars⟩
      · rcases List.prefix_concat_iff.1 hfront with rfl | hfront
        · exact .inr hbars
        · rw [List.dropLast_concat]
          exact .inl ⟨front, hfront, hbars⟩
    · rintro (⟨front, hfront, hbars⟩ | hbars)
      · exact ⟨front, hfront.trans (List.dropLast_prefix names), hbars⟩
      · exact ⟨names, List.prefix_refl names, hbars⟩
  rw [hsplit, not_or]
  unfold barred
  split
  · simp [*]
  · split <;> simp [*]

/-- Directories have been made along some names below a directory, where there were none. -/
structure Digs (disk : Disk) (top : Location) (names : List String) (made : Disk) : Prop where
  only (location : Location) : made.get? location = disk.get? location ∨
    disk.get? location = none ∧ made.get? location = some .directory ∧
      ∃ front, front <+: names ∧ location = top ++ front
  last : made.get? (top ++ names) = some .directory

theorem Digs.nothing {top : Location} {names : List String}
    (h : disk.get? (top ++ names) = some .directory) : disk.Digs top names disk :=
  ⟨fun _ => .inl rfl, h⟩

/-- Directories are made one behind the other. -/
theorem Digs.append {above made : Disk} {top : Location} {names more : List String}
    (h : disk.Digs top names above) (h' : above.Digs (top ++ names) more made) :
    disk.Digs top (names ++ more) made := by
  refine ⟨fun location => ?_, by simpa using h'.last⟩
  rcases h'.only location with hsame | ⟨hnone, hdirectory, front, hfront, heq⟩
  · rcases h.only location with hsame' | ⟨hnone, hdirectory, front, hfront, heq⟩
    · exact .inl (hsame.trans hsame')
    · exact .inr ⟨hnone, hsame.trans hdirectory, front,
        hfront.trans (List.prefix_append ..), heq⟩
  · refine .inr ⟨?_, hdirectory, names ++ front, (List.prefix_append_right_inj names).2 hfront,
      by rw [heq, List.append_assoc]⟩
    rcases h.only location with hsame' | ⟨hnone', -, -⟩
    · rw [← hsame', hnone]
    · exact hnone'

/-- A directory can be made in another one where nothing bars the way. -/
theorem ensureDirectory_of_clear {path parent : Path} {name : String}
    (htrimmed : path.IsTrimmed) (hbelow : path.IsBelow parent name)
    (husable : IsUsable path.text) (hname : IsFileName name) {pos : Position}
    (hpos : disk.enter (disk.home path) parent.names = .ok pos)
    (hclear : ¬ disk.Bars (pos.location ++ [name])) :
    ∃ made, disk.ensureDirectory path.text = (made, none) ∧
      disk.Digs pos.location [name] made := by
  rcases ensureDirectory_cases htrimmed hbelow husable hpos with
    ⟨last, hlast, hmade⟩ | ⟨-, hnone, hmade⟩ | ⟨fault, hno, hthere, -⟩
  · refine ⟨disk, hmade, .nothing ?_⟩
    have hsome := isSome_of_enter_name hname.1 hlast
    rcases disk.directory_or_none_or_bars (pos.location ++ [name]) with hdir | hnone | hbars
    · exact hdir
    · rw [hnone] at hsome
      cases hsome
    · exact absurd hbars hclear
  · have hget := fun other => get?_put disk
      (List.append_ne_nil_of_right_ne_nil pos.location (List.cons_ne_nil name [])) other .directory
    refine ⟨_, hmade, fun location => ?_, ?_⟩
    · rw [hget]
      split
      · rename_i heq
        exact .inr ⟨heq ▸ hnone, rfl, [name], List.prefix_refl _, heq⟩
      · exact .inl rfl
    · rw [hget, if_pos rfl]
  · -- It cannot fail: what occupies the name would be a directory or bar the way.
    rcases disk.directory_or_none_or_bars (pos.location ++ [name]) with hdir | hnone | hbars
    · exact absurd (enter_name (enter_eq_ok.1 hpos).2 hname hdir) (hno _)
    · have hsome := (hthere hname).2
      rw [hnone] at hsome
      cases hsome
    · exact absurd hbars hclear

section

variable {top : String} {names : List String} {mid : Position}

/-- From where a path leads its names lead on. -/
theorem enter_spot_of_arrive (harrive : disk.arrive top = .ok mid)
    (hnames : ∀ name ∈ names, IsFileName name) :
    disk.enter (disk.home (spot top names)) (spot top names).names = disk.enter mid names := by
  rw [enter_spot, arrive_pathBelow hnames, harrive]
  rfl

/-- The directories of a page are entered from where the output directory is. -/
theorem enter_home_spot {name : String} (harrive : disk.arrive top = .ok mid)
    (hnames : ∀ other ∈ names ++ [name], IsFileName other) :
    disk.enter (disk.home (spot top (names ++ [name]))) (spot top names).names =
      disk.enter mid names := by
  rw [home_of_below (isBelow_spot top hnames),
    enter_spot_of_arrive harrive fun other hother => hnames other (by simp [hother])]

/-- Where something bars the way the directories cannot be made, and nothing changes. -/
theorem makeDirectories_of_barred (htree : disk.IsTree) (harrive : disk.arrive top = .ok mid)
    (hplain : disk.IsPlain mid.location) (hnames : ∀ name ∈ names, IsFileName name)
    (hmakeable : IsMakeable (spot top names)) {fault : Fault}
    (hbarred : disk.barred mid.location names = some fault) :
    disk.makeDirectories (spot top names) = (disk, some fault) := by
  rcases List.eq_nil_or_concat' names with rfl | ⟨front, name, rfl⟩
  · have hstart := (enter_eq_ok.1 harrive).2
    have hnone : disk.barred mid.location [] = none := by
      refine barred_eq_none.2 ?_
      rintro ⟨front, hfront, hbars⟩
      rw [List.prefix_nil.1 hfront, List.append_nil, bars_iff, hstart] at hbars
      simp at hbars
    rw [hnone] at hbarred
    cases hbarred
  have hbelow := isBelow_spot top hnames
  have husable := isUsable_of_below hbelow hmakeable
  have henter := enter_home_spot harrive hnames
  unfold barred at hbarred
  rw [List.dropLast_concat] at hbarred
  -- The way is barred above the last directory, which stops the walk to it, or by what has its
  -- name.
  by_cases hinner : disk.BarsWay mid.location front
  · rw [if_pos hinner, Option.some.injEq] at hbarred
    obtain ⟨other, hother, hbars⟩ := hinner
    rw [enter_of_bars htree hplain hother hbars, hbarred] at henter
    exact makeDirectories_of_fault (isTrimmed_spot ..) hbelow husable (by simp [← hbarred]) henter
  · rw [if_neg hinner] at hbarred
    split at hbarred
    · rename_i hbars
      obtain ⟨entry, hentry, hne⟩ := bars_iff.1 hbars
      rw [← List.append_assoc] at hentry
      rw [enter_names htree (htree.directory hentry)] at henter
      have hno : disk.enter ⟨mid.links, mid.location ++ front⟩ [name] = .error .notDirectory :=
        enter_of_bars htree (hplain.below front) (List.prefix_refl [name])
          (by rwa [List.append_assoc])
      rw [makeDirectories_of_enter (isTrimmed_spot ..) hbelow husable henter]
      rcases ensureDirectory_cases (isTrimmed_spot ..) hbelow husable henter with
        ⟨last, hlast, -⟩ | ⟨-, hnone, -⟩ | ⟨reason, -, hreason, hmade⟩
      · rw [hno] at hlast
        cases hlast
      · rw [hentry] at hnone
        cases hnone
      · rw [hmade, (hreason (hnames name (by simp))).1, Option.some.inj hbarred]
    · cases hbarred

/-- Where nothing bars the way the directories are made. -/
theorem makeDirectories_of_clear (htree : disk.IsTree) (harrive : disk.arrive top = .ok mid)
    (hnames : ∀ name ∈ names, IsFileName name) (hmakeable : IsMakeable (spot top names))
    (hbarred : disk.barred mid.location names = none) :
    ∃ made, disk.makeDirectories (spot top names) = (made, none) ∧
      disk.Digs mid.location names made := by
  rw [barred_eq_none] at hbarred
  induction names using List.reverseRecOn with
  | nil =>
    have hstart := (enter_eq_ok.1 harrive).2
    have henter := enter_spot_of_arrive harrive hnames
    rw [show disk.enter mid [] = .ok mid from enter_eq_ok.2 ⟨reach_nil mid, hstart⟩] at henter
    refine ⟨disk, makeDirectories_of_directory htree (isTrimmed_spot ..) hmakeable henter,
      fun _ => .inl rfl, ?_⟩
    rwa [List.append_nil]
  | append_singleton names name ih =>
    have hbelow := isBelow_spot top hnames
    have husable := isUsable_of_below hbelow hmakeable
    have henter := enter_home_spot harrive hnames
    have hinit : names <+: names ++ [name] := List.prefix_append ..
    have hname := hnames name (by simp)
    have hparent : (spot top (names ++ [name])).parent? = some (spot top names) := by
      rw [spot, Path.parent?_trim, parent?_spot hname]
    have hinner : ¬ disk.BarsWay mid.location names := fun ⟨front, hfront, hbars⟩ =>
      hbarred ⟨front, hfront.trans hinit, hbars⟩
    have hlast : ¬ disk.Bars (mid.location ++ (names ++ [name])) := fun hbars =>
      hbarred ⟨_, List.prefix_refl _, hbars⟩
    rw [← List.append_assoc] at hlast
    rcases disk.directory_or_none_or_bars (mid.location ++ names) with hdir | hnone | hbars
    · -- All but the last directory are there.
      rw [enter_names htree hdir] at henter
      obtain ⟨made, hmade, hdigs⟩ :=
        ensureDirectory_of_clear (isTrimmed_spot ..) hbelow husable hname henter hlast
      refine ⟨made, ?_, (Digs.nothing hdir).append hdigs⟩
      rw [makeDirectories_of_enter (isTrimmed_spot ..) hbelow husable henter, hmade]
    · -- They are made first, and nothing new bars the way then.
      obtain ⟨above, habove, hdigs⟩ := ih (fun other hother => hnames other (by simp [hother]))
        (isMakeable_parent hbelow hmakeable) hinner
      have hmakes := makes_makeDirectories htree (isTrimmed_spot top names)
      rw [habove] at hmakes
      rw [enter_of_missing htree (fun other hother => hnames other (by simp [hother])) hnone
        fun front hfront hbars => hinner ⟨front, hfront, hbars⟩] at henter
      have henter' := enter_home_spot (hmakes.adds.grows.arrive_ok harrive) hnames
      rw [enter_names hmakes.tree hdigs.last] at henter'
      have hclear : ¬ above.Bars (mid.location ++ names ++ [name]) := by
        rw [bars_iff]
        rintro ⟨entry, hentry, hne⟩
        rcases hmakes.adds.only (mid.location ++ names ++ [name]) with hsame | ⟨-, hnew⟩
        · rw [hsame, htree.none_below hnone] at hentry
          cases hentry
        · exact hne (Option.some.inj (hentry.symm.trans hnew))
      obtain ⟨made, hmade, hdigs'⟩ :=
        ensureDirectory_of_clear (isTrimmed_spot ..) hbelow husable hname henter' hclear
      refine ⟨made, ?_, hdigs.append hdigs'⟩
      rw [makeDirectories_of_notFound (isTrimmed_spot ..) hbelow hparent husable henter, habove]
      exact hmade
    · exact absurd ⟨names, List.prefix_refl names, hbars⟩ hinner

end

/-! ## The location of a page -/

/-- The path of a name in a directory leads through the directory to the name. -/
theorem exists_partsOf_join (disk : Disk) (top : String) {name : String} (hname : IsFileName name) :
    ∃ before, partsOf (join top name).toList = before ++ [name] ∧
      disk.enter (disk.origin (join top name)) before = disk.arrive top := by
  obtain ⟨before, hparts, hbefore⟩ := partsOf_join top hname.2.1
  have horigin : disk.origin (join top name) = disk.origin top := by
    unfold origin
    rw [isAbsolute_join top hname.2.1]
  refine ⟨before, hparts, ?_⟩
  rw [arrive, enter_leading, hbefore, ← enter_leading, horigin]

/-- A name in a directory leads to what it names, unless that is a link. -/
theorem reach_join {top name : String} {last : Position} (hname : IsFileName name)
    (harrive : disk.arrive top = .ok last)
    (hlink : ∀ target, disk.get? (last.location ++ [name]) ≠ some (.link target)) :
    disk.reach (disk.origin (join top name)) (partsOf (join top name).toList) =
      .ok ⟨last.links, last.location ++ [name]⟩ := by
  obtain ⟨before, hparts, hbefore⟩ := exists_partsOf_join disk top hname
  have hstart : disk.get? last.location = some .directory := (enter_eq_ok.1 harrive).2
  have hadvances : disk.Advances last name ⟨last.links, last.location ++ [name]⟩ [] :=
    .name hstart hname.1 hname.2.2 hlink
  rw [← hbefore] at harrive
  rw [hparts, reach_append, (enter_eq_ok.1 harrive).1, ok_bind, reach_cons, hadvances.advance_eq]
  exact reach_nil _

/-- A name in a directory is the location of what it names, unless that is a link. -/
theorem locate?_join {top name : String} {last : Position} (creating : Bool)
    (husable : IsUsable (join top name)) (hname : IsFileName name)
    (harrive : disk.arrive top = .ok last)
    (hlink : ∀ target, disk.get? (last.location ++ [name]) ≠ some (.link target)) :
    disk.locate? creating (join top name) = .ok (last.location ++ [name]) := by
  obtain ⟨before, hparts, hbefore⟩ := exists_partsOf_join disk top hname
  have hne : ¬ (name == "") = true := by
    intro heq
    have hidle := hname.1.1
    rw [eq_of_beq heq] at hidle
    cases hidle
  -- The path ends in the name and not in a slash.
  have hslash : ∀ before, ¬ endsInSlash creating (before ++ [name]) := by
    rintro before ⟨-, -, hall⟩
    rw [List.all_append, Bool.and_eq_true] at hall
    exact hne (by simpa using hall.2)
  have hstart : disk.get? last.location = some .directory := (enter_eq_ok.1 harrive).2
  have hadvances : disk.Advances last name ⟨last.links, last.location ++ [name]⟩ [] :=
    .name hstart hname.1 hname.2.2 hlink
  rw [← hbefore] at harrive
  unfold locate?
  rw [usableStartOf?_eq_ok husable, hparts]
  change disk.follow creating (disk.origin (join top name)).links
    (disk.origin (join top name)).location (before ++ [name]) = _
  rw [follow_append hslash, (enter_eq_ok.1 harrive).1]
  change disk.follow creating last.links last.location [name] = _
  rw [follow_of_advances hadvances (by simp [endsInSlash])]
  exact follow.eq_1 ..

/-- Writing a file puts it at the location of its path, unless there is a directory. -/
theorem write?_join {top name : String} {last : Position} (husable : IsUsable (join top name))
    (hname : IsFileName name) (harrive : disk.arrive top = .ok last)
    (hlink : ∀ target, disk.get? (last.location ++ [name]) ≠ some (.link target))
    (content : ByteArray) :
    disk.write? (join top name) content =
      if disk.get? (last.location ++ [name]) = some .directory then .error .isDirectory
      else .ok (disk.put (last.location ++ [name]) (.file content)) := by
  rw [write?, locate?_join true husable hname harrive hlink, ok_bind]
  split
  · rename_i hdirectory
    rw [if_pos hdirectory]
  · rename_i hother
    rw [if_neg hother]

/-- Nothing is written under a path that is not usable. -/
theorem write?_of_not_isUsable {path : String} (h : ¬ IsUsable path) (content : ByteArray) :
    disk.write? path content = .error (misuse path) := by
  unfold write?
  rw [locate?_of_not_isUsable h]
  rfl

/-- The text of a file can be read at the path of its location. -/
theorem readText?_of_locate? {path text : String} {location : Location}
    (hlocation : disk.locate? false path = .ok location)
    (hfile : disk.get? location = some (.file text.toUTF8)) : disk.readText? path = .ok text := by
  have hread : disk.read? path = .ok text.toUTF8 := by
    rw [read?, hlocation, ok_bind, hfile]
  have htext : String.fromUTF8? text.toUTF8 = some text := dif_pos text.isValidUTF8
  rw [readText?, hread, ok_bind, htext]

/-- A file that is there can be read. -/
theorem readText?_join {top name text : String} {last : Position}
    (husable : IsUsable (join top name)) (hname : IsFileName name)
    (harrive : disk.arrive top = .ok last)
    (hfile : disk.get? (last.location ++ [name]) = some (.file text.toUTF8)) :
    disk.readText? (join top name) = .ok text := by
  refine readText?_of_locate? (locate?_join false husable hname harrive fun target => ?_) hfile
  simp [hfile]

/-! ## Saving a page -/

/-- Whether the directories above a path can be made, and a text be written there behind that. -/
def takes (disk : Disk) (path text : String) : Bool :=
  match (Path.ofString path).parent? with
  | none => (disk.write? path text.toUTF8).isOk
  | some parent =>
    (disk.makeDirectories parent).2.isNone &&
      ((disk.makeDirectories parent).1.write? path text.toUTF8).isOk

/-- What takes a text has it saved. -/
theorem takes_eq_isNone (disk : Disk) (path text : String) :
    disk.takes path text = (disk.save path text).2.isNone := by
  unfold takes save
  cases (Path.ofString path).parent? with
  | none =>
    dsimp only
    cases disk.write? path text.toUTF8 <;> rfl
  | some parent =>
    dsimp only
    rcases disk.makeDirectories parent with ⟨above, _ | fault⟩
    · dsimp only
      cases above.write? path text.toUTF8 <;> rfl
    · rfl

/-- The names that lead to a page, which has one at least. -/
structure IsPagePath (names : List String) : Prop where
  nonempty : names ≠ []
  isFileName : ∀ name ∈ names, IsFileName name

/-- The path of a page is some directories and a name. -/
theorem IsPagePath.exists_concat {names : List String} (h : IsPagePath names) :
    ∃ front name, names = front ++ [name] ∧ (∀ other ∈ front, IsFileName other) ∧
      IsFileName name := by
  refine ⟨_, _, (List.dropLast_concat_getLast h.nonempty).symm, fun other hother => ?_, ?_⟩
  · exact h.isFileName other (List.dropLast_subset names hother)
  · exact h.isFileName _ (List.getLast_mem h.nonempty)

/-- Why a page cannot be saved below an output directory at a location, if it cannot. -/
def saveFault (disk : Disk) (top : String) (location : Location) (names : List String) :
    Option Failure :=
  let above := (spot top names.dropLast).text
  let target := pathBelow top names
  if ¬ IsMakeable (spot top names.dropLast) then some (.disk above (misuse above).message)
  else
    match disk.barred location names.dropLast with
    | some fault => some (.disk above fault.message)
    | none =>
      if ¬ IsUsable target then some (.disk target (misuse target).message)
      else if disk.get? (location ++ names) = some .directory then
        some (.disk target Fault.isDirectory.message)
      else none

/-- A page is only written under a path that is usable. -/
theorem isUsable_of_saveFault {top : String} {location : Location} {names : List String}
    (h : disk.saveFault top location names = none) : IsUsable (pathBelow top names) := by
  unfold saveFault at h
  dsimp only at h
  split at h
  · cases h
  · split at h
    · cases h
    · split at h
      · cases h
      · rename_i husable
        exact Decidable.not_not.1 husable

/-- Saving a page makes the directories above it and writes the file there. -/
theorem save_pathBelow {top : String} {names : List String} {name : String}
    (hname : IsFileName name) (text : String) :
    disk.save (pathBelow top (names ++ [name])) text =
      match disk.makeDirectories (spot top names) with
      | (above, none) =>
        match above.write? (pathBelow top (names ++ [name])) text.toUTF8 with
        | .ok written => (written, none)
        | .error fault =>
          (above, some (.disk (pathBelow top (names ++ [name])) fault.message))
      | (above, some fault) => (above, some (.disk (spot top names).text fault.message)) := by
  unfold save
  rewrite [parent?_spot hname]
  rfl

/-- What saving a page makes of a disk. -/
structure Saves (disk : Disk) (location : Location) (names : List String) (text : String)
    (result : Disk × Option Failure) : Prop where
  tree : result.1.IsTree
  grows : disk.Grows result.1
  page : result.2 = none → result.1.get? (location ++ names) = some (.file text.toUTF8)
  only (place : Location) : result.1.get? place = disk.get? place ∨
    (disk.get? place = none ∧ result.1.get? place = some .directory ∧
      ∃ front, front <+: names.dropLast ∧ place = location ++ front) ∨
    result.2 = none ∧ place = location ++ names

/-- A failure before the first write leaves the disk as it is. -/
theorem Saves.nothing (htree : disk.IsTree) (location : Location) (names : List String)
    (text : String) (failure : Failure) :
    disk.Saves location names text (disk, some failure) where
  tree := htree
  grows := .refl disk
  page h := by cases h
  only _ := .inl rfl

/-- A page that is not saved leaves at most directories on its way. -/
theorem Saves.of_digs {made : Disk} {location : Location} {names : List String} {text : String}
    (htree : made.IsTree) (hgrows : disk.Grows made)
    (hdigs : disk.Digs location names.dropLast made) (failure : Failure) :
    disk.Saves location names text (made, some failure) where
  tree := htree
  grows := hgrows
  page h := by cases h
  only place := (hdigs.only place).imp id .inl

/-- A file put behind the directories on its way is a page that is saved. -/
theorem Saves.put {made : Disk} {location : Location} {front : List String} {name text : String}
    (htree : made.IsTree) (hgrows : disk.Grows made) (hdigs : disk.Digs location front made)
    (hname : IsFileName name)
    (hold : made.get? (location ++ (front ++ [name])) = none ∨
      ∃ content, made.get? (location ++ (front ++ [name])) = some (.file content)) :
    disk.Saves location (front ++ [name]) text
      (made.put (location ++ (front ++ [name])) (.file text.toUTF8), none) := by
  have hne : location ++ (front ++ [name]) ≠ [] := by simp
  have hget := fun other => get?_put made hne other (.file text.toUTF8)
  refine ⟨?_, ?_, fun _ => ?_, fun place => ?_⟩
  · rw [← List.append_assoc] at hold ⊢
    refine htree.put hdigs.last hname fun hdirectory => ?_
    rcases hold with hold | ⟨content, hold⟩ <;> rw [hold] at hdirectory <;> cases hdirectory
  · refine hgrows.trans (grows_put_file hne fun entry hentry => ?_)
    rcases hold with hold | ⟨content, hold⟩ <;> rw [hold] at hentry <;> cases hentry
    exact ⟨content, rfl⟩
  · rw [hget, if_pos rfl]
  · rw [hget]
    split
    · rename_i heq
      exact .inr (.inr ⟨rfl, heq⟩)
    · rw [List.dropLast_concat]
      exact (hdigs.only place).imp id .inl

/-- A page that is saved lies in a directory. -/
theorem Saves.above {location : Location} {front : List String} {name text : String}
    {result : Disk × Option Failure} (h : disk.Saves location (front ++ [name]) text result)
    (hsaved : result.2 = none) : result.1.get? (location ++ front) = some .directory := by
  have hpage := h.page hsaved
  rw [← List.append_assoc] at hpage
  exact h.tree.directory hpage

/-- What is dug is above the page. -/
theorem Digs.get?_page {made : Disk} {location : Location} {front : List String}
    (h : disk.Digs location front made) (name : String) :
    made.get? (location ++ (front ++ [name])) = disk.get? (location ++ (front ++ [name])) := by
  refine (h.only _).resolve_right ?_
  rintro ⟨-, -, other, hother, heq⟩
  rw [← List.append_cancel_left heq] at hother
  have hlength := hother.length_le
  rw [List.length_append, List.length_singleton] at hlength
  omega

/-- A page is written behind the directories that were dug, unless a directory is there or its path
cannot be used. -/
theorem Digs.write?_page {made : Disk} {top : String} {mid : Position} {front : List String}
    (h : disk.Digs mid.location front made) (htree : made.IsTree) (hgrows : disk.Grows made)
    (harrive : disk.arrive top = .ok mid) (hplain : disk.IsPlain mid.location)
    (hfront : ∀ name ∈ front, IsFileName name) {name : String} (hname : IsFileName name)
    (content : ByteArray) :
    made.write? (pathBelow top (front ++ [name])) content =
      if ¬ IsUsable (pathBelow top (front ++ [name])) then
        .error (misuse (pathBelow top (front ++ [name])))
      else if disk.get? (mid.location ++ (front ++ [name])) = some .directory then
        .error .isDirectory
      else .ok (made.put (mid.location ++ (front ++ [name])) (.file content)) := by
  have harrive' : made.arrive (pathBelow top front) = .ok ⟨mid.links, mid.location ++ front⟩ := by
    rw [arrive_pathBelow hfront, hgrows.arrive_ok harrive]
    exact enter_names htree h.last
  have hlink : ∀ target, made.get? (mid.location ++ front ++ [name]) ≠ some (.link target) :=
    (hgrows.isPlain hplain).below front [name]
  rw [pathBelow_concat]
  by_cases husable : IsUsable (join (pathBelow top front) name)
  · rw [if_neg (not_not_intro husable), write?_join husable hname harrive' hlink,
      List.append_assoc, h.get?_page]
  · rw [if_pos husable, write?_of_not_isUsable husable]

/-- Saving a page succeeds or fails as what lies below the output directory says, and unless
something bars the way the directories on it are there afterwards. -/
theorem save_eq (htree : disk.IsTree) {top : String} {mid : Position}
    (harrive : disk.arrive top = .ok mid) (hplain : disk.IsPlain mid.location)
    {names : List String} (hpath : IsPagePath names) (text : String) :
    (disk.save (pathBelow top names) text).2 = disk.saveFault top mid.location names ∧
      disk.Saves mid.location names text (disk.save (pathBelow top names) text) ∧
      (IsMakeable (spot top names.dropLast) → disk.barred mid.location names.dropLast = none →
        (disk.save (pathBelow top names) text).1.get? (mid.location ++ names.dropLast) =
          some .directory) := by
  obtain ⟨front, name, rfl, hfront, hname⟩ := hpath.exists_concat
  rw [save_pathBelow hname]
  unfold saveFault
  rw [List.dropLast_concat]
  by_cases hmakeable : IsMakeable (spot top front)
  · rw [if_neg (not_not_intro hmakeable)]
    cases hbarred : disk.barred mid.location front with
    -- The way is barred, so nothing is made and nothing written.
    | some fault =>
      rw [makeDirectories_of_barred htree harrive hplain hfront hmakeable hbarred]
      exact ⟨rfl, .nothing htree .., fun _ h => by cases h⟩
    | none =>
      obtain ⟨made, hmade, hdigs⟩ := makeDirectories_of_clear htree harrive hfront hmakeable hbarred
      have hmakes := makes_makeDirectories htree (isTrimmed_spot top front)
      rw [hmade] at hmakes ⊢
      have htree' : made.IsTree := hmakes.tree
      have hgrows : disk.Grows made := hmakes.adds.grows
      have hdigs' : disk.Digs mid.location (front ++ [name]).dropLast made := by
        rwa [List.dropLast_concat]
      -- The directories are made, and what is left can only fail for the page itself.
      dsimp only
      rw [hdigs.write?_page htree' hgrows harrive hplain hfront hname]
      by_cases husable : IsUsable (pathBelow top (front ++ [name]))
      · rw [if_neg (not_not_intro husable), if_neg (not_not_intro husable)]
        by_cases hdirectory : disk.get? (mid.location ++ (front ++ [name])) = some .directory
        · rw [if_pos hdirectory, if_pos hdirectory]
          exact ⟨rfl, .of_digs htree' hgrows hdigs' _, fun _ _ => hdigs.last⟩
        · rw [if_neg hdirectory, if_neg hdirectory]
          have hsaves : disk.Saves mid.location (front ++ [name]) text
              (made.put (mid.location ++ (front ++ [name])) (.file text.toUTF8), none) := by
            refine .put htree' hgrows hdigs hname ?_
            rw [hdigs.get?_page]
            rcases hentry : disk.get? (mid.location ++ (front ++ [name])) with
              _ | ⟨content | _ | target⟩
            · exact .inl rfl
            · exact .inr ⟨content, rfl⟩
            · exact absurd hentry hdirectory
            · exact absurd hentry (hplain _ target)
          exact ⟨rfl, hsaves, fun _ _ => hsaves.above rfl⟩
      · rw [if_pos husable, if_pos husable]
        exact ⟨rfl, .of_digs htree' hgrows hdigs' _, fun _ _ => hdigs.last⟩
  · rw [if_pos hmakeable, makeDirectories_of_not_isMakeable hmakeable]
    exact ⟨rfl, .nothing htree .., fun h => absurd h hmakeable⟩

end Stencil.Disk
