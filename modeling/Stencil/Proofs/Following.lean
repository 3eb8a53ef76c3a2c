import Stencil.Disk.Library
import Stencil.Proofs.Results

/-!
# Following a path

`Disk.follow` gives the location that a path leads to and forgets how many links it has led through,
so that a path cannot be followed in two pieces. `Disk.reach` remembers it, and `reach_append` puts
the pieces together. What one part of a path can do is said once, by `advance_eq_ok` and
`advance_eq_error`.
-/

namespace Stencil.Disk

/-! ## One part of a path -/

/-- How far a path has been followed: the location, and the number of links that may still come. -/
structure Position where
  links : Nat
  location : Location
  deriving DecidableEq

/-- A part that can be the name of something. -/
def IsName (part : String) : Prop := isIdle part = false ∧ part ≠ ".."

/-- What the next part of a path does: the position behind it, and the parts of the path of a link,
which come before the others. -/
def advance (disk : Disk) (pos : Position) (part : String) :
    Except Fault (Position × List String) :=
  match disk.directoryFault? pos.location with
  | some fault => .error fault
  | none =>
    if isIdle part then .ok (pos, [])
    else if part = ".." then .ok (⟨pos.links, pos.location.dropLast⟩, [])
    else if maxNameBytes < part.utf8ByteSize then .error .nameTooLong
    else
      match disk.get? (pos.location ++ [part]), pos.links with
      | some (.link _), 0 => .error .linkLoop
      | some (.link target), links + 1 =>
        .ok (⟨links, if isAbsolute target then [] else pos.location⟩, partsOf target.toList)
      | _, links => .ok (⟨links, pos.location ++ [part]⟩, [])

/-- What a part can do behind a directory. -/
inductive Advances (disk : Disk) (pos : Position) : String → Position → List String → Prop
  | idle {part : String} (hstart : disk.get? pos.location = some .directory)
    (hidle : isIdle part = true) : Advances disk pos part pos []
  | up (hstart : disk.get? pos.location = some .directory) :
    Advances disk pos ".." ⟨pos.links, pos.location.dropLast⟩ []
  | name {part : String} (hstart : disk.get? pos.location = some .directory)
    (hname : IsName part) (hshort : part.utf8ByteSize ≤ maxNameBytes)
    (hentry : ∀ target, disk.get? (pos.location ++ [part]) ≠ some (.link target)) :
    Advances disk pos part ⟨pos.links, pos.location ++ [part]⟩ []
  | link {part target : String} {links : Nat}
    (hstart : disk.get? pos.location = some .directory)
    (hname : IsName part) (hshort : part.utf8ByteSize ≤ maxNameBytes)
    (hentry : disk.get? (pos.location ++ [part]) = some (.link target))
    (hlinks : pos.links = links + 1) :
    Advances disk pos part ⟨links, if isAbsolute target then [] else pos.location⟩
      (partsOf target.toList)

/-- Why a part can go no further. -/
inductive Blocks (disk : Disk) (pos : Position) : String → Fault → Prop
  | start {part : String} {fault : Fault}
    (hstart : disk.directoryFault? pos.location = some fault) : Blocks disk pos part fault
  | long {part : String} (hstart : disk.get? pos.location = some .directory)
    (hname : IsName part) (hlong : maxNameBytes < part.utf8ByteSize) :
    Blocks disk pos part .nameTooLong
  | loop {part target : String} (hstart : disk.get? pos.location = some .directory)
    (hname : IsName part) (hshort : part.utf8ByteSize ≤ maxNameBytes)
    (hentry : disk.get? (pos.location ++ [part]) = some (.link target))
    (hlinks : pos.links = 0) : Blocks disk pos part .linkLoop

variable {disk : Disk}

/-- A location without a fault is a directory. -/
theorem directoryFault?_eq_none {location : Location} :
    disk.directoryFault? location = none ↔ disk.get? location = some .directory := by
  unfold directoryFault?
  split <;> simp_all

/-- A location cannot be passed if nothing is there, or something that is no directory. -/
theorem directoryFault?_eq_some {location : Location} {fault : Fault} :
    disk.directoryFault? location = some fault ↔
      (disk.get? location = none ∧ fault = .notFound) ∨
        (∃ entry, disk.get? location = some entry ∧ entry ≠ .directory) ∧
          fault = .notDirectory := by
  unfold directoryFault?
  cases disk.get? location with
  | none => simp [eq_comm]
  | some entry => cases entry <;> simp [eq_comm]

theorem IsName.not_idle {part : String} (h : IsName part) : ¬ isIdle part = true := by simp [h.1]

theorem not_isIdle_up : ¬ isIdle ".." = true := by decide

/-- A step goes where `Advances` says. -/
theorem Advances.advance_eq {pos next : Position} {part : String} {ahead : List String}
    (h : disk.Advances pos part next ahead) : disk.advance pos part = .ok (next, ahead) := by
  unfold advance
  rcases h with ⟨hstart, hidle⟩ | hstart | ⟨hstart, hname, hshort, hentry⟩ |
      ⟨hstart, hname, hshort, hentry, hlinks⟩ <;>
    rw [directoryFault?_eq_none.2 hstart] <;> dsimp only
  · rw [if_pos hidle]
  · rw [if_neg not_isIdle_up, if_pos rfl]
  · rw [if_neg hname.not_idle, if_neg hname.2, if_neg (Nat.not_lt.2 hshort)]
    split
    · rename_i hlink _
      exact absurd hlink (hentry _)
    · rename_i hlink _
      exact absurd hlink (hentry _)
    · rfl
  · rw [if_neg hname.not_idle, if_neg hname.2, if_neg (Nat.not_lt.2 hshort), hentry, hlinks]

/-- A step stops where `Blocks` says. -/
theorem Blocks.advance_eq {pos : Position} {part : String} {fault : Fault}
    (h : disk.Blocks pos part fault) : disk.advance pos part = .error fault := by
  unfold advance
  rcases h with hstart | ⟨hstart, hname, hlong⟩ | ⟨hstart, hname, hshort, hentry, hlinks⟩
  · rw [hstart]
  · rw [directoryFault?_eq_none.2 hstart]
    dsimp only
    rw [if_neg hname.not_idle, if_neg hname.2, if_pos hlong]
  · rw [directoryFault?_eq_none.2 hstart]
    dsimp only
    rw [if_neg hname.not_idle, if_neg hname.2, if_neg (Nat.not_lt.2 hshort), hentry, hlinks]

/-- A part advances to a position, or it is blocked. -/
theorem advances_or_blocks (pos : Position) (part : String) :
    (∃ next ahead, disk.Advances pos part next ahead) ∨ ∃ fault, disk.Blocks pos part fault := by
  cases hfault : disk.directoryFault? pos.location with
  | some fault => exact .inr ⟨fault, .start hfault⟩
  | none =>
    have hstart := directoryFault?_eq_none.1 hfault
    by_cases hidle : isIdle part = true
    · exact .inl ⟨pos, [], .idle hstart hidle⟩
    by_cases hup : part = ".."
    · exact hup ▸ .inl ⟨_, _, .up hstart⟩
    have hname : IsName part := ⟨by simpa using hidle, hup⟩
    by_cases hlong : maxNameBytes < part.utf8ByteSize
    · exact .inr ⟨_, .long hstart hname hlong⟩
    have hshort := Nat.le_of_not_lt hlong
    by_cases hentry : ∃ target, disk.get? (pos.location ++ [part]) = some (.link target)
    · obtain ⟨target, hentry⟩ := hentry
      cases hlinks : pos.links with
      | zero => exact .inr ⟨_, .loop hstart hname hshort hentry hlinks⟩
      | succ links => exact .inl ⟨_, _, .link hstart hname hshort hentry hlinks⟩
    · exact .inl ⟨_, _, .name hstart hname hshort fun target htarget => hentry ⟨target, htarget⟩⟩

/-- A step goes nowhere else. -/
theorem advance_eq_ok {pos next : Position} {part : String} {ahead : List String} :
    disk.advance pos part = .ok (next, ahead) ↔ disk.Advances pos part next ahead := by
  refine ⟨fun h => ?_, Advances.advance_eq⟩
  rcases disk.advances_or_blocks pos part with ⟨next', ahead', hadvances⟩ | ⟨fault, hblocks⟩
  · rw [hadvances.advance_eq, Except.ok.injEq, Prod.mk.injEq] at h
    obtain ⟨rfl, rfl⟩ := h
    exact hadvances
  · rw [hblocks.advance_eq] at h
    cases h

/-- A step stops nowhere else. -/
theorem advance_eq_error {pos : Position} {part : String} {fault : Fault} :
    disk.advance pos part = .error fault ↔ disk.Blocks pos part fault := by
  refine ⟨fun h => ?_, Blocks.advance_eq⟩
  rcases disk.advances_or_blocks pos part with ⟨next', ahead', hadvances⟩ | ⟨fault', hblocks⟩
  · rw [hadvances.advance_eq] at h
    cases h
  · rw [hblocks.advance_eq, Except.error.injEq] at h
    exact h ▸ hblocks

/-- Only a link puts further parts in front, and then fewer links may come. -/
theorem Advances.links {pos next : Position} {part : String} {ahead : List String}
    (h : disk.Advances pos part next ahead) :
    next.links < pos.links ∨ (next.links = pos.links ∧ ahead = []) := by
  rcases h with _ | _ | _ | ⟨-, -, -, -, hlinks⟩
  · exact .inr ⟨rfl, rfl⟩
  · exact .inr ⟨rfl, rfl⟩
  · exact .inr ⟨rfl, rfl⟩
  · exact .inl (by simp [hlinks])

/-! ## All parts of a path -/

/-- The position that the parts of a path lead to. -/
def reach (disk : Disk) (pos : Position) : List String → Except Fault Position
  | [] => .ok pos
  | part :: parts =>
    match _h : disk.advance pos part with
    | .error fault => .error fault
    | .ok (next, ahead) => disk.reach next (ahead ++ parts)
termination_by parts => (pos.links, parts.length)
decreasing_by
  rcases (advance_eq_ok.1 _h).links with hlt | ⟨heq, rfl⟩
  · exact Prod.Lex.left _ _ hlt
  · rw [heq]
    exact Prod.Lex.right _ (by simp)

@[simp] theorem reach_nil (pos : Position) : disk.reach pos [] = .ok pos := by rw [reach]

/-- Reaching goes part by part, with the parts of a link in front of the others. -/
theorem reach_cons (pos : Position) (part : String) (parts : List String) :
    disk.reach pos (part :: parts) =
      disk.advance pos part >>= fun next => disk.reach next.1 (next.2 ++ parts) := by
  rw [reach]
  split <;> rename_i h <;> rw [h] <;> rfl

/-- A path can be followed in two pieces. -/
theorem reach_append (pos : Position) (a b : List String) :
    disk.reach pos (a ++ b) = disk.reach pos a >>= fun mid => disk.reach mid b := by
  fun_induction reach disk pos a with
  | case1 pos => rfl
  | case2 pos part parts fault h =>
    rw [List.cons_append, reach_cons, h]
    rfl
  | case3 pos part parts next ahead h ih =>
    rw [List.cons_append, reach_cons, h, ← ih, List.append_assoc]
    rfl

/-- Whether a slash behind the last part keeps a file from being made. -/
def endsInSlash (creating : Bool) (parts : List String) : Prop :=
  creating = true ∧ parts ≠ [] ∧ parts.all (· == "") = true

/-- Following goes on where an advance leads. -/
theorem follow_of_advances {creating : Bool} {pos next : Position} {part : String}
    {parts ahead : List String} (h : disk.Advances pos part next ahead)
    (hslash : ¬ endsInSlash creating parts) :
    disk.follow creating pos.links pos.location (part :: parts) =
      disk.follow creating next.links next.location (ahead ++ parts) := by
  rw [follow.eq_def]
  rcases h with ⟨hstart, hidle⟩ | hstart | ⟨hstart, hname, hshort, hentry⟩ |
      ⟨hstart, hname, hshort, hentry, hlinks⟩ <;>
    dsimp only <;> rw [directoryFault?_eq_none.2 hstart] <;> dsimp only
  · rw [if_pos hidle]
    rfl
  · rw [if_neg not_isIdle_up, if_pos rfl]
    rfl
  · rw [if_neg hname.not_idle, if_neg hname.2, if_neg (by simpa [endsInSlash] using hslash),
      if_neg (Nat.not_lt.2 hshort)]
    split
    · rename_i hlink _
      exact absurd hlink (hentry _)
    · rename_i hlink _
      exact absurd hlink (hentry _)
    · rfl
  · rw [if_neg hname.not_idle, if_neg hname.2, if_neg (by simpa [endsInSlash] using hslash),
      if_neg (Nat.not_lt.2 hshort), hentry, hlinks]

/-- Following stops where an advance is blocked. -/
theorem follow_of_blocks {creating : Bool} {pos : Position} {part : String}
    {parts : List String} {fault : Fault} (h : disk.Blocks pos part fault)
    (hslash : ¬ endsInSlash creating parts) :
    disk.follow creating pos.links pos.location (part :: parts) = .error fault := by
  rw [follow.eq_def]
  rcases h with hstart | ⟨hstart, hname, hlong⟩ | ⟨hstart, hname, hshort, hentry, hlinks⟩
  · dsimp only
    rw [hstart]
  · dsimp only
    rw [directoryFault?_eq_none.2 hstart]
    dsimp only
    rw [if_neg hname.not_idle, if_neg hname.2, if_neg (by simpa [endsInSlash] using hslash),
      if_pos hlong]
  · dsimp only
    rw [directoryFault?_eq_none.2 hstart]
    dsimp only
    rw [if_neg hname.not_idle, if_neg hname.2, if_neg (by simpa [endsInSlash] using hslash),
      if_neg (Nat.not_lt.2 hshort), hentry, hlinks]

/-- Following a path means reaching what comes before its last parts, and then following those,
where they do not consist of slashes. -/
theorem follow_append {creating : Bool} {pos : Position} {parts last : List String}
    (hslash : ∀ before, ¬ endsInSlash creating (before ++ last)) :
    disk.follow creating pos.links pos.location (parts ++ last) =
      disk.reach pos parts >>= fun mid => disk.follow creating mid.links mid.location last := by
  fun_induction reach disk pos parts with
  | case1 pos => rfl
  | case2 pos part parts fault h =>
    exact follow_of_blocks (advance_eq_error.1 h) (hslash parts)
  | case3 pos part parts next ahead h ih =>
    rw [← ih, List.cons_append, follow_of_advances (advance_eq_ok.1 h) (hslash parts),
      List.append_assoc]

/-- Following a path is reaching a position. -/
theorem follow_eq_reach (links : Nat) (start : Location) (parts : List String) :
    disk.follow false links start parts =
      (disk.reach ⟨links, start⟩ parts).map (·.location) := by
  have h := @follow_append disk false ⟨links, start⟩ parts []
    (fun before hslash => by simp [endsInSlash] at hslash)
  rw [List.append_nil] at h
  rw [h]
  cases disk.reach ⟨links, start⟩ parts with
  | error fault => rfl
  | ok mid => exact follow.eq_1 ..

/-! ## What following a path looks at -/

/-- The locations that are looked at on the way of a path. -/
inductive Visits (disk : Disk) : Position → List String → Location → Prop
  | here (pos : Position) (parts : List String) : Visits disk pos parts pos.location
  /-- Behind a directory there may be something with the name of the next part. -/
  | entry {pos : Position} {part : String} (parts : List String)
    (hstart : disk.get? pos.location = some .directory) (hname : IsName part)
    (hshort : part.utf8ByteSize ≤ maxNameBytes) :
    Visits disk pos (part :: parts) (pos.location ++ [part])
  | later {pos next : Position} {part : String} {ahead parts : List String} {location : Location}
    (hpart : disk.Advances pos part next ahead)
    (hlater : Visits disk next (ahead ++ parts) location) : Visits disk pos (part :: parts) location

/-- The location that a path leads to is looked at. -/
theorem visits_of_reach {pos last : Position} {parts : List String}
    (h : disk.reach pos parts = .ok last) : disk.Visits pos parts last.location := by
  fun_induction reach disk pos parts with
  | case1 pos =>
    cases h
    exact .here ..
  | case2 => cases h
  | case3 pos part parts next ahead hpart ih => exact .later (advance_eq_ok.1 hpart) (ih h)

/-- A part does the same on a disk that does not differ where it looks. -/
theorem advance_congr {other : Disk} {pos : Position} {part : String} {parts : List String}
    (h : ∀ location, disk.Visits pos (part :: parts) location →
      other.get? location = disk.get? location) :
    other.advance pos part = disk.advance pos part := by
  have hhere : other.get? pos.location = disk.get? pos.location := h _ (.here ..)
  rcases disk.advances_or_blocks pos part with ⟨next, ahead, hpart⟩ | ⟨fault, hpart⟩
  · rw [hpart.advance_eq]
    refine Advances.advance_eq ?_
    rcases hpart with ⟨hstart, hidle⟩ | hstart | ⟨hstart, hname, hshort, hentry⟩ |
      ⟨hstart, hname, hshort, hentry, hlinks⟩
    · exact .idle (hhere.trans hstart) hidle
    · exact .up (hhere.trans hstart)
    · refine .name (hhere.trans hstart) hname hshort ?_
      rwa [h _ (.entry parts hstart hname hshort)]
    · refine .link (hhere.trans hstart) hname hshort ?_ hlinks
      rwa [h _ (.entry parts hstart hname hshort)]
  · rw [hpart.advance_eq]
    refine Blocks.advance_eq ?_
    rcases hpart with hstart | ⟨hstart, hname, hlong⟩ | ⟨hstart, hname, hshort, hentry, hlinks⟩
    · refine .start ?_
      rwa [directoryFault?, hhere]
    · exact .long (hhere.trans hstart) hname hlong
    · exact .loop (hhere.trans hstart) hname hshort
        ((h _ (.entry parts hstart hname hshort)).trans hentry) hlinks

/-- A path leads to the same on a disk that does not differ where following it looks. -/
theorem reach_congr {other : Disk} {pos : Position} {parts : List String}
    (h : ∀ location, disk.Visits pos parts location → other.get? location = disk.get? location) :
    other.reach pos parts = disk.reach pos parts := by
  fun_induction reach disk pos parts with
  | case1 pos => exact reach_nil pos
  | case2 pos part parts fault hpart =>
    rw [reach_cons, advance_congr h, hpart]
    rfl
  | case3 pos part parts next ahead hpart ih =>
    rw [reach_cons, advance_congr h, hpart]
    exact ih fun location hlater => h location (.later (advance_eq_ok.1 hpart) hlater)

/-- Following a path looks at no other locations on a disk that does not differ where it looks. -/
theorem Visits.of_congr {other : Disk} {pos : Position} {parts : List String} {location : Location}
    (h : ∀ location, disk.Visits pos parts location → other.get? location = disk.get? location)
    (hvisits : other.Visits pos parts location) : disk.Visits pos parts location := by
  induction hvisits with
  | here pos parts => exact .here pos parts
  | entry parts hstart hname hshort => exact .entry parts (h _ (.here ..) ▸ hstart) hname hshort
  | later hpart _ ih =>
    have hpart' := advance_eq_ok.1 ((advance_congr h).symm.trans hpart.advance_eq)
    exact .later hpart' (ih fun location hlater => h location (.later hpart' hlater))

/-- A path that leads to something starts somewhere. -/
theorem isSome_of_reach {pos last : Position} {parts : List String}
    (hreach : disk.reach pos parts = .ok last) (hlast : (disk.get? last.location).isSome) :
    (disk.get? pos.location).isSome := by
  rcases parts with _ | ⟨part, parts⟩
  · rw [reach_nil, Except.ok.injEq] at hreach
    exact hreach ▸ hlast
  · rw [reach_cons, bind_eq_ok] at hreach
    obtain ⟨⟨next, ahead⟩, hnext, -⟩ := hreach
    have hstart : disk.get? pos.location = some .directory := by
      cases advance_eq_ok.1 hnext <;> assumption
    rw [hstart]
    rfl

/-- Whatever lies on the way to something is there. -/
theorem Visits.isSome_of_reach {pos last : Position} {parts : List String} {location : Location}
    (hvisits : disk.Visits pos parts location) (hreach : disk.reach pos parts = .ok last)
    (hlast : (disk.get? last.location).isSome) : (disk.get? location).isSome := by
  induction hvisits with
  | here pos parts => exact Disk.isSome_of_reach hreach hlast
  | @entry pos part parts hstart hname hshort =>
    -- a link is there itself, and from anything else the path goes on
    rw [reach_cons, bind_eq_ok] at hreach
    obtain ⟨⟨next, ahead⟩, hnext, hreach⟩ := hreach
    rcases advance_eq_ok.1 hnext with
      ⟨-, hidle⟩ | - | - | @⟨_, target, links, -, -, -, hentry, -⟩
    · exact absurd hidle hname.not_idle
    · exact absurd rfl hname.2
    · exact Disk.isSome_of_reach hreach hlast
    · rw [hentry]
      rfl
  | later hpart _ ih =>
    rw [reach_cons, hpart.advance_eq] at hreach
    exact ih hreach

/-! ## Disks that have grown -/

/-- A disk has grown when nothing has been taken away, links have not been added, and files have at
most been given another content. What is new is listed behind the rest. -/
structure Grows (disk grown : Disk) : Prop where
  working_eq : grown.working = disk.working
  listed : ∃ more, grown.entries.map (·.1) = disk.entries.map (·.1) ++ more
  directory {location : Location} : disk.get? location = some .directory →
    grown.get? location = some .directory
  file {location : Location} {content : ByteArray} :
    disk.get? location = some (.file content) →
      ∃ content, grown.get? location = some (.file content)
  link_iff {location : Location} {target : String} :
    grown.get? location = some (.link target) ↔ disk.get? location = some (.link target)

theorem Grows.refl (disk : Disk) : disk.Grows disk :=
  ⟨rfl, ⟨[], (List.append_nil _).symm⟩, id, fun h => ⟨_, h⟩, Iff.rfl⟩

/-- A disk that grows twice has grown. -/
theorem Grows.trans {grown later : Disk} (h : disk.Grows grown) (h' : grown.Grows later) :
    disk.Grows later where
  working_eq := h'.working_eq.trans h.working_eq
  listed := by
    obtain ⟨a, ha⟩ := h.listed
    obtain ⟨b, hb⟩ := h'.listed
    exact ⟨a ++ b, by rw [hb, ha, List.append_assoc]⟩
  directory hdir := h'.directory (h.directory hdir)
  file hfile := (h.file hfile).elim fun _ hfile => h'.file hfile
  link_iff := h'.link_iff.trans h.link_iff

/-- Where there is nothing there was nothing before. -/
theorem Grows.eq_none {grown : Disk} (h : disk.Grows grown) {location : Location}
    (hnone : grown.get? location = none) : disk.get? location = none := by
  cases hentry : disk.get? location with
  | none => rfl
  | some entry =>
    rcases entry with content | _ | target
    · obtain ⟨content, hcontent⟩ := h.file hentry
      rw [hnone] at hcontent
      cases hcontent
    · rw [h.directory hentry] at hnone
      cases hnone
    · rw [h.link_iff.2 hentry] at hnone
      cases hnone

/-- What is there and no directory stays so. -/
theorem Grows.notDirectory {grown : Disk} (h : disk.Grows grown) {location : Location}
    (hfault : disk.directoryFault? location = some .notDirectory) :
    grown.directoryFault? location = some .notDirectory := by
  obtain ⟨-, hne⟩ | ⟨⟨entry, hentry, hne⟩, -⟩ := directoryFault?_eq_some.1 hfault
  · cases hne
  · refine directoryFault?_eq_some.2 (.inr ⟨?_, rfl⟩)
    rcases entry with content | _ | target
    · obtain ⟨content, hcontent⟩ := h.file hentry
      exact ⟨_, hcontent, by simp⟩
    · exact absurd rfl hne
    · exact ⟨_, h.link_iff.2 hentry, by simp⟩

/-- A part finds nothing, or it does the same on a disk that has grown. -/
theorem Grows.advance {grown : Disk} (h : disk.Grows grown) (pos : Position) (part : String) :
    disk.advance pos part = .error .notFound ∨
      grown.advance pos part = disk.advance pos part := by
  rcases disk.advances_or_blocks pos part with ⟨next, ahead, hpart⟩ | ⟨fault, hpart⟩
  · rw [hpart.advance_eq]
    refine .inr (Advances.advance_eq ?_)
    rcases hpart with ⟨hstart, hidle⟩ | hstart | ⟨hstart, hname, hshort, hentry⟩ |
      ⟨hstart, hname, hshort, hentry, hlinks⟩
    · exact .idle (h.directory hstart) hidle
    · exact .up (h.directory hstart)
    · exact .name (h.directory hstart) hname hshort fun target htarget =>
        hentry target (h.link_iff.1 htarget)
    · exact .link (h.directory hstart) hname hshort (h.link_iff.2 hentry) hlinks
  · rw [hpart.advance_eq]
    rcases hpart with hstart | ⟨hstart, hname, hlong⟩ | ⟨hstart, hname, hshort, hentry, hlinks⟩
    · rcases directoryFault?_eq_some.1 hstart with ⟨-, rfl⟩ | ⟨-, rfl⟩
      · exact .inl rfl
      · exact .inr (Blocks.start (h.notDirectory hstart)).advance_eq
    · exact .inr (Blocks.long (h.directory hstart) hname hlong).advance_eq
    · exact .inr
        (Blocks.loop (h.directory hstart) hname hshort (h.link_iff.2 hentry) hlinks).advance_eq

/-- A path finds nothing, or it leads to the same on a disk that has grown. -/
theorem Grows.reach {grown : Disk} (h : disk.Grows grown) (pos : Position)
    (parts : List String) :
    disk.reach pos parts = .error .notFound ∨
      grown.reach pos parts = disk.reach pos parts := by
  fun_induction Disk.reach disk pos parts with
  | case1 pos => exact .inr (reach_nil pos)
  | case2 pos part parts fault hpart =>
    rcases h.advance pos part with hnone | hsame
    · rw [hpart, Except.error.injEq] at hnone
      exact .inl (congrArg _ hnone)
    · rw [reach_cons, hsame, hpart]
      exact .inr rfl
  | case3 pos part parts next ahead hpart ih =>
    rcases h.advance pos part with hnone | hsame
    · rw [hpart] at hnone
      cases hnone
    · rw [reach_cons, hsame, hpart]
      exact ih

/-- A path leads to the same on a disk that has grown, but not where following it looks and nothing
is there. -/
theorem Grows.reach_of_missing {grown : Disk} (h : disk.Grows grown) {pos : Position}
    {parts : List String}
    (hmissing : ∀ location, disk.Visits pos parts location → disk.get? location = none →
      grown.get? location = none) : grown.reach pos parts = disk.reach pos parts := by
  fun_induction Disk.reach disk pos parts with
  | case1 pos => exact reach_nil pos
  | case2 pos part parts fault hpart =>
    rcases h.advance pos part with hnone | hsame
    · -- nothing was found at the start of the part, and nothing is there now
      rw [hpart, Except.error.injEq] at hnone
      subst hnone
      have hstart : disk.get? pos.location = none := by
        cases advance_eq_error.1 hpart with
        | start hstart =>
          rcases directoryFault?_eq_some.1 hstart with ⟨hnone, -⟩ | ⟨-, hne⟩
          · exact hnone
          · cases hne
      have hblocks : grown.Blocks pos part .notFound :=
        .start (directoryFault?_eq_some.2 (.inl ⟨hmissing _ (.here ..) hstart, rfl⟩))
      rw [reach_cons, hblocks.advance_eq]
      rfl
    · rw [reach_cons, hsame, hpart]
      rfl
  | case3 pos part parts next ahead hpart ih =>
    rcases h.advance pos part with hnone | hsame
    · rw [hpart] at hnone
      cases hnone
    · rw [reach_cons, hsame, hpart]
      exact ih fun location hlater => hmissing location (.later (advance_eq_ok.1 hpart) hlater)

end Stencil.Disk
