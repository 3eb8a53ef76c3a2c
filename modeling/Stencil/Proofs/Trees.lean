import Mathlib.Data.List.Basic
import Mathlib.Data.List.Induction
import Stencil.Proofs.Following

/-!
# Trees of files

A disk is a list of entries. It is a tree of files when every entry lies in a directory, has a name
that a file can have, and is listed once: `IsTree`. Then `names` lists what a directory holds
(`mem_names`), each name once, and what holds something below it is a directory.

Making a directory or writing a file keeps the tree and lets the disk grow.
-/

namespace Stencil.Disk

instance (part : String) : Decidable (IsName part) := inferInstanceAs (Decidable (_ ∧ _))

/-- A name that a file or a directory can have. -/
def IsFileName (name : String) : Prop :=
  IsName name ∧ '/' ∉ name.toList ∧ name.utf8ByteSize ≤ maxNameBytes

instance (name : String) : Decidable (IsFileName name) := inferInstanceAs (Decidable (_ ∧ _))

/-- The entries of a disk form a tree. -/
structure IsTree (disk : Disk) : Prop where
  nodup : (disk.entries.map (·.1)).Nodup
  /-- Every entry has a name and lies in a directory. -/
  inside : ∀ e ∈ disk.entries,
    IsFileName (e.1.getLastD "") ∧ disk.get? e.1.dropLast = some .directory
  working : disk.get? disk.working = some .directory

variable {disk : Disk}

theorem get?_nil : disk.get? [] = some .directory := by simp [get?]

theorem get?_of_ne_nil {location : Location} (h : location ≠ []) :
    disk.get? location = disk.entries.lookup location := by simp [get?, h]

/-- What a location below another one holds is listed. -/
theorem mem_entries_of_get? {directory : Location} {name : String} {entry : Entry}
    (h : disk.get? (directory ++ [name]) = some entry) :
    (directory ++ [name], entry) ∈ disk.entries := by
  rw [get?_of_ne_nil (by simp)] at h
  obtain ⟨before, after, heq, -⟩ := List.lookup_eq_some_iff.1 h
  simp [heq]

/-- A name is there below a directory exactly if it is listed. -/
theorem isSome_get?_concat {directory : Location} {name : String} :
    (disk.get? (directory ++ [name])).isSome ↔
      directory ++ [name] ∈ disk.entries.map (·.1) := by
  rw [get?_of_ne_nil (by simp), List.lookup_isSome_iff, List.mem_map]
  constructor
  · rintro ⟨e, he, heq⟩
    exact ⟨e, he, (eq_of_beq heq).symm⟩
  · rintro ⟨e, he, heq⟩
    exact ⟨e, he, by rw [heq, beq_self_eq_true]⟩

/-! ## What a tree holds -/

namespace IsTree

/-- What lies in a directory has a name. -/
theorem isFileName (h : disk.IsTree) {directory : Location} {name : String} {entry : Entry}
    (hentry : disk.get? (directory ++ [name]) = some entry) : IsFileName name := by
  simpa using (h.inside _ (mem_entries_of_get? hentry)).1

/-- What holds something is a directory. -/
theorem directory (h : disk.IsTree) {directory : Location} {name : String} {entry : Entry}
    (hentry : disk.get? (directory ++ [name]) = some entry) :
    disk.get? directory = some .directory := by
  simpa using (h.inside _ (mem_entries_of_get? hentry)).2

/-- What holds something further below is a directory. -/
theorem directory_above (h : disk.IsTree) {location below : Location} {entry : Entry}
    (hne : below ≠ []) (hentry : disk.get? (location ++ below) = some entry) :
    disk.get? location = some .directory := by
  induction below using List.reverseRecOn generalizing entry with
  | nil => exact absurd rfl hne
  | append_singleton front name ih =>
    rw [← List.append_assoc] at hentry
    have hfront := h.directory hentry
    rcases front with _ | ⟨part, rest⟩
    · simpa using hfront
    · exact ih (by simp) hfront

/-- Below a location that holds nothing there is nothing. -/
theorem none_below (h : disk.IsTree) {location : Location} (hnone : disk.get? location = none)
    (below : List String) : disk.get? (location ++ below) = none := by
  by_cases hne : below = []
  · rw [hne, List.append_nil, hnone]
  · refine Option.eq_none_iff_forall_ne_some.2 fun entry hentry => ?_
    rw [h.directory_above hne hentry] at hnone
    cases hnone

end IsTree

/-- The names in a directory are those of what it holds. -/
theorem mem_names {directory : Location} {name : String} :
    name ∈ disk.names directory ↔ (disk.get? (directory ++ [name])).isSome := by
  rw [isSome_get?_concat, names, List.mem_filterMap]
  constructor
  · rintro ⟨e, he, hname⟩
    split at hname
    · rename_i hdirectory
      obtain ⟨front, hfront⟩ := List.getLast?_eq_some_iff.1 hname
      rw [hfront, List.dropLast_concat] at hdirectory
      rw [List.mem_map]
      exact ⟨e, List.mem_reverse.1 he, by rw [hfront, hdirectory]⟩
    · cases hname
  · intro hmem
    obtain ⟨e, he, hlocation⟩ := List.mem_map.1 hmem
    exact ⟨e, List.mem_reverse.2 he, by simp [hlocation]⟩

/-- A tree lists every name once. -/
theorem IsTree.nodup_names (h : disk.IsTree) (directory : Location) :
    (disk.names directory).Nodup := by
  have hkeys : disk.entries.reverse.Pairwise fun a b => a.1 ≠ b.1 := by
    rw [List.pairwise_reverse]
    exact (List.pairwise_map.1 h.nodup).imp Ne.symm
  refine List.Pairwise.filterMap _ ?_ hkeys
  intro a b hab name hname name' hname' heq
  subst heq
  split at hname
  · rename_i ha
    split at hname'
    · rename_i hb
      obtain ⟨front, hfront⟩ := List.getLast?_eq_some_iff.1 hname
      obtain ⟨front', hfront'⟩ := List.getLast?_eq_some_iff.1 hname'
      rw [hfront, List.dropLast_concat] at ha
      rw [hfront', List.dropLast_concat] at hb
      exact hab (by rw [hfront, hfront', ha, hb])
    · cases hname'
  · cases hname

/-! ## Putting an entry into a tree -/

/-- The locations with an entry after another one has been set. -/
theorem map_fst_setEntry (location : Location) (entry : Entry) (l : List (Location × Entry)) :
    (setEntry location entry l).map (·.1) =
      if location ∈ l.map (·.1) then l.map (·.1) else l.map (·.1) ++ [location] := by
  induction l with
  | nil => rfl
  | cons e rest ih =>
    by_cases heq : e.1 = location
    · simp [setEntry, heq]
    · have hne : location ≠ e.1 := fun h => heq h.symm
      by_cases hmem : location ∈ rest.map (·.1)
      · rw [setEntry, if_neg heq, List.map_cons, ih, if_pos hmem, if_pos (by simp_all)]
        rfl
      · rw [setEntry, if_neg heq, List.map_cons, ih, if_neg hmem, if_neg (by simp_all)]
        rfl

/-- The entries of a disk with one more, in the place of an older one or else behind the others. -/
theorem mem_entries_put {location : Location} {entry : Entry} {e : Location × Entry}
    (h : e ∈ (disk.put location entry).entries) : e = (location, entry) ∨ e ∈ disk.entries := by
  change e ∈ setEntry location entry disk.entries at h
  generalize disk.entries = l at h
  induction l with
  | nil => simpa [setEntry] using h
  | cons e' rest ih =>
    rw [setEntry] at h
    split at h
    · rcases List.mem_cons.1 h with rfl | h
      · exact .inl rfl
      · exact .inr (List.mem_cons_of_mem _ h)
    · rcases List.mem_cons.1 h with rfl | h
      · exact .inr List.mem_cons_self
      · exact (ih h).imp id (List.mem_cons_of_mem _)

/-- A tree stays one with an entry in one of its directories, unless a directory is replaced by
something else. -/
theorem IsTree.put (h : disk.IsTree) {directory : Location} {name : String} {entry : Entry}
    (hdirectory : disk.get? directory = some .directory) (hname : IsFileName name)
    (hold : disk.get? (directory ++ [name]) = some .directory → entry = .directory) :
    (disk.put (directory ++ [name]) entry).IsTree := by
  -- Directories stay, so what was in a directory still is.
  have hkeep : ∀ {location}, disk.get? location = some .directory →
      (disk.put (directory ++ [name]) entry).get? location = some .directory := by
    intro location hlocation
    rw [get?_put disk (by simp)]
    split
    · rename_i heq
      rw [hold (heq ▸ hlocation)]
    · exact hlocation
  refine ⟨?_, ?_, hkeep h.working⟩
  · have hmap := map_fst_setEntry (directory ++ [name]) entry disk.entries
    change ((setEntry _ _ _).map (·.1)).Nodup
    rw [hmap]
    split
    · exact h.nodup
    · rename_i hnew
      rw [List.nodup_append]
      refine ⟨h.nodup, by simp, ?_⟩
      intro a ha b hb hab
      rw [List.mem_singleton] at hb
      exact hnew (hb ▸ hab ▸ ha)
  · intro e he
    rcases mem_entries_put he with rfl | he
    · simpa using ⟨hname, hkeep hdirectory⟩
    · exact ⟨(h.inside e he).1, hkeep (h.inside e he).2⟩

/-! ## Growing by directories and files -/

/-- What is new is listed behind the rest. -/
theorem listed_put (location : Location) (entry : Entry) :
    ∃ more, (disk.put location entry).entries.map (·.1) = disk.entries.map (·.1) ++ more := by
  change ∃ more, (setEntry location entry disk.entries).map (·.1) = _
  rw [map_fst_setEntry]
  split
  · exact ⟨[], (List.append_nil _).symm⟩
  · exact ⟨_, rfl⟩

/-- A disk grows by a directory where there was nothing. -/
theorem grows_put_directory {location : Location} (hnone : disk.get? location = none) :
    disk.Grows (disk.put location .directory) := by
  have hne : location ≠ [] := by
    rintro rfl
    simp [get?_nil] at hnone
  have hget := fun other => get?_put disk hne other .directory
  refine ⟨rfl, listed_put .., ?_, ?_, ?_⟩
  · intro other hother
    rw [hget]
    split
    · rfl
    · exact hother
  · intro other content hother
    refine ⟨content, ?_⟩
    rw [hget, if_neg]
    · exact hother
    · rintro rfl
      simp [hnone] at hother
  · intro other target
    rw [hget]
    split
    · rename_i heq
      simp [heq, hnone]
    · rfl

/-- A disk grows by a file where there was a file or nothing. -/
theorem grows_put_file {location : Location} {content : ByteArray} (hne : location ≠ [])
    (hold : ∀ entry, disk.get? location = some entry → ∃ content, entry = .file content) :
    disk.Grows (disk.put location (.file content)) := by
  have hget := fun other => get?_put disk hne other (.file content)
  refine ⟨rfl, listed_put .., ?_, ?_, ?_⟩
  · intro other hother
    rw [hget, if_neg]
    · exact hother
    · rintro rfl
      obtain ⟨_, heq⟩ := hold _ hother
      cases heq
  · intro other old hother
    rw [hget]
    split
    · exact ⟨content, rfl⟩
    · exact ⟨old, hother⟩
  · -- A file does not take the place of a link.
    intro other target
    rw [hget]
    split
    · rename_i heq
      subst heq
      constructor
      · intro hfile
        cases hfile
      · intro hlink
        obtain ⟨_, heq⟩ := hold _ hlink
        cases heq
    · rfl

end Stencil.Disk
