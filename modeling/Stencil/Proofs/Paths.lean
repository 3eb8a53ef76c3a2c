import Stencil.Disk.Walk
import Stencil.Proofs.Trees

/-!
# The names of a path

Of the parts of a path only those that are not idle lead somewhere. `leading` keeps these, and with
them a path behaves in a simple way: joining a name puts it behind the others
(`leading_partsOf_join`), and a path is a name below its parent (`IsTrimmed.below`). The texts
that paths are written as do not matter any more.
-/

namespace Stencil.Disk

/-! ## Texts cut at slashes -/

/-- A slash ends an empty part. -/
theorem cutAtSlashes_slash (s : List Char) : cutAtSlashes ('/' :: s) = [] :: cutAtSlashes s := by
  rw [cutAtSlashes]

theorem cutAtSlashes_ne_nil (s : List Char) : cutAtSlashes s ≠ [] := by
  cases s with
  | nil => simp [cutAtSlashes]
  | cons c s =>
    rw [cutAtSlashes.eq_def]
    dsimp only
    split <;> simp

/-- Any other character belongs to the first part. -/
theorem cutAtSlashes_cons {c : Char} (hc : c ≠ '/') {s part : List Char}
    {parts : List (List Char)} (h : cutAtSlashes s = part :: parts) :
    cutAtSlashes (c :: s) = (c :: part) :: parts := by
  rw [cutAtSlashes.eq_def]
  dsimp only
  rw [h]
  split <;> simp_all

/-- A slash ends a part. -/
theorem cutAtSlashes_append (a b : List Char) :
    cutAtSlashes (a ++ '/' :: b) = cutAtSlashes a ++ cutAtSlashes b := by
  induction a with
  | nil => exact cutAtSlashes_slash b
  | cons c a ih =>
    by_cases hc : c = '/'
    · subst hc
      rw [List.cons_append, cutAtSlashes_slash, ih, cutAtSlashes_slash, List.cons_append]
    · obtain ⟨part, parts, hparts⟩ := List.exists_cons_of_ne_nil (cutAtSlashes_ne_nil a)
      have hboth : cutAtSlashes (a ++ '/' :: b) = part :: (parts ++ cutAtSlashes b) := by
        rw [ih, hparts, List.cons_append]
      rw [List.cons_append, cutAtSlashes_cons hc hboth, cutAtSlashes_cons hc hparts,
        List.cons_append]

/-- A text without slashes is one part. -/
theorem cutAtSlashes_of_not_mem {s : List Char} (h : '/' ∉ s) : cutAtSlashes s = [s] := by
  induction s with
  | nil => rfl
  | cons c s ih =>
    have hc : c ≠ '/' := fun heq => h (heq ▸ List.mem_cons_self)
    exact cutAtSlashes_cons hc (ih fun hmem => h (List.mem_cons_of_mem _ hmem))

/-- A slash between two paths puts the parts of one behind those of the other. -/
theorem partsOf_append (a b : List Char) :
    partsOf (a ++ '/' :: b) = partsOf a ++ partsOf b := by
  rw [partsOf, cutAtSlashes_append, List.map_append]
  rfl

theorem partsOf_name {name : String} (h : '/' ∉ name.toList) : partsOf name.toList = [name] := by
  rw [partsOf, cutAtSlashes_of_not_mem h, List.map_singleton, String.ofList_toList]

theorem partsOf_slash (s : List Char) : partsOf ('/' :: s) = "" :: partsOf s :=
  partsOf_append [] s

/-- The parts of a text hold no slash. -/
theorem not_mem_of_mem_partsOf {s : List Char} {part : String} (h : part ∈ partsOf s) :
    '/' ∉ part.toList := by
  obtain ⟨cut, hcut, rfl⟩ := List.mem_map.1 h
  rw [String.toList_ofList]
  clear h
  induction s generalizing cut with
  | nil =>
    obtain rfl : cut = [] := by simpa [cutAtSlashes] using hcut
    simp
  | cons c s ih =>
    by_cases hc : c = '/'
    · subst hc
      rw [cutAtSlashes_slash] at hcut
      rcases List.mem_cons.1 hcut with rfl | hcut
      · simp
      · exact ih cut hcut
    · obtain ⟨part, parts, hparts⟩ := List.exists_cons_of_ne_nil (cutAtSlashes_ne_nil s)
      rw [cutAtSlashes_cons hc hparts] at hcut
      rcases List.mem_cons.1 hcut with rfl | hcut
      · have hpart := ih part (hparts ▸ List.mem_cons_self)
        intro hmem
        rcases List.mem_cons.1 hmem with heq | hmem
        · exact hc heq.symm
        · exact hpart hmem
      · exact ih cut (hparts ▸ List.mem_cons_of_mem _ hcut)

/-- Parts without slashes are cut out of the text that they are put together to. -/
theorem partsOf_intercalate {parts : List String} (hne : parts ≠ [])
    (h : ∀ part ∈ parts, '/' ∉ part.toList) :
    partsOf ("/".intercalate parts).toList = parts := by
  induction parts with
  | nil => exact absurd rfl hne
  | cons part rest ih =>
    have hpart := h part List.mem_cons_self
    have hrest := fun other hother => h other (List.mem_cons_of_mem part hother)
    rcases rest with _ | ⟨next, rest⟩
    · rw [String.intercalate_singleton, partsOf_name hpart]
    · have hsplit : ("/".intercalate (part :: next :: rest)).toList =
          part.toList ++ '/' :: ("/".intercalate (next :: rest)).toList := by
        rw [String.intercalate_cons_cons]
        simp
      rw [hsplit, partsOf_append, partsOf_name hpart, ih (by simp) hrest]
      rfl

/-! ## The parts that lead somewhere -/

/-- The parts that are not idle. -/
def leading (parts : List String) : List String := parts.filter (!isIdle ·)

@[simp] theorem leading_nil : leading [] = [] := rfl

/-- The leading parts of a concatenation are those of its halves. -/
theorem leading_append (a b : List String) : leading (a ++ b) = leading a ++ leading b :=
  List.filter_append ..

theorem leading_idle {part : String} (h : isIdle part = true) (parts : List String) :
    leading (part :: parts) = leading parts := by
  simp [leading, h]

theorem leading_of_not_idle {part : String} (h : isIdle part = false) (parts : List String) :
    leading (part :: parts) = part :: leading parts := by
  simp [leading, h]

/-- Nothing that leads somewhere is lost with idle parts. -/
theorem leading_dropWhile (parts : List String) :
    leading (parts.dropWhile isIdle) = leading parts := by
  induction parts with
  | nil => rfl
  | cons part rest ih =>
    by_cases hidle : isIdle part = true
    · rw [List.dropWhile_cons_of_pos hidle, ih, leading_idle hidle]
    · rw [List.dropWhile_cons_of_neg hidle]

/-- Read from the end, a path has its leading parts the other way round. -/
theorem leading_reverse (parts : List String) : leading parts.reverse = (leading parts).reverse :=
  List.filter_reverse ..

/-! ## Joining -/

/-- What is written behind a path does not change where it starts. -/
theorem isAbsolute_append {path : String} (h : path ≠ "") (more : String) :
    isAbsolute (path ++ more) = isAbsolute path := by
  have hlist : path.toList ≠ [] := by simpa using h
  obtain ⟨c, s, hs⟩ := List.exists_cons_of_ne_nil hlist
  simp [isAbsolute, String.toList_append, hs]

/-- A name does not lead from the root directory. -/
theorem isAbsolute_name {name : String} (h : '/' ∉ name.toList) : isAbsolute name = false := by
  unfold isAbsolute
  cases hs : name.toList with
  | nil => rfl
  | cons c s =>
    have hc : c ≠ '/' := fun heq => h (by simp [hs, heq])
    simpa using hc

/-- A path with a name behind it. -/
theorem join_name (directory : String) {name : String} (h : '/' ∉ name.toList) :
    join directory name = directory ++ name ∧
        (directory = "" ∨ ∃ s, directory.toList = s ++ ['/']) ∨
      join directory name = directory ++ "/" ++ name ∧ directory ≠ "" := by
  unfold join
  rw [if_neg (by simp [isAbsolute_name h])]
  split
  · rename_i hend
    refine .inl ⟨rfl, hend.imp id fun hlast => ?_⟩
    exact List.getLast?_eq_some_iff.1 hlast
  · rename_i hend
    exact .inr ⟨rfl, fun hempty => hend (.inl hempty)⟩

/-- A name below a directory starts where the directory does. -/
theorem isAbsolute_join (directory : String) {name : String} (h : '/' ∉ name.toList) :
    isAbsolute (join directory name) = isAbsolute directory := by
  by_cases hempty : directory = ""
  · subst hempty
    have hjoin : join "" name = name := by
      unfold join
      simp
    rw [hjoin, isAbsolute_name h]
    rfl
  · rcases join_name directory h with ⟨heq, -⟩ | ⟨heq, -⟩
    · rw [heq, isAbsolute_append hempty]
    · rw [heq, String.append_assoc, isAbsolute_append hempty]

/-- A name is the last part of the path that it is joined to. -/
theorem partsOf_join (directory : String) {name : String} (h : '/' ∉ name.toList) :
    ∃ before, partsOf (join directory name).toList = before ++ [name] ∧
      leading before = leading (partsOf directory.toList) := by
  rcases join_name directory h with ⟨heq, rfl | ⟨s, hs⟩⟩ | ⟨heq, -⟩
  · refine ⟨[], ?_, rfl⟩
    rw [heq, String.empty_append, partsOf_name h]
    rfl
  · refine ⟨partsOf s, ?_, ?_⟩
    · rw [heq, String.toList_append, hs, List.append_assoc, List.singleton_append, partsOf_append,
        partsOf_name h]
    · rw [hs, partsOf_append, leading_append]
      simp [partsOf, cutAtSlashes, leading, isIdle]
  · refine ⟨partsOf directory.toList, ?_, rfl⟩
    have hlist : (directory ++ "/" ++ name).toList = directory.toList ++ '/' :: name.toList := by
      simp
    rw [heq, hlist, partsOf_append, partsOf_name h]

/-- Joining a name puts it behind the parts that lead to the directory. -/
theorem leading_partsOf_join (directory : String) {name : String} (h : IsFileName name) :
    leading (partsOf (join directory name).toList) =
      leading (partsOf directory.toList) ++ [name] := by
  obtain ⟨before, hparts, hbefore⟩ := partsOf_join directory h.2.1
  rw [hparts, leading_append, hbefore, leading_of_not_idle h.1.1, leading_nil]

/-! ## Going down by names -/

/-- The last of some names is joined last. -/
theorem pathBelow_concat (directory : String) (names : List String) (name : String) :
    pathBelow directory (names ++ [name]) = join (pathBelow directory names) name := by
  simp [pathBelow]

/-- The names below a directory are the last that lead somewhere. -/
theorem leading_partsOf_pathBelow (directory : String) {names : List String}
    (h : ∀ name ∈ names, IsFileName name) :
    leading (partsOf (pathBelow directory names).toList) =
      leading (partsOf directory.toList) ++ names := by
  induction names generalizing directory with
  | nil => simp [pathBelow]
  | cons name rest ih =>
    have hrest := fun other hother => h other (List.mem_cons_of_mem name hother)
    change leading (partsOf (pathBelow (join directory name) rest).toList) = _
    rw [ih _ hrest, leading_partsOf_join directory (h name List.mem_cons_self)]
    simp

/-- A path below a directory starts where the directory does. -/
theorem isAbsolute_pathBelow (directory : String) {names : List String}
    (h : ∀ name ∈ names, IsFileName name) :
    isAbsolute (pathBelow directory names) = isAbsolute directory := by
  induction names generalizing directory with
  | nil => rfl
  | cons name rest ih =>
    have hrest := fun other hother => h other (List.mem_cons_of_mem name hother)
    change isAbsolute (pathBelow (join directory name) rest) = _
    rw [ih _ hrest, isAbsolute_join _ (h name List.mem_cons_self).2.1]

/-! ## Paths taken apart -/

namespace Path

/-- A path whose text can be taken apart again. -/
structure IsWritten (path : Path) : Prop where
  no_slash : ∀ part ∈ path.parts, '/' ∉ part.toList
  /-- Behind a leading dot there comes a slash. -/
  here : path.lead = .here → path.parts = [] ∨ path.parts.getLast? = some ""
  /-- A path that does not lead from the root directory does not start with a slash. -/
  plain : path.lead = .plain → path.parts.getLast? = some "" → path.parts = [""]

/-- The path without the idle parts behind it. -/
def trim (path : Path) : Path := ⟨path.lead, path.parts.dropWhile isIdle⟩

/-- The parts that lead somewhere, the first part first. -/
def names (path : Path) : List String := leading path.parts.reverse

/-- A path keeps its names when idle parts at its end are dropped. -/
theorem names_trim (path : Path) : path.trim.names = path.names := by
  rw [names, names, leading_reverse, leading_reverse, trim, leading_dropWhile]

/-- The first part behind dropped ones is not idle. -/
theorem dropWhile_isIdle_cons {parts rest : List String} {part : String}
    (h : parts.dropWhile isIdle = part :: rest) : isIdle part = false := by
  have hhead := List.head?_dropWhile_not isIdle parts
  rw [h] at hhead
  simpa using hhead

/-- What is left of the parts of a path without the last ones can be taken apart, too. -/
theorem IsWritten.of_suffix {path : Path} (h : path.IsWritten) {parts : List String}
    (hparts : parts <:+ path.parts) (hlead : ∃ part ∈ path.parts, isIdle part = false) :
    IsWritten ⟨path.lead, parts⟩ := by
  have hlast : parts ≠ [] → parts.getLast? = path.parts.getLast? := by
    intro hne
    obtain ⟨before, heq⟩ := hparts
    rw [← heq, List.getLast?_append, List.getLast?_eq_some_getLast hne]
    rfl
  refine ⟨fun part hpart => h.no_slash part (hparts.subset hpart), ?_, ?_⟩
  · intro hhere
    by_cases hne : parts = []
    · exact .inl hne
    · rcases h.here hhere with hempty | hslash
      · rw [hempty, List.suffix_nil] at hparts
        exact .inl hparts
      · exact .inr ((hlast hne).trans hslash)
  · intro hplain hslash
    have hne : parts ≠ [] := by
      rintro rfl
      cases hslash
    have hall := h.plain hplain ((hlast hne).symm.trans hslash)
    obtain ⟨part, hpart, hidle⟩ := hlead
    rw [hall, List.mem_singleton] at hpart
    rw [hpart] at hidle
    cases hidle

/-- What a text is taken apart into can be written again. -/
theorem isWritten_ofString (s : String) : (ofString s).IsWritten := by
  unfold ofString
  split
  · exact ⟨fun part hpart => not_mem_of_mem_partsOf (List.mem_reverse.1 hpart), by simp, by simp⟩
  · exact ⟨by simp, by simp, by simp⟩
  · refine ⟨fun part hpart => ?_, by simp, by simp⟩
    rcases List.mem_cons.1 (List.mem_reverse.1 hpart) with rfl | hpart
    · simp
    · exact not_mem_of_mem_partsOf hpart
  · rename_i hroot _ _
    refine ⟨fun part hpart => not_mem_of_mem_partsOf (List.mem_reverse.1 hpart), by simp, ?_⟩
    intro _ hslash
    dsimp only at hslash ⊢
    rw [List.getLast?_reverse] at hslash
    cases hs : s.toList with
    | nil => rfl
    | cons c t =>
      have hc : c ≠ '/' := fun heq => hroot t (heq ▸ hs)
      obtain ⟨part, parts, hparts⟩ := List.exists_cons_of_ne_nil (cutAtSlashes_ne_nil t)
      rw [hs, partsOf, cutAtSlashes_cons hc hparts] at hslash
      simp at hslash

theorem partsOf_dot (s : List Char) : partsOf ('.' :: '/' :: s) = "." :: partsOf s :=
  partsOf_append ['.'] s

/-- The names of a path, read off its text. -/
theorem names_ofString (s : String) : (ofString s).names = leading (partsOf s.toList) := by
  unfold ofString names
  split <;> rename_i hs
  · rw [List.reverse_reverse, hs, partsOf_slash, leading_idle (by decide)]
  · rw [hs]
    decide
  · rw [List.reverse_reverse, leading_idle (by decide), hs, partsOf_dot, leading_idle (by decide)]
  · rw [List.reverse_reverse]

/-- A path leads from the root directory exactly if its text starts with a slash. -/
theorem lead_ofString (s : String) : (ofString s).lead = .root ↔ isAbsolute s = true := by
  unfold ofString isAbsolute
  split
  · rename_i hs
    simp [hs]
  · rename_i hs
    simp [hs]
  · rename_i hs
    simp [hs]
  · rename_i hroot _ _
    cases hlist : s.toList with
    | nil => simp
    | cons c t =>
      have hc : c ≠ '/' := fun heq => hroot t (heq ▸ hlist)
      simpa using hc

namespace IsWritten

variable {path : Path}

/-- The last name of a path is the last part of its text. -/
theorem partsOf_text (h : path.IsWritten) {name : String} {rest : List String}
    (hparts : path.parts = name :: rest) (hname : isIdle name = false) :
    ∃ before, partsOf path.text.toList = before ++ [name] ∧
      leading before = leading rest.reverse := by
  obtain ⟨lead, parts⟩ := path
  dsimp only at hparts
  subst hparts
  have hslash : ∀ part ∈ (name :: rest).reverse, '/' ∉ part.toList :=
    fun part hpart => h.no_slash part (List.mem_reverse.1 hpart)
  have hjoined : partsOf ("/".intercalate (name :: rest).reverse).toList = (name :: rest).reverse :=
    partsOf_intercalate (by simp) hslash
  cases lead with
  | root =>
    refine ⟨"" :: rest.reverse, ?_, leading_idle (by decide) _⟩
    have htext : (text ⟨.root, name :: rest⟩).toList =
        '/' :: ("/".intercalate (name :: rest).reverse).toList := by
      simp [text, leadText]
    rw [htext, partsOf_slash, hjoined, List.reverse_cons]
    rfl
  | plain =>
    refine ⟨rest.reverse, ?_, rfl⟩
    rw [text, leadText, String.empty_append, hjoined, List.reverse_cons]
  | here =>
    -- the dot takes the place of the empty part in front
    obtain ⟨front, hfront⟩ : ∃ front, rest = front ++ [""] := by
      rcases h.here rfl with hempty | hlast
      · cases hempty
      · obtain ⟨front, hfront⟩ := List.getLast?_eq_some_iff.1 hlast
        rcases front with _ | ⟨part, front⟩
        · obtain ⟨rfl, -⟩ : name = "" ∧ rest = [] := by simpa using hfront
          cases hname
        · exact ⟨front, (List.cons.inj hfront).2⟩
    subst hfront
    have hrest : partsOf ("/".intercalate (front.reverse ++ [name])).toList =
        front.reverse ++ [name] :=
      partsOf_intercalate (by simp) fun part hpart => hslash part (by
        simp only [List.reverse_cons, List.reverse_append, List.reverse_nil, List.nil_append]
        simp only [List.mem_append] at hpart ⊢
        exact hpart.imp .inr id)
    have hne : front.reverse ++ [name] ≠ [] := by simp
    obtain ⟨first, others, hfirst⟩ := List.exists_cons_of_ne_nil hne
    have htext : (text ⟨.here, name :: (front ++ [""])⟩).toList =
        '.' :: '/' :: ("/".intercalate (front.reverse ++ [name])).toList := by
      simp only [text, leadText, List.reverse_cons, List.reverse_append, List.reverse_nil,
        List.nil_append, List.cons_append]
      rw [hfirst, String.intercalate_cons_cons]
      simp
    refine ⟨"." :: front.reverse, ?_, ?_⟩
    · rw [htext, partsOf_dot, hrest]
      rfl
    · simp [leading_idle (show isIdle "." = true by decide),
        leading_idle (show isIdle "" = true by decide)]

/-- So does the text of a path that can be taken apart again. -/
theorem isAbsolute_text (h : path.IsWritten) :
    isAbsolute path.text = true ↔ path.lead = .root := by
  obtain ⟨lead, parts⟩ := path
  cases lead with
  | root => simp [isAbsolute, text, leadText]
  | here => simp [isAbsolute, text, leadText]
  -- Such a text starts with its first part, which is not empty unless it is the only one.
  | plain =>
    have hfirst : isAbsolute (text ⟨.plain, parts⟩) = false := by
      by_cases hne : parts = [] ∨ parts = [""]
      · rcases hne with rfl | rfl <;> rfl
      · obtain ⟨first, others, hparts⟩ : ∃ first others, parts.reverse = first :: others :=
          List.exists_cons_of_ne_nil (by simpa using fun hnil => hne (.inl hnil))
        have hlast : parts.getLast? = some first := by
          rw [← List.head?_reverse, hparts]
          rfl
        have hfirst : first ≠ "" := by
          rintro rfl
          exact hne (.inr (h.plain rfl hlast))
        have hslash : '/' ∉ first.toList :=
          h.no_slash first (List.mem_reverse.1 (hparts ▸ List.mem_cons_self))
        obtain ⟨more, hmore⟩ : ∃ more, text ⟨.plain, parts⟩ = first ++ more := by
          simp only [text, leadText, hparts, String.empty_append]
          rcases others with _ | ⟨next, others⟩
          · exact ⟨"", by simp⟩
          · exact ⟨_, by rw [String.intercalate_cons_cons, String.append_assoc]⟩
        rw [hmore, isAbsolute_append hfirst, isAbsolute_name hslash]
    simp [hfirst]

/-- The names of a path without idle parts behind it, read off its text. -/
theorem names_text (h : path.trim.IsWritten) :
    leading (partsOf path.trim.text.toList) = path.names := by
  rw [← names_trim]
  cases hparts : path.trim.parts with
  | nil =>
    have heq : path.trim = ⟨path.lead, []⟩ := congrArg (Path.mk path.lead) hparts
    rw [heq]
    cases path.lead <;> decide
  | cons name rest =>
    have hname := dropWhile_isIdle_cons hparts
    obtain ⟨before, htext, hbefore⟩ := h.partsOf_text hparts hname
    rw [htext, leading_append, hbefore, names, hparts, List.reverse_cons, leading_append]

end IsWritten

/-! ## Parents -/

/-- A path that no idle part stands behind. Making directories leads only to such paths. -/
structure IsTrimmed (path : Path) : Prop extends IsWritten path where
  last {name : String} {rest : List String} (h : path.parts = name :: rest) : isIdle name = false

variable {path : Path}

/-- A path without idle parts at its end is as it is after trimming. -/
theorem IsTrimmed.trim_eq (h : path.IsTrimmed) : path.trim = path := by
  unfold trim
  rcases hparts : path.parts with _ | ⟨name, rest⟩
  · exact congrArg _ hparts.symm
  · rw [List.dropWhile_cons_of_neg (by simp [h.last hparts]), ← hparts]

theorem isTrimmed_empty (lead : Lead) : IsTrimmed ⟨lead, []⟩ where
  no_slash := by simp
  here _ := .inl rfl
  plain _ h := by cases h
  last h := by cases h

/-- Trimming leaves no idle part at the end. -/
theorem IsWritten.trimmed (h : path.IsWritten) : path.trim.IsTrimmed := by
  rcases hparts : path.trim.parts with _ | ⟨name, rest⟩
  · have heq : path.trim = ⟨path.lead, []⟩ := congrArg (Path.mk path.lead) hparts
    exact heq ▸ isTrimmed_empty path.lead
  · have hname := dropWhile_isIdle_cons hparts
    have hsuffix : path.trim.parts <:+ path.parts := List.dropWhile_suffix isIdle
    have hmem : name ∈ path.parts := hsuffix.subset (hparts ▸ List.mem_cons_self)
    refine ⟨h.of_suffix hsuffix ⟨name, hmem, hname⟩, fun heq => ?_⟩
    rw [hparts, List.cons.injEq] at heq
    exact heq.1 ▸ hname

/-- The text of some parts is where the text of more parts starts. -/
theorem intercalate_append_prefix (a b : List String) :
    ∃ more, "/".intercalate (a ++ b) = "/".intercalate a ++ more := by
  induction a with
  | nil => exact ⟨_, by rw [String.intercalate_nil, String.empty_append]⟩
  | cons part rest ih =>
    obtain ⟨more, hmore⟩ := ih
    rcases rest with _ | ⟨next, rest⟩
    · rcases b with _ | ⟨next, b⟩
      · exact ⟨"", by simp⟩
      · refine ⟨"/" ++ "/".intercalate (next :: b), ?_⟩
        rw [List.singleton_append, String.intercalate_cons_cons, String.intercalate_singleton,
          String.append_assoc]
    · refine ⟨more, ?_⟩
      rw [List.cons_append, List.cons_append, String.intercalate_cons_cons, ← List.cons_append,
        hmore, String.intercalate_cons_cons, String.append_assoc, String.append_assoc,
        String.append_assoc]

/-- The text of a parent begins the text of the path. -/
theorem text_parent_prefix {parent : Path} (h : path.parent? = some parent) :
    ∃ more, path.text = parent.text ++ more := by
  unfold parent? at h
  rcases hparts : path.parts.dropWhile isIdle with _ | ⟨name, rest⟩
  · rw [hparts] at h
    cases hlead : path.lead <;> simp only [hlead, Option.some.injEq, reduceCtorEq] at h
    subst h
    exact ⟨path.text, by simp [text, leadText]⟩
  · rw [hparts, Option.some.injEq] at h
    subst h
    obtain ⟨idle, hidle⟩ := List.dropWhile_suffix (l := path.parts) isIdle
    obtain ⟨more, hmore⟩ := List.dropWhile_suffix (l := rest) isIdle
    rw [hparts] at hidle
    have hsplit : path.parts.reverse =
        (rest.dropWhile isIdle).reverse ++ (more.reverse ++ (name :: idle.reverse)) := by
      rw [← hidle, List.reverse_append, List.reverse_cons, ← hmore, List.reverse_append]
      simp [hmore]
    obtain ⟨end_, hend⟩ := intercalate_append_prefix (rest.dropWhile isIdle).reverse
      (more.reverse ++ (name :: idle.reverse))
    exact ⟨end_, by rw [text, hsplit, hend, text, String.append_assoc]⟩

/-- A path is a name below another one. -/
structure IsBelow (path parent : Path) (name : String) : Prop where
  lead_eq : path.lead = parent.lead
  not_idle : isIdle name = false
  no_slash : '/' ∉ name.toList
  names_eq : path.names = parent.names ++ [name]
  text : ∃ before, partsOf path.text.toList = before ++ [name] ∧ leading before = parent.names
  text_prefix : ∃ more, path.text = parent.text ++ more

/-- A path without idle parts behind it is a lead, or a name below its parent. -/
theorem IsTrimmed.below (h : path.IsTrimmed) :
    path.parts = [] ∨ ∃ parent name, path.parent? = some parent ∧ parent.IsTrimmed ∧
      path.IsBelow parent name := by
  rcases hparts : path.parts with _ | ⟨name, rest⟩
  · exact .inl rfl
  · have hname := h.last hparts
    have hparent : path.parent? = some ⟨path.lead, rest.dropWhile isIdle⟩ := by
      unfold parent?
      rw [hparts, List.dropWhile_cons_of_neg (by simp [hname])]
    have hsuffix : rest <:+ path.parts := hparts ▸ List.suffix_cons name rest
    have hwritten : IsWritten ⟨path.lead, rest⟩ :=
      h.toIsWritten.of_suffix hsuffix ⟨name, hparts ▸ List.mem_cons_self, hname⟩
    have hnames : names ⟨path.lead, rest.dropWhile isIdle⟩ = leading rest.reverse :=
      names_trim ⟨path.lead, rest⟩
    have hslash := h.no_slash name (hparts ▸ List.mem_cons_self)
    refine .inr ⟨_, name, hparent, hwritten.trimmed, rfl, hname, hslash, ?_, ?_,
      text_parent_prefix hparent⟩
    · rw [hnames, names, hparts, List.reverse_cons, leading_append, leading_of_not_idle hname,
        leading_nil]
    · rw [hnames]
      exact h.toIsWritten.partsOf_text hparts hname

/-- A text that starts with a slash leads from the root directory. -/
theorem ofString_root (s : List Char) :
    ofString (String.ofList ('/' :: s)) = ⟨.root, (partsOf s).reverse⟩ := by
  simp [ofString]

/-- A text that starts with a dot and a slash leads from where it is read. -/
theorem ofString_here (s : List Char) :
    ofString (String.ofList ('.' :: '/' :: s)) = ⟨.here, ("" :: partsOf s).reverse⟩ := by
  simp [ofString]

/-- Any other text but a dot is all parts. -/
theorem ofString_plain {s : List Char} (hroot : ∀ t, s ≠ '/' :: t) (hdot : s ≠ ['.'])
    (hhere : ∀ t, s ≠ '.' :: '/' :: t) :
    ofString (String.ofList s) = ⟨.plain, (partsOf s).reverse⟩ := by
  unfold ofString
  rw [String.toList_ofList]
  split
  · exact absurd rfl (hroot _)
  · exact absurd rfl hdot
  · exact absurd rfl (hhere _)
  · rfl

/-- Behind a slash the parts of a text stand before those of the path in front of it. -/
theorem ofString_slash {front : List Char} (hne : front ≠ []) (s : List Char) :
    ∃ parts, ofString (String.ofList (front ++ '/' :: s)) =
        ⟨(ofString (String.ofList front)).lead, (partsOf s).reverse ++ parts⟩ ∧
      parts.dropWhile isIdle = (ofString (String.ofList front)).parts.dropWhile isIdle := by
  by_cases hroot : ∃ t, front = '/' :: t
  · obtain ⟨t, rfl⟩ := hroot
    refine ⟨(partsOf t).reverse, ?_, by rw [ofString_root]⟩
    rw [List.cons_append, ofString_root, ofString_root, partsOf_append, List.reverse_append]
  by_cases hdot : front = ['.']
  · subst hdot
    refine ⟨[""], ?_, rfl⟩
    rw [List.singleton_append, ofString_here, List.reverse_cons]
    rfl
  by_cases hhere : ∃ t, front = '.' :: '/' :: t
  · obtain ⟨t, rfl⟩ := hhere
    refine ⟨("" :: partsOf t).reverse, ?_, by rw [ofString_here]⟩
    rw [List.cons_append, List.cons_append, ofString_here, ofString_here, partsOf_append,
      List.reverse_cons, List.reverse_cons, List.reverse_append, List.append_assoc]
  -- Neither a slash nor a dot in front: the text with more behind it starts as it did.
  have hplain := ofString_plain (fun t h => hroot ⟨t, h⟩) hdot fun t h => hhere ⟨t, h⟩
  refine ⟨(partsOf front).reverse, ?_, by rw [hplain]⟩
  rw [hplain, ofString_plain, partsOf_append, List.reverse_append]
  · intro t h
    rcases front with _ | ⟨c, rest⟩
    · exact hne rfl
    · exact hroot ⟨rest, by rw [(List.cons.inj h).1]⟩
  · intro h
    rcases front with _ | ⟨c, rest⟩ <;> simp at h
  · intro t h
    rcases front with _ | ⟨c, _ | ⟨d, rest⟩⟩
    · exact hne rfl
    · exact hdot (by rw [(List.cons.inj h).1])
    · simp only [List.cons_append, List.cons.injEq] at h
      exact hhere ⟨rest, by rw [h.1, h.2.1]⟩

/-- The parent of a path with a name joined to it is the path itself. -/
theorem parent?_join (directory : String) {name : String} (h : IsFileName name) :
    (ofString (join directory name)).parent? = some (ofString directory).trim := by
  have hname : List.dropWhile isIdle [name] = [name] :=
    List.dropWhile_cons_of_neg (by simp [h.1.1])
  -- Where a slash stands in front of the name, the parent is what stands in front of the slash.
  have hparent : ∀ {front : List Char}, front ≠ [] → ∀ {path : String},
      path.toList = front ++ '/' :: name.toList →
        (ofString path).parent? = some (ofString (String.ofList front)).trim := by
    intro front hne path hpath
    obtain ⟨parts, hparts, htrim⟩ := ofString_slash hne name.toList
    rw [partsOf_name h.2.1, ← hpath, String.ofList_toList] at hparts
    rw [hparts, parent?, List.reverse_singleton, List.singleton_append,
      List.dropWhile_cons_of_neg (by simp [h.1.1])]
    rw [trim, ← htrim]
  rcases join_name directory h.2.1 with ⟨heq, rfl | ⟨front, hfront⟩⟩ | ⟨heq, hne⟩
  · -- The directory is written without a text.
    have hplain : ofString name = ⟨.plain, [name]⟩ := by
      have hlist := ofString_plain (s := name.toList) (fun t ht => h.2.1 (ht ▸ List.mem_cons_self))
        (fun hdot => ?_) fun t ht => h.2.1 (ht ▸ List.mem_cons_of_mem _ List.mem_cons_self)
      · rwa [String.ofList_toList, partsOf_name h.2.1] at hlist
      · have hidle := h.1.1
        rw [← String.ofList_toList (s := name), hdot] at hidle
        exact absurd hidle (by decide)
    rw [heq, String.empty_append, hplain, parent?, hname]
    rfl
  · have hpath : (join directory name).toList = front ++ '/' :: name.toList := by
      rw [heq, String.toList_append, hfront, List.append_assoc, List.singleton_append]
    have hdirectory : directory = String.ofList (front ++ '/' :: []) := by
      rw [← String.ofList_toList (s := directory), hfront]
    by_cases hne : front = []
    · subst hne
      have hroot := ofString_root name.toList
      rw [List.nil_append] at hpath
      rw [← hpath, String.ofList_toList, partsOf_name h.2.1, List.reverse_singleton] at hroot
      rw [hroot, parent?, hname, hdirectory]
      rfl
    · obtain ⟨parts, hparts, htrim⟩ := ofString_slash hne []
      rw [hparent hne hpath, hdirectory, hparts, trim, trim, ← htrim]
      rfl
  · have hpath : (join directory name).toList = directory.toList ++ '/' :: name.toList := by
      simp [heq]
    rw [hparent (by simpa using hne) hpath, String.ofList_toList]

/-- Without the idle parts behind it a path has the same parent. -/
theorem parent?_trim (path : Path) : path.trim.parent? = path.parent? := by
  have hidem : path.trim.parts.dropWhile isIdle = path.parts.dropWhile isIdle := by
    change (path.parts.dropWhile isIdle).dropWhile isIdle = _
    rcases hparts : path.parts.dropWhile isIdle with _ | ⟨name, rest⟩
    · rfl
    · exact List.dropWhile_cons_of_neg (by simp [dropWhile_isIdle_cons hparts])
  rw [parent?, parent?, hidem]
  rfl

/-- What holds of every lead, and of a path whenever it holds of its parent, holds of every path
without idle parts behind it. -/
theorem IsTrimmed.induction {motive : Path → Prop} (lead : ∀ lead, motive ⟨lead, []⟩)
    (below : ∀ {path parent : Path} {name : String}, path.parent? = some parent →
      path.IsTrimmed → parent.IsTrimmed → path.IsBelow parent name → motive parent → motive path)
    (h : path.IsTrimmed) : motive path := by
  induction hdepth : path.depth using Nat.strongRecOn generalizing path with
  | ind depth ih =>
    rcases h.below with hparts | ⟨parent, name, hparent, htrimmed, hbelow⟩
    · obtain ⟨start, parts⟩ := path
      dsimp only at hparts
      exact hparts ▸ lead start
    · exact below hparent h htrimmed hbelow
        (ih _ (hdepth ▸ depth_lt_of_parent? hparent) htrimmed rfl)

end Path

end Stencil.Disk
