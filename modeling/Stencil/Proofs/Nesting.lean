import Mathlib.Logic.Basic
import Stencil.Proofs.Markers

/-!
# Blocks that are still open

A block is opened by a marker that starts with `if`, `insert` or `block`, and ended by one that
starts with `endblock`. `depth` counts how many blocks lexemes open and do not end. What derives a
template opens no more blocks than it ends (`Derivation.depth_lexemes`), and what the builder has
open can be closed by as many markers as there are open blocks (`Builder.exists_closed`), whichever
blocks these are.

Main statement: `unexpectedEnd_iff_completes`, that a source ends too early exactly if markers that
end a block make a template of it when they follow, and that their number is then that of the blocks
still open.
-/

namespace Stencil.Markup

/-! ## The depth of lexemes -/

/-- By how much the depth changes at the first of some lexemes. -/
def change : List Lexeme → Int
  | .opening .block :: .word first :: _ =>
    if first ∈ ["if", "insert", "block"] then 1 else if first = "endblock" then -1 else 0
  | _ => 0

/-- The number of blocks that lexemes open and do not end. -/
def depth : List Lexeme → Int
  | [] => 0
  | lexeme :: later => change (lexeme :: later) + depth later

/-- Text does not change the depth. -/
theorem depth_content (text : String) (s : List Lexeme) :
    depth (.content text :: s) = depth s := by
  rw [depth, change, Int.zero_add]
  rintro first later ⟨⟩

theorem depth_closing (delimiter : Delimiter) (s : List Lexeme) :
    depth (.closing delimiter :: s) = depth s := by
  rw [depth, change, Int.zero_add]
  rintro first later ⟨⟩

/-- Words by themselves do not change the depth. -/
theorem depth_words (words : List String) (s : List Lexeme) :
    depth (words.map .word ++ s) = depth s := by
  induction words with
  | nil => rfl
  | cons word words ih =>
    rw [List.map_cons, List.cons_append, depth, change, Int.zero_add, ih]
    rintro first later ⟨⟩

/-- The first word of a marker says how the marker changes the depth. -/
theorem depth_marker (delimiter : Delimiter) (first : String) (arguments : List String)
    (s : List Lexeme) :
    depth (marker delimiter (first :: arguments) ++ s)
      = change [.opening delimiter, .word first] + depth s := by
  have hrest : depth ((first :: arguments).map .word ++ (.closing delimiter :: s)) = depth s := by
    rw [depth_words, depth_closing]
  rw [marker, List.cons_append, depth, List.append_assoc]
  exact congrArg₂ _ (by cases delimiter <;> rfl) hrest

/-- What follows the first lexeme matters to the depth only by the word that it starts with. -/
theorem change_append (lexeme : Lexeme) (s : List Lexeme) {t : List Lexeme}
    (ht : ∀ word later, t ≠ .word word :: later) :
    change (lexeme :: (s ++ t)) = change (lexeme :: s) := by
  match lexeme, s, t with
  | .opening .block, [], [] => rfl
  | .opening .block, [], .word word :: later => exact absurd rfl (ht word later)
  | .opening .block, [], .opening _ :: _ | .opening .block, [], .closing _ :: _
  | .opening .block, [], .content _ :: _ | .opening .block, [], .vacant :: _ => rfl
  | .opening .block, next :: s, t => cases next <;> rfl
  | .opening .expression, _, _ | .closing _, _, _ | .word _, _, _ | .content _, _, _
  | .vacant, _, _ => rfl

/-- Depths add up where the second part does not go on with a marker of the first. -/
theorem depth_append (s : List Lexeme) {t : List Lexeme}
    (ht : ∀ word later, t ≠ .word word :: later) : depth (s ++ t) = depth s + depth t := by
  induction s with
  | nil => exact (Int.zero_add _).symm
  | cons lexeme s ih => rw [List.cons_append, depth, depth, ih, change_append lexeme s ht,
      Int.add_assoc]

/-- A derivation ends every block that it opens. -/
theorem Derivation.depth_lexemes (d : Derivation) (s : List Lexeme) :
    depth (d.lexemes ++ s) = depth s := by
  have hif : change [.opening .block, .word "if"] = 1 := rfl
  have helse : change [.opening .block, .word "else"] = 0 := rfl
  have hendblock : change [.opening .block, .word "endblock"] = -1 := rfl
  induction d generalizing s with
  | nil => rfl
  | content text rest ih => rw [lexemes, List.cons_append, depth_content, ih]
  | output first arguments hfirst rest ih =>
    rw [lexemes, List.append_assoc, depth_marker, ih]
    exact Int.zero_add _
  | parent delimiter argument reference hspells rest ih =>
    rw [lexemes, List.append_assoc, depth_marker, ih]
    cases delimiter <;> exact Int.zero_add _
  | conditional condition hcondition body rest ihbody ih =>
    simp only [lexemes, List.append_assoc, depth_marker, ihbody, ih, hif, hendblock]
    omega
  | alternative condition hcondition body otherwise rest ihbody ihotherwise ih =>
    simp only [lexemes, List.append_assoc, depth_marker, ihbody, ihotherwise, ih, hif, helse,
      hendblock]
    omega
  | region keyword hkeyword argument name hspells body rest ihbody ih =>
    have hregion : change [.opening .block, .word keyword] = 1 := by
      obtain rfl | rfl := hkeyword
      all_goals rfl
    simp only [lexemes, List.append_assoc, depth_marker, ihbody, ih, hregion, hendblock]
    omega

/-- What makes a template ends every block that it opens. -/
theorem depth_of_build {tokens : List Token} {root : Node} (h : build tokens = .ok root) :
    depth (tokens.map (·.lexeme)) = 0 := by
  obtain ⟨d, hd, -⟩ := build_eq_ok_iff.1 h
  have hdepth := d.depth_lexemes []
  rw [List.append_nil, hd] at hdepth
  exact hdepth

/-! ## Markers that end blocks -/

/-- The tokens of an `endblock` marker on each of some lines. -/
def endblocks (lines : List Nat) : List Token :=
  lines.flatMap fun line =>
    [⟨.opening .block, line⟩, ⟨.word "endblock", line⟩, ⟨.closing .block, line⟩]

/-- An `endblock` marker on each of the lines, behind the tokens, makes a template of them. -/
def Completes (tokens : List Token) (lines : List Nat) : Prop :=
  ∃ root, build (tokens ++ endblocks lines) = .ok root

/-- The tokens that end blocks are as many markers, whatever their lines. -/
theorem lexemes_endblocks (lines : List Nat) :
    (endblocks lines).map (·.lexeme)
      = (List.replicate lines.length (marker .block ["endblock"])).flatten := by
  induction lines with
  | nil => rfl
  | cons line lines ih =>
    rw [List.length_cons, List.replicate_succ, List.flatten_cons, ← ih]
    rfl

/-- Each of them lowers the depth by one. -/
theorem depth_endblocks (k : Nat) :
    depth (List.replicate k (marker .block ["endblock"])).flatten = -k := by
  have hendblock : change [.opening .block, .word "endblock"] = -1 := rfl
  induction k with
  | zero => rfl
  | succ k ih =>
    rw [List.replicate_succ, List.flatten_cons, depth_marker, ih, hendblock]
    omega

/-- Tokens are completed by as many markers as they have blocks open. -/
theorem Completes.depth_eq {tokens : List Token} {lines : List Nat} (h : Completes tokens lines) :
    depth (tokens.map (·.lexeme)) = lines.length := by
  obtain ⟨root, hroot⟩ := h
  have hdepth := depth_of_build hroot
  rw [List.map_append, lexemes_endblocks, depth_append, depth_endblocks] at hdepth
  · omega
  · intro word later
    cases lines.length with
    | zero => rintro ⟨⟩
    | succ k => rintro ⟨⟩

/-- On which lines the markers stand does not matter. -/
theorem Completes.congr {tokens : List Token} {lines lines' : List Nat} (h : Completes tokens lines)
    (hlength : lines'.length = lines.length) : Completes tokens lines' := by
  obtain ⟨root, hroot⟩ := h
  obtain ⟨d, hd, hnodes⟩ := build_eq_ok_iff.1 hroot
  refine ⟨root, build_eq_ok_iff.2 ⟨d, ?_, hnodes⟩⟩
  rw [hd, List.map_append, List.map_append, lexemes_endblocks, lexemes_endblocks, hlength]

namespace Builder

variable {b : Builder}

/-- Between markers, as many `endblock` markers as there are open blocks close them all. -/
theorem exists_closed (h : b.Between) :
    ∃ b' : Builder, b'.Between ∧ b'.outer = [] ∧
      Takes (List.replicate b.outer.length (Markup.marker .block ["endblock"])).flatten b b' := by
  generalize houter : b.outer = outer
  induction outer generalizing b with
  | nil => exact ⟨b, h, houter, takes_nil b⟩
  | cons frame outer ih =>
    obtain ⟨b', hbetween, hnone, htakes⟩ :=
      @ih (b.leave frame.before (frame.complete b.nodes.reverse) outer) h rfl
    exact ⟨b', hbetween, hnone, (takes_endblock h houter).append htakes⟩

/-- Inside a block, a template cannot end between markers. -/
theorem finish_of_open (h : b.Between) {frame : Frame} {outer : List Frame}
    (houter : b.outer = frame :: outer) :
    b.finish = .error ⟨b.line, .unexpectedEndOf (some frame.needs)⟩ := by
  obtain ⟨line, _, nodes, _⟩ := b
  cases h
  cases houter
  cases frame
  all_goals rfl

end Builder

/-- What has been read of a source is completed by as many markers as the builder has blocks
open. -/
theorem completes_of_outer {tokens : List Token} {b : Builder}
    (hread : tokens.foldlM Builder.step {} = .ok b) (hbetween : b.Between) {lines : List Nat}
    (hlength : lines.length = b.outer.length) : Completes tokens lines := by
  obtain ⟨b', hbetween', hnone, htakes⟩ := Builder.exists_closed hbetween
  have hlexemes := lexemes_endblocks lines
  rw [hlength] at hlexemes
  obtain ⟨line, hclosed⟩ := htakes (endblocks lines) b.line hlexemes
  refine ⟨.template b'.nodes.reverse, bind_eq_ok.2 ⟨b'.atLine line, ?_, ?_⟩⟩
  · rw [Builder.foldlM_append, hread]
    exact hclosed
  · obtain ⟨_, _, nodes, outer⟩ := b'
    cases hbetween'
    cases hnone
    rfl

/-! ## Sources that end too early -/

/-- What completes a source finds as many blocks open as it has markers. -/
theorem read_of_completes {source : String} {lines : List Nat}
    (h : Completes (tokenize source) lines) :
    ∃ b, (tokenize source).foldlM Builder.step {} = .ok b ∧ b.Between ∧
      b.outer.length = lines.length := by
  obtain ⟨root, hroot⟩ := h
  obtain ⟨last, hlast, -⟩ := bind_eq_ok.1 hroot
  rw [Builder.foldlM_append] at hlast
  obtain ⟨b, hread, -⟩ := bind_eq_ok.1 hlast
  have hyields := Builder.yields_foldlM (b := {}) (composed_scan 1 source.toList) rfl
  have hbetween : b.Between := (hyields.of_ok hread).1
  have hopen : Completes (tokenize source) (List.replicate b.outer.length 1) :=
    completes_of_outer hread hbetween List.length_replicate
  have hdepth := hopen.depth_eq
  rw [Completes.depth_eq ⟨root, hroot⟩, List.length_replicate] at hdepth
  exact ⟨b, hread, hbetween, (Int.ofNat.inj hdepth).symm⟩

/-- A source ends too early where a block is open. -/
theorem exists_unexpectedEnd_iff {source : String} :
    (∃ line expectation, build (tokenize source) = .error ⟨line, .unexpectedEnd expectation⟩) ↔
      ∃ b, (tokenize source).foldlM Builder.step {} = .ok b ∧ b.Between ∧ b.outer ≠ [] := by
  have hyields := Builder.yields_foldlM (b := {}) (composed_scan 1 source.toList) rfl
  constructor
  · rintro ⟨line, expectation, h⟩
    obtain hread | ⟨b, hread, hfinish⟩ := bind_eq_error.1 h
    · cases hyields.of_error hread
    · have hbetween := (hyields.of_ok hread).1
      obtain ⟨frame, outer, houter, -⟩ := Builder.open_of_finish hbetween hfinish
      refine ⟨b, hread, hbetween, ?_⟩
      rw [houter]
      rintro ⟨⟩
  · rintro ⟨b, hread, hbetween, hne⟩
    obtain ⟨frame, outer, houter⟩ := List.exists_cons_of_ne_nil hne
    exact ⟨b.line, _, bind_eq_error.2 (.inr ⟨b, hread, Builder.finish_of_open hbetween houter⟩)⟩

/-- A source ends too early exactly if one or more `endblock` markers behind it make a template of
it. On which lines these stand does not matter and no other number of them will do: it is the number
of blocks that the source opens and does not end, and those are the ones that the builder has open
at its end. -/
theorem unexpectedEnd_iff_completes (source : String) :
    ((∃ line expectation, build (tokenize source) = .error ⟨line, .unexpectedEnd expectation⟩) ↔
      ∃ lines, 1 ≤ lines.length ∧ Completes (tokenize source) lines) ∧
    ∀ lines, Completes (tokenize source) lines →
      (∀ lines', Completes (tokenize source) lines' ↔ lines'.length = lines.length) ∧
      depth ((tokenize source).map (·.lexeme)) = lines.length ∧
      ∃ b, (tokenize source).foldlM Builder.step {} = .ok b ∧ b.outer.length = lines.length := by
  constructor
  · rw [exists_unexpectedEnd_iff]
    constructor
    · rintro ⟨b, hread, hbetween, hne⟩
      refine ⟨List.replicate b.outer.length 1, ?_, ?_⟩
      · rw [List.length_replicate]
        exact List.length_pos_iff.2 hne
      · exact completes_of_outer hread hbetween List.length_replicate
    · rintro ⟨lines, hsome, hcompletes⟩
      obtain ⟨b, hread, hbetween, hlength⟩ := read_of_completes hcompletes
      refine ⟨b, hread, hbetween, List.length_pos_iff.1 ?_⟩
      omega
  · intro lines hcompletes
    obtain ⟨b, hread, -, hlength⟩ := read_of_completes hcompletes
    -- The depth tells how many markers are needed, whatever their lines.
    refine ⟨fun lines' => ⟨fun hcompletes' => ?_, hcompletes.congr⟩, hcompletes.depth_eq, b, hread,
      hlength⟩
    have hdepth := hcompletes'.depth_eq
    rw [hcompletes.depth_eq] at hdepth
    exact (Int.ofNat.inj hdepth).symm

/-- Behind the `else` of a conditional and inside a region, two markers are missing. -/
theorem completes_else_and_region :
    (∃ root, build (tokenize "{% if a %}b{% else %}{% insert c %}d" ++
        endblocks [1, 1]) = .ok root) ∧
      (∃ line expectation, build (tokenize "{% if a %}b{% else %}{% insert c %}d")
        = .error ⟨line, .unexpectedEnd expectation⟩) ∧
      ¬ Completes (tokenize "{% if a %}b{% else %}{% insert c %}d") [1] := by
  have hcompletes : Completes
      (tokenize "{% if a %}b{% else %}{% insert c %}d") [1, 1] :=
    ⟨_, by with_unfolding_all rfl⟩
  have hiff := unexpectedEnd_iff_completes
    "{% if a %}b{% else %}{% insert c %}d"
  refine ⟨hcompletes, hiff.1.2 ⟨[1, 1], by decide, hcompletes⟩, fun h => ?_⟩
  exact absurd (((hiff.2 _ hcompletes).1 [1]).1 h) (by decide)

end Stencil.Markup
