import Stencil.Proofs.Finality

/-!
# Lines

Tokens and errors carry lines, and this module says where these are in the source. A token stands on
the line on which its run of text or its marker starts, counted by the line breaks written before
it. An error of a marker stands on the line on which the marker opens: the passages of a reading are
built one after the other, the first that is refused ends the building, and the passages up to it,
taken as a source of their own, are refused alike (`exists_refused`). A source that only ends too
early has no such passage, and its error carries the line of its last token (`parse_unexpectedEnd`).

Main statement: `lines_of_source`.
-/

namespace Stencil.Markup

/-! ## The lines of tokens -/

/-- The line on which the `n`-th piece of a reading starts: one, and one more for each line break
that is written before it. -/
def Reading.lineAt (r : Reading) (n : Nat) : Nat :=
  1 + lineBreaks ((r.pieces.take n).flatMap Piece.written)

/-- Each piece makes its tokens on the line behind the pieces before it. -/
theorem tokensFrom_eq_flatMap (line : Nat) (pieces : List Piece) :
    tokensFrom line pieces = pieces.zipIdx.flatMap fun (piece, n) =>
      piece.lexemes.map fun lexeme =>
        ⟨lexeme, line + lineBreaks ((pieces.take n).flatMap Piece.written)⟩ := by
  induction pieces generalizing line with
  | nil => rfl
  | cons piece pieces ih =>
    rw [tokensFrom, ih, List.zipIdx_cons', List.flatMap_cons, List.flatMap_map]
    simp [Nat.add_assoc]

/-- The tokens of a source are those of its right reading, from line one on. -/
theorem Reads.tokenize {r : Reading} {s : List Char} (h : Reads r s) :
    Markup.tokenize (String.ofList s) = tokensFrom 1 r.pieces := by
  obtain ⟨r', hreads, htokens⟩ := scan_eq_tokensFrom 1 s
  cases hreads.unique h rfl
  rw [Markup.tokenize, String.toList_ofList, htokens]

/-! ## Passages as a source -/

/-- How a marker and the text before it are written. -/
def Passage.written (p : Passage) : List Char :=
  p.text ++ (p.delimiter.opening ++ (p.interior ++ p.delimiter.closing))

/-- The source of some passages. -/
def sourceOf (passages : List Passage) : String :=
  String.ofList (passages.flatMap Passage.written)

/-- Passages at the start of a right reading are the right reading of their source. -/
theorem Reads.take {r : Reading} {s : List Char} (h : Reads r s) {passages : List Passage}
    (hpassages : passages <+: r.passages) :
    Reads ⟨passages, [], []⟩ (passages.flatMap Passage.written) := by
  induction h generalizing passages with
  | last =>
    rw [List.prefix_nil.1 hpassages]
    exact .last (free_nil _ _) (.inl rfl)
  | passage htext hinterior _ ih =>
    rcases List.prefix_cons_iff.1 hpassages with rfl | ⟨run, rfl, hrun⟩
    · exact .last (free_nil _ _) (.inl rfl)
    · -- the cuts stay where they are, whatever follows the delimiters
      have hreads := Reads.passage (htext.congr ofTwo_opens) (hinterior.congr (ofTwo_closes _))
        (ih hrun)
      simpa [Passage.written] using hreads

/-- The tokens of some passages of which the first starts on line `line`. -/
def passageTokens (line : Nat) (passages : List Passage) : List Token :=
  tokensFrom line (passages.flatMap Passage.pieces)

/-- The first passages of a source are a source with their tokens. -/
theorem Reads.tokenize_sourceOf {r : Reading} {s : List Char} (h : Reads r s)
    {passages : List Passage} (hpassages : passages <+: r.passages) :
    Markup.tokenize (sourceOf passages) = passageTokens 1 passages := by
  rw [sourceOf, (h.take hpassages).tokenize]
  exact congrArg (tokensFrom 1) (List.append_nil _)

/-- The pieces of passages spell what the passages do. -/
theorem flatMap_pieces (passages : List Passage) :
    (passages.flatMap Passage.pieces).flatMap Piece.written =
      passages.flatMap Passage.written := by
  induction passages with
  | nil => rfl
  | cons p passages ih =>
    rw [List.flatMap_cons, List.flatMap_append, ih, List.flatMap_cons]
    simp [Passage.pieces, Passage.written, written_runs, Piece.written]

/-- The passages behind others start on the line where these end. -/
theorem passageTokens_append (line : Nat) (passages later : List Passage) :
    passageTokens line (passages ++ later) = passageTokens line passages ++
      passageTokens (line + lineBreaks (passages.flatMap Passage.written)) later := by
  rw [passageTokens, List.flatMap_append, tokensFrom_append, flatMap_pieces]
  rfl

theorem passageTokens_singleton (line : Nat) (p : Passage) :
    passageTokens line [p] = contentToken line p.text ++
      markerTokens (line + lineBreaks p.text) p.delimiter p.interior := by
  rw [passageTokens, List.flatMap_singleton, tokensFrom_passage]

/-- The tokens of a source: those of its passages, and then only text. -/
theorem Reads.tokenize_eq_append {r : Reading} {s : List Char} (h : Reads r s) :
    ∃ text, OnlyText text ∧
      Markup.tokenize (String.ofList s) = passageTokens 1 r.passages ++ text := by
  let line := 1 + lineBreaks ((r.passages.flatMap Passage.pieces).flatMap Piece.written)
  refine ⟨tokensFrom line (runs r.text ++ runs r.unclosed), ?_, ?_⟩
  · rw [tokensFrom_append, tokensFrom_runs, tokensFrom_runs]
    exact (onlyText_contentToken _ _).append (onlyText_contentToken _ _)
  · rw [h.tokenize, Reading.pieces, tokensFrom_append]
    rfl

/-! ## The passage that is refused -/

namespace Builder

variable {b : Builder}

/-- A passage leaves the builder between markers, or is refused on the line where its marker
opens. -/
theorem yields_passage (h : b.Between) (line : Nat) (p : Passage) :
    Yields Between (fun e => e.line = line + lineBreaks p.text)
      ((passageTokens line [p]).foldlM step b) := by
  obtain ⟨b', htext, hbetween⟩ :=
    exists_foldlM_of_onlyText (onlyText_contentToken line p.text) h
  rw [passageTokens_singleton, List.foldlM_append, htext, ok_bind, foldlM_markerTokens hbetween]
  exact (yields_wholeMarker _ _ _ _).mono (fun b'' hplace => hplace.between hbetween)
    fun e he => he.2

/-- Where the builder refuses one of some passages, it takes those before it, and the error stands
on the line where the marker of that passage opens. -/
theorem exists_passage_of_error {passages : List Passage} (h : b.Between) {line : Nat} {e : Error}
    (herror : (passageTokens line passages).foldlM step b = .error e) :
    ∃ before passage behind b', passages = before ++ passage :: behind ∧
      (passageTokens line before).foldlM step b = .ok b' ∧
      (passageTokens line (before ++ [passage])).foldlM step b = .error e ∧
      e.line = line + lineBreaks (before.flatMap Passage.written ++ passage.text) := by
  induction passages generalizing b line with
  | nil => cases herror
  | cons p passages ih =>
    -- the first passage is refused, or it is taken and one of those behind it is refused
    have hpassage := yields_passage h line p
    rw [← List.singleton_append, passageTokens_append, List.foldlM_append] at herror
    rcases bind_eq_error.1 herror with hrefused | ⟨b₁, htaken, hlater⟩
    · exact ⟨[], p, passages, b, rfl, rfl, hrefused, hpassage.of_error hrefused⟩
    · obtain ⟨before, passage, behind, b', rfl, hbefore, hrefused, hline⟩ :=
        ih (hpassage.of_ok htaken) hlater
      refine ⟨p :: before, passage, behind, b', rfl, ?_, ?_, ?_⟩
      · rw [← List.singleton_append, passageTokens_append, List.foldlM_append, htaken, ok_bind,
          hbefore]
      · rw [List.cons_append, ← List.singleton_append, passageTokens_append, List.foldlM_append,
          htaken, ok_bind, hrefused]
      · rw [hline, List.flatMap_singleton, List.flatMap_cons, List.append_assoc,
          lineBreaks_append p.written, Nat.add_assoc]

/-- A template that cannot end is refused on the line of its last token. -/
theorem line_of_finish {e : Error} (h : b.finish = .error e) : e.line = b.line := by
  unfold finish at h
  split at h
  · cases h
    rfl
  · cases h

end Builder

/-- Behind the passages `before`, which are not refused in any number, the marker of `passage` is
refused with the error `e`, on the line on which that marker opens. -/
structure Refused (before : List Passage) (passage : Passage) (e : Error) : Prop where
  line : e.line = 1 + lineBreaks (before.flatMap Passage.written ++ passage.text)
  refused : parse (sourceOf (before ++ [passage])) = .error e
  shortest : ∀ run, run <+: before → ∀ e', parse (sourceOf run) = .error e' →
    ∃ expectation, e'.fault = .unexpectedEnd expectation

/-- A source that is refused otherwise than for ending too early has a passage that is refused. -/
theorem exists_refused {s : List Char} {r : Reading} (h : Reads r s) {e : Error}
    (herror : parse (String.ofList s) = .error e)
    (hfault : ∀ expectation, e.fault ≠ .unexpectedEnd expectation) :
    ∃ before passage behind, r.passages = before ++ passage :: behind ∧
      Refused before passage e := by
  obtain ⟨text, htext, htokens⟩ := h.tokenize_eq_append
  have hfront : (passageTokens 1 r.passages).foldlM Builder.step {} = .error e := by
    refine foldlM_eq_error_of_build ?_ htext (htokens ▸ herror) hfault
    rw [← h.tokenize_sourceOf (List.prefix_refl _)]
    exact composed_scan _ _
  obtain ⟨before, passage, behind, b, hpassages, hbefore, hrefused, hline⟩ :=
    Builder.exists_passage_of_error (b := {}) rfl hfront
  refine ⟨before, passage, behind, hpassages, hline, ?_, fun run hrun e' hparse => ?_⟩
  · have hprefix : before ++ [passage] <+: r.passages := ⟨behind, by simp [hpassages]⟩
    rw [parse, build, h.tokenize_sourceOf hprefix, hrefused]
    rfl
  · -- the builder takes `before`, so it takes `run` and can only stop at its end
    obtain ⟨later, rfl⟩ := hrun
    have hprefix : run <+: r.passages := ⟨later ++ passage :: behind, by simp [hpassages]⟩
    rw [passageTokens_append, List.foldlM_append] at hbefore
    obtain ⟨b', htaken, -⟩ := bind_eq_ok.1 hbefore
    rw [parse, build, h.tokenize_sourceOf hprefix, htaken, ok_bind] at hparse
    exact Builder.unexpectedEnd_of_finish hparse

/-- The error of a source that ends too early carries the line of its last token. -/
theorem parse_unexpectedEnd {source : String} {e : Error} (h : parse source = .error e)
    {expectation : String} (hfault : e.fault = .unexpectedEnd expectation) :
    ∃ token, (tokenize source).getLast? = some token ∧ e.line = token.line := by
  have hyields := Builder.yields_foldlM (b := {}) (composed_scan 1 source.toList) rfl
  rcases bind_eq_error.1 h with hrefused | ⟨b, hread, hfinish⟩
  · -- no marker is refused for ending too early
    have hmarker := hyields.of_error hrefused
    rw [hfault] at hmarker
    cases hmarker
  · rw [Builder.line_of_finish hfinish, (hyields.of_ok hread).2]
    cases hlast : (tokenize source).getLast? with
    | none =>
      -- without tokens nothing is open, so the source does not end too early
      rw [List.getLast?_eq_none_iff.1 hlast] at hread
      cases hread
      cases hfinish
    | some token =>
      refine ⟨token, rfl, ?_⟩
      rw [tokenize] at hlast
      rw [Builder.lastLine, hlast]
      rfl

/-- The pieces of the right reading spell the source, and every token stands on the line on which
its piece starts. An error stands on the line on which the first marker that is refused opens,
unless the source only ends too early: then it carries the line of the last token. -/
theorem lines_of_source (source : String) :
    ∃ r, Reads r source.toList ∧ r.pieces.flatMap Piece.written = source.toList ∧
      (tokenize source = r.pieces.zipIdx.flatMap fun (piece, n) =>
        piece.lexemes.map fun lexeme => ⟨lexeme, r.lineAt n⟩) ∧
      ∀ e, parse source = .error e →
        ((∀ expectation, e.fault ≠ .unexpectedEnd expectation) →
          ∃ before passage behind, r.passages = before ++ passage :: behind ∧
            Refused before passage e) ∧
        ∀ expectation, e.fault = .unexpectedEnd expectation →
          ∃ token, (tokenize source).getLast? = some token ∧ e.line = token.line := by
  obtain ⟨r, hreads, htokens⟩ := scan_eq_tokensFrom 1 source.toList
  refine ⟨r, hreads, hreads.written, ?_,
    fun e h => ⟨fun hfault => ?_, fun expectation => parse_unexpectedEnd h⟩⟩
  · rw [tokenize, htokens, tokensFrom_eq_flatMap]
    rfl
  · rw [← String.ofList_toList (s := source)] at h
    exact exists_refused hreads h hfault

/-- An `else` that belongs to nothing is refused on the third line, on which it opens, behind a
marker that ends a line. An `if` that nothing ends is refused on the second line, that of the last
marker. -/
theorem lines_of_else_and_if :
    (parse "a\n\x7b\x7b b\n\x7d\x7d\x7b% else\n%\x7d\nc"
        = .error ⟨3, .unbalanced "else" "has no matching if"⟩ ∧
      ∃ r, Reads r "a\n\x7b\x7b b\n\x7d\x7d\x7b% else\n%\x7d\nc".toList ∧
        ∃ before passage behind, r.passages = before ++ passage :: behind ∧
          Refused before passage ⟨3, .unbalanced "else" "has no matching if"⟩) ∧
    (parse "\x7b% if x %\x7da\n\x7b\x7b b\n\x7d\x7d"
        = .error ⟨2, .unexpectedEndOf (some "\x7b% else %\x7d or \x7b% endblock %\x7d")⟩ ∧
      ∃ token, (tokenize "\x7b% if x %\x7da\n\x7b\x7b b\n\x7d\x7d").getLast? = some token ∧
        2 = token.line) := by
  have helse : parse "a\n\x7b\x7b b\n\x7d\x7d\x7b% else\n%\x7d\nc"
      = .error ⟨3, .unbalanced "else" "has no matching if"⟩ := by with_unfolding_all rfl
  have hif : parse "\x7b% if x %\x7da\n\x7b\x7b b\n\x7d\x7d"
      = .error ⟨2, .unexpectedEndOf (some "\x7b% else %\x7d or \x7b% endblock %\x7d")⟩ := by
    with_unfolding_all rfl
  refine ⟨⟨helse, ?_⟩, hif, ?_⟩
  · obtain ⟨r, hreads, -, -, herrors⟩ :=
      lines_of_source "a\n\x7b\x7b b\n\x7d\x7d\x7b% else\n%\x7d\nc"
    refine ⟨r, hreads, (herrors _ helse).1 ?_⟩
    rintro expectation ⟨⟩
  · obtain ⟨r, -, -, -, herrors⟩ := lines_of_source "\x7b% if x %\x7da\n\x7b\x7b b\n\x7d\x7d"
    exact (herrors _ hif).2 _ rfl

end Stencil.Markup
