import Stencil.Markup.Scan

/-!
# Readings of a source

A reading takes a source apart: runs of text and complete markers by turns, the text behind the last
marker, and what is left from a delimiter on that opens a marker and is never closed. `Reads` says
which readings are right, by first occurrences of delimiters and not by a way of finding them.

Main statement: `tokenize_reads`, that a source has exactly one right reading, which spells the
source again, and that its tokens are those of the reading.
-/

namespace Stencil.Markup

/-! ## First occurrences -/

/-- A marker opens at the start of a text. -/
def Opens (s : List Char) : Prop := ∃ delimiter : Delimiter, delimiter.opening <+: s

/-- A marker of a kind closes at the start of a text. -/
def Closes (delimiter : Delimiter) (s : List Char) : Prop := delimiter.closing <+: s

/-- In front of `rest`, the text `t` holds no place where a mark starts. The mark may reach into
`rest`. -/
def Free (mark : List Char → Prop) (t rest : List Char) : Prop :=
  ∀ before behind, t = before ++ behind → behind ≠ [] → ¬ mark (behind ++ rest)

theorem free_nil (mark : List Char → Prop) (rest : List Char) : Free mark [] rest := by
  intro before behind heq hne
  exact absurd (List.append_eq_nil_iff.1 heq.symm).2 hne

/-- A text is free of marks if none starts with it and the rest is free of them. -/
theorem free_cons {mark : List Char → Prop} {c : Char} {t rest : List Char} :
    Free mark (c :: t) rest ↔ ¬ mark (c :: t ++ rest) ∧ Free mark t rest := by
  constructor
  · intro h
    refine ⟨h [] (c :: t) rfl (by simp), ?_⟩
    intro before behind heq hne
    exact h (c :: before) behind (by rw [heq]; rfl) hne
  · rintro ⟨hfirst, hrest⟩ before behind heq hne
    cases before with
    | nil =>
      rw [List.nil_append] at heq
      exact heq ▸ hfirst
    | cons d before =>
      rw [List.cons_append, List.cons.injEq] at heq
      exact hrest before behind heq.2 hne

/-- A text is cut in one way only at the first place where a mark starts. -/
theorem Free.unique {mark : List Char → Prop} {t t' rest rest' : List Char}
    (h : t ++ rest = t' ++ rest') (ht : Free mark t rest) (ht' : Free mark t' rest')
    (hrest : mark rest) (hrest' : mark rest') : t = t' ∧ rest = rest' := by
  induction t generalizing t' with
  | nil =>
    cases t' with
    | nil => exact ⟨rfl, h⟩
    | cons d t' =>
      rw [List.nil_append] at h
      exact absurd (h ▸ hrest) (free_cons.1 ht').1
  | cons c t ih =>
    cases t' with
    | nil =>
      rw [List.nil_append] at h
      exact absurd (h ▸ hrest') (free_cons.1 ht).1
    | cons d t' =>
      rw [List.cons_append, List.cons_append, List.cons.injEq] at h
      obtain ⟨rfl, h⟩ := h
      obtain ⟨rfl, hrest⟩ := ih h (free_cons.1 ht).2 (free_cons.1 ht').2
      exact ⟨rfl, hrest⟩

/-- Where no mark starts in the whole of a text, none starts at a place in it. -/
theorem Free.not_mark {mark : List Char → Prop} {t rest : List Char}
    (h : Free mark (t ++ rest) []) (hne : rest ≠ []) : ¬ mark rest := by
  have := h t rest rfl hne
  rwa [List.append_nil] at this

/-! ## The cuts of the reader -/

theorem opens_opening (delimiter : Delimiter) (rest : List Char) :
    Opens (delimiter.opening ++ rest) := ⟨delimiter, List.prefix_append _ _⟩

theorem closes_closing (delimiter : Delimiter) (rest : List Char) :
    Closes delimiter (delimiter.closing ++ rest) := List.prefix_append _ _

/-- Where no delimiter is found, no marker opens. -/
theorem not_opens {s : List Char} (h : opens? s = none) : ¬ Opens s := by
  rintro ⟨delimiter, rest, hs⟩
  rw [opens?_eq_some.2 hs.symm] at h
  cases h

/-- Where the delimiter is not found, the marker goes on. -/
theorem not_closes {delimiter : Delimiter} {s : List Char} (h : closes? delimiter s = none) :
    ¬ Closes delimiter s := by
  rintro ⟨rest, hs⟩
  rw [closes?_eq_some.2 hs.symm] at h
  cases h

/-- Before the opening delimiter that is found no other one opens. -/
theorem free_of_untilOpening {s text rest : List Char} {delimiter : Delimiter}
    (h : untilOpening s = (text, some (delimiter, rest))) :
    Free Opens text (delimiter.opening ++ rest) := by
  induction s generalizing text with
  | nil => cases h
  | cons c s ih =>
    unfold untilOpening at h
    split at h
    · cases h
      exact free_nil _ _
    · rename_i hnone
      obtain ⟨htext, hfound⟩ := Prod.mk.inj h
      have hcut : untilOpening s = ((untilOpening s).1, some (delimiter, rest)) :=
        Prod.ext rfl hfound
      subst htext
      refine free_cons.2 ⟨?_, ih hcut⟩
      rw [List.cons_append, ← List.append_assoc, ← eq_of_untilOpening hcut]
      exact not_opens hnone

/-- Where no opening delimiter is found, none is there. -/
theorem free_of_untilOpening_none {s text : List Char} (h : untilOpening s = (text, none)) :
    Free Opens text [] := by
  induction s generalizing text with
  | nil =>
    cases h
    exact free_nil _ _
  | cons c s ih =>
    unfold untilOpening at h
    split at h
    · cases h
    · rename_i hnone
      obtain ⟨htext, hfound⟩ := Prod.mk.inj h
      have hcut : untilOpening s = ((untilOpening s).1, none) := Prod.ext rfl hfound
      subst htext
      refine free_cons.2 ⟨?_, ih hcut⟩
      rw [List.append_nil, eq_of_untilOpening_none hcut]
      exact not_opens hnone

/-- Before the closing delimiter that is found the marker is not closed. -/
theorem free_of_untilClosing {delimiter : Delimiter} {s interior rest : List Char}
    (h : untilClosing delimiter s = some (interior, rest)) :
    Free (Closes delimiter) interior (delimiter.closing ++ rest) := by
  induction s generalizing interior with
  | nil => cases h
  | cons c s ih =>
    unfold untilClosing at h
    split at h
    · cases h
      exact free_nil _ _
    · rename_i hnone
      obtain ⟨⟨inner, after⟩, hcut, heq⟩ := Option.map_eq_some_iff.1 h
      cases heq
      refine free_cons.2 ⟨?_, ih hcut⟩
      rw [List.cons_append, ← List.append_assoc, ← eq_of_untilClosing hcut]
      exact not_closes hnone

/-- Where no closing delimiter is found, none is there. -/
theorem not_infix_of_untilClosing {delimiter : Delimiter} {s : List Char}
    (h : untilClosing delimiter s = none) : ¬ delimiter.closing <:+: s := by
  induction s with
  | nil => simp [Delimiter.closing]
  | cons c s ih =>
    unfold untilClosing at h
    split at h
    · cases h
    · rename_i hnone
      rw [List.infix_cons_iff]
      rintro (hfirst | hinfix)
      · exact not_closes hnone hfirst
      · exact ih (Option.map_eq_none_iff.1 h) hinfix

/-! ## Readings -/

/-- A run of text or a complete marker. -/
inductive Piece where
  | run (text : List Char)
  | marker (delimiter : Delimiter) (interior : List Char)

/-- How a piece is written. -/
def Piece.written : Piece → List Char
  | .run text => text
  | .marker delimiter interior => delimiter.opening ++ (interior ++ delimiter.closing)

/-- The lexemes of a piece: a run as it stands, and a marker as its words between delimiters. -/
def Piece.lexemes : Piece → List Lexeme
  | .run text => [.content (String.ofList text)]
  | .marker delimiter interior =>
    .opening delimiter ::
      (Text.words interior).map (fun word => .word (String.ofList word)) ++ [.closing delimiter]

/-- The piece of a run of text, if it is not empty. -/
def runs (text : List Char) : List Piece := if text = [] then [] else [.run text]

/-- A complete marker and the text before it. -/
structure Passage where
  text : List Char
  delimiter : Delimiter
  interior : List Char

/-- A source taken apart. -/
structure Reading where
  passages : List Passage
  /-- The text behind the last marker. -/
  text : List Char
  /-- What follows from an opening delimiter on that has no closing one. -/
  unclosed : List Char

/-- The pieces of a reading in their order. -/
def Reading.pieces (r : Reading) : List Piece :=
  r.passages.flatMap (fun p => runs p.text ++ [.marker p.delimiter p.interior]) ++
    (runs r.text ++ runs r.unclosed)

/-- Nothing, or a delimiter that opens a marker and all behind it, where its closing one never
occurs. -/
def NeverClosed (s : List Char) : Prop :=
  s = [] ∨ ∃ (delimiter : Delimiter) (rest : List Char),
    s = delimiter.opening ++ rest ∧ ¬ delimiter.closing <:+: rest

/-- The right readings of a source: each text goes to the first opening delimiter, each inside of a
marker to the first closing delimiter of its kind, and what is unclosed is never closed. -/
inductive Reads : Reading → List Char → Prop
  | last {text unclosed : List Char} (htext : Free Opens text unclosed)
    (hunclosed : NeverClosed unclosed) : Reads ⟨[], text, unclosed⟩ (text ++ unclosed)
  | passage {text interior last unclosed rest : List Char} {delimiter : Delimiter}
    {passages : List Passage}
    (htext : Free Opens text (delimiter.opening ++ (interior ++ (delimiter.closing ++ rest))))
    (hinterior : Free (Closes delimiter) interior (delimiter.closing ++ rest))
    (hrest : Reads ⟨passages, last, unclosed⟩ rest) :
    Reads ⟨⟨text, delimiter, interior⟩ :: passages, last, unclosed⟩
      (text ++ (delimiter.opening ++ (interior ++ (delimiter.closing ++ rest))))

/-- A run of text spells the text. -/
theorem written_runs (text : List Char) : (runs text).flatMap Piece.written = text := by
  unfold runs
  split
  · rename_i h
    exact h.symm
  · exact List.append_nil text

/-- The pieces of a right reading spell the source. -/
theorem Reads.written {r : Reading} {s : List Char} (h : Reads r s) :
    r.pieces.flatMap Piece.written = s := by
  induction h with
  | last => simp [Reading.pieces, written_runs]
  | passage _ _ _ ih =>
    rw [← ih]
    simp [Reading.pieces, written_runs, Piece.written]

/-- A text opens with one delimiter at most. -/
theorem opening_append_inj {delimiter delimiter' : Delimiter} {rest rest' : List Char}
    (h : delimiter.opening ++ rest = delimiter'.opening ++ rest') :
    delimiter = delimiter' ∧ rest = rest' := by
  have hopens := opens?_eq_some.2 h
  rw [opens?_eq_some.2 rfl, Option.some.injEq, Prod.mk.injEq] at hopens
  exact hopens

/-- The text behind the last marker is not followed by another one. -/
theorem Reads.last_ne_passage {text unclosed text' interior rest : List Char}
    {delimiter : Delimiter} (htext : Free Opens text unclosed) (hunclosed : NeverClosed unclosed)
    (htext' : Free Opens text' (delimiter.opening ++ (interior ++ (delimiter.closing ++ rest)))) :
    text ++ unclosed ≠
      text' ++ (delimiter.opening ++ (interior ++ (delimiter.closing ++ rest))) := by
  intro h
  rcases hunclosed with rfl | ⟨delimiter', rest', rfl, hnever⟩
  · rw [List.append_nil] at h
    subst h
    exact htext.not_mark (by simp [Delimiter.opening]) (opens_opening _ _)
  · obtain ⟨-, hrest⟩ := Free.unique h htext htext' (opens_opening _ _) (opens_opening _ _)
    obtain ⟨rfl, rfl⟩ := opening_append_inj hrest
    exact hnever ⟨interior, rest, by simp⟩

/-- A source has at most one right reading. -/
theorem Reads.unique {r r' : Reading} {s s' : List Char} (h : Reads r s) (h' : Reads r' s')
    (hs : s = s') : r = r' := by
  induction h generalizing r' s' with
  | last htext hunclosed =>
    cases h' with
    | last htext' hunclosed' =>
      rcases hunclosed with rfl | ⟨delimiter, rest, rfl, -⟩
      · -- a text that goes to the end holds no delimiter, so the other one goes there as well
        rcases hunclosed' with rfl | ⟨delimiter, rest, rfl, -⟩
        · rw [List.append_nil, List.append_nil] at hs
          rw [hs]
        · rw [List.append_nil] at hs
          subst hs
          exact absurd (opens_opening _ _) (htext.not_mark (by simp [Delimiter.opening]))
      · rcases hunclosed' with rfl | ⟨delimiter', rest', rfl, -⟩
        · rw [List.append_nil] at hs
          subst hs
          exact absurd (opens_opening _ _) (htext'.not_mark (by simp [Delimiter.opening]))
        · obtain ⟨htexts, hunclosed⟩ :=
            Free.unique hs htext htext' (opens_opening _ _) (opens_opening _ _)
          rw [htexts, hunclosed]
    | passage htext' => exact absurd hs (Reads.last_ne_passage htext hunclosed htext')
  | passage htext hinterior _ ih =>
    cases h' with
    | last htext' hunclosed' => exact absurd hs.symm (Reads.last_ne_passage htext' hunclosed' htext)
    | passage htext' hinterior' hrest' =>
      -- both texts go to the first opening delimiter, and both insides to the first closing one
      obtain ⟨rfl, hmarker⟩ :=
        Free.unique hs htext htext' (opens_opening _ _) (opens_opening _ _)
      obtain ⟨rfl, hinside⟩ := opening_append_inj hmarker
      obtain ⟨rfl, hbehind⟩ :=
        Free.unique hinside hinterior hinterior' (closes_closing _ _) (closes_closing _ _)
      cases ih hrest' (List.append_cancel_left hbehind)
      rfl

/-! ## The tokens of a source -/

/-- The tokens of pieces of which the first starts on line `line`. Those of a piece stand on the
line on which it starts. -/
def tokensFrom (line : Nat) : List Piece → List Token
  | [] => []
  | piece :: pieces =>
    piece.lexemes.map (fun lexeme => ⟨lexeme, line⟩) ++
      tokensFrom (line + lineBreaks piece.written) pieces

/-- The pieces behind others start on the line where these end. -/
theorem tokensFrom_append (line : Nat) (pieces later : List Piece) :
    tokensFrom line (pieces ++ later) = tokensFrom line pieces ++
      tokensFrom (line + lineBreaks (pieces.flatMap Piece.written)) later := by
  induction pieces generalizing line with
  | nil => rfl
  | cons piece pieces ih =>
    rw [List.cons_append, tokensFrom, tokensFrom, ih, List.append_assoc, List.flatMap_cons,
      lineBreaks_append, Nat.add_assoc]

/-- A run of text makes one token, or none if it is empty. -/
theorem tokensFrom_runs (line : Nat) (text : List Char) :
    tokensFrom line (runs text) = contentToken line text := by
  unfold runs contentToken
  split <;> rfl

theorem tokensFrom_marker (line : Nat) (delimiter : Delimiter) (interior : List Char) :
    tokensFrom line [.marker delimiter interior] = markerTokens line delimiter interior := by
  simp [tokensFrom, Piece.lexemes, markerTokens]

/-- The pieces of a marker and the text before it. -/
def Passage.pieces (p : Passage) : List Piece := runs p.text ++ [.marker p.delimiter p.interior]

/-- The pieces of a reading are those of its passages in turn. -/
theorem Reading.pieces_cons (passage : Passage) (passages : List Passage)
    (text unclosed : List Char) :
    (⟨passage :: passages, text, unclosed⟩ : Reading).pieces =
      passage.pieces ++ (⟨passages, text, unclosed⟩ : Reading).pieces := by
  simp [Reading.pieces, Passage.pieces]

/-- The line breaks of a passage are those of its text and those inside its marker. -/
theorem lineBreaks_pieces (passage : Passage) :
    lineBreaks (passage.pieces.flatMap Piece.written) =
      lineBreaks passage.text + lineBreaks passage.interior := by
  simp [Passage.pieces, written_runs, Piece.written]

/-- A passage makes the tokens of its text and of its marker. -/
theorem tokensFrom_passage (line : Nat) (passage : Passage) :
    tokensFrom line passage.pieces = contentToken line passage.text ++
      markerTokens (line + lineBreaks passage.text) passage.delimiter passage.interior := by
  rw [Passage.pieces, tokensFrom_append, tokensFrom_runs, written_runs, tokensFrom_marker]

/-- The lexemes of the tokens of pieces are those of the pieces. -/
theorem lexeme_tokensFrom (line : Nat) (pieces : List Piece) :
    (tokensFrom line pieces).map (·.lexeme) = pieces.flatMap Piece.lexemes := by
  induction pieces generalizing line with
  | nil => rfl
  | cons piece pieces ih =>
    rw [tokensFrom, List.map_append, ih, List.flatMap_cons, List.map_map]
    exact congrArg (· ++ _) (List.map_id _)

/-- A source in which nothing opens is read as text. -/
theorem Reads.of_untilOpening_none {s text : List Char} (h : untilOpening s = (text, none)) :
    Reads ⟨[], text, []⟩ s := by
  have hreads := Reads.last (free_of_untilOpening_none h) (.inl rfl)
  rw [List.append_nil] at hreads
  rwa [← eq_of_untilOpening_none h]

/-- A source is read by its first two cuts, and then as what is behind them. -/
theorem Reads.of_cuts {s text rest interior after last unclosed : List Char}
    {delimiter : Delimiter} {passages : List Passage}
    (hopening : untilOpening s = (text, some (delimiter, rest)))
    (hclosing : untilClosing delimiter rest = some (interior, after))
    (hafter : Reads ⟨passages, last, unclosed⟩ after) :
    Reads ⟨⟨text, delimiter, interior⟩ :: passages, last, unclosed⟩ s := by
  have hrest : rest = interior ++ (delimiter.closing ++ after) := by
    rw [eq_of_untilClosing hclosing, List.append_assoc]
  have hfree := free_of_untilOpening hopening
  rw [hrest] at hfree
  have hreads := Reads.passage hfree (free_of_untilClosing hclosing) hafter
  rwa [← hrest, ← List.append_assoc, ← eq_of_untilOpening hopening] at hreads

/-- The tokens of a source are those of a right reading, each on its line. -/
theorem scan_eq_tokensFrom (line : Nat) (s : List Char) :
    ∃ r, Reads r s ∧ scan line s = tokensFrom line r.pieces := by
  fun_induction scan line s with
  | case1 line s text hs =>
    refine ⟨_, .of_untilOpening_none hs, ?_⟩
    rw [← tokensFrom_runs]
    simp [Reading.pieces, runs]
  | case2 line s text delimiter rest hs markerLine hr =>
    have hnever : NeverClosed (delimiter.opening ++ rest) :=
      .inr ⟨delimiter, rest, rfl, not_infix_of_untilClosing hr⟩
    have hreads := Reads.last (free_of_untilOpening hs) hnever
    rw [← List.append_assoc, ← eq_of_untilOpening hs] at hreads
    refine ⟨_, hreads, ?_⟩
    rw [← tokensFrom_runs, ← tokensFrom_runs]
    simp [Reading.pieces, tokensFrom_append, written_runs, markerLine]
  | case3 line s text delimiter rest hs markerLine interior after hr ih =>
    obtain ⟨⟨passages, last, unclosed⟩, hafter, htokens⟩ := ih
    refine ⟨_, .of_cuts hs hr hafter, ?_⟩
    rw [htokens, Reading.pieces_cons, tokensFrom_append, tokensFrom_passage, lineBreaks_pieces,
      ← Nat.add_assoc]

/-- The lexemes of a source are those of a right reading. -/
theorem scan_reads (line : Nat) (s : List Char) :
    ∃ r, Reads r s ∧ (scan line s).map (·.lexeme) = r.pieces.flatMap Piece.lexemes := by
  obtain ⟨r, hreads, htokens⟩ := scan_eq_tokensFrom line s
  refine ⟨r, hreads, ?_⟩
  rw [htokens, lexeme_tokensFrom]

/-- No piece has a lexeme that fills no place. -/
theorem vacant_not_mem_lexemes (piece : Piece) : Lexeme.vacant ∉ piece.lexemes := by
  cases piece with
  | run text => simp [Piece.lexemes]
  | marker delimiter interior => simp [Piece.lexemes]

/-- A source has exactly one right reading. Its pieces spell the source and its lexemes are those of
the tokens of the source, in order; none of them is vacant. -/
theorem tokenize_reads (source : String) :
    ∃ r, (∀ r', Reads r' source.toList ↔ r' = r) ∧
      r.pieces.flatMap Piece.written = source.toList ∧
      (tokenize source).map (·.lexeme) = r.pieces.flatMap Piece.lexemes ∧
      ∀ token ∈ tokenize source, token.lexeme ≠ .vacant := by
  obtain ⟨r, hreads, hlexemes⟩ := scan_reads 1 source.toList
  refine ⟨r, ?_, hreads.written, hlexemes, ?_⟩
  · intro r'
    constructor
    · exact fun h => h.unique hreads rfl
    · rintro rfl
      exact hreads
  · intro token htoken hvacant
    have hmem : Lexeme.vacant ∈ r.pieces.flatMap Piece.lexemes := by
      rw [← hlexemes, ← hvacant]
      exact List.mem_map_of_mem htoken
    obtain ⟨piece, -, hpiece⟩ := List.mem_flatMap.1 hmem
    exact vacant_not_mem_lexemes piece hpiece

end Stencil.Markup
