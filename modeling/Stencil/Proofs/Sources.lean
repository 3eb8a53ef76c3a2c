import Stencil.Proofs.Building
import Stencil.Proofs.Reading

/-!
# Sources and what they parse to

A source parses to the template that the lexemes of its right reading derive
(`parse_eq_ok_iff`), so what a source parses to is found by reading it and deriving its lexemes.

Main statement: `Reads.append`, that the right reading of two sources one behind the other is made
of their readings. The first must not end inside a marker that is never closed, and no delimiter may
come to be where the two meet.
-/

namespace Stencil.Markup

/-- A source parses to what the lexemes of its right reading derive, and to nothing else. -/
theorem parse_eq_ok_iff {source : String} {r : Reading} (h : Reads r source.toList) {root : Node} :
    parse source = .ok root
      ↔ ∃ d : Derivation,
          d.lexemes = r.pieces.flatMap Piece.lexemes ∧ .template d.nodes = root := by
  obtain ⟨r', hreads, hlexemes⟩ := scan_reads 1 source.toList
  cases hreads.unique h rfl
  rw [← hlexemes]
  exact build_eq_ok_iff

/-! ## Marks of two characters -/

/-- Two characters say whether a mark starts. -/
def OfTwo (mark : List Char → Prop) : Prop :=
  ∀ (c d : Char) (s s' : List Char), mark (c :: d :: s) → mark (c :: d :: s')

/-- Two characters say whether a marker opens. -/
theorem ofTwo_opens : OfTwo Opens := by
  rintro c d s s' ⟨delimiter, rest, hrest⟩
  simp only [Delimiter.opening, List.cons_append, List.nil_append, List.cons.injEq] at hrest
  obtain ⟨rfl, rfl, -⟩ := hrest
  exact opens_opening delimiter s'

/-- Two characters say whether it closes. -/
theorem ofTwo_closes (delimiter : Delimiter) : OfTwo (Closes delimiter) := by
  rintro c d s s' ⟨rest, hrest⟩
  simp only [Delimiter.closing, List.cons_append, List.nil_append, List.cons.injEq] at hrest
  obtain ⟨rfl, rfl, -⟩ := hrest
  exact closes_closing delimiter s'

/-- What comes behind the first character that follows a text starts no mark in it. -/
theorem Free.congr {mark : List Char → Prop} (hmark : OfTwo mark) {t rest rest' : List Char}
    {c : Char} (h : Free mark t (c :: rest)) : Free mark t (c :: rest') := by
  intro before behind heq hne hmarked
  apply h before behind heq hne
  match behind, hne, hmarked with
  | [d], _, hmarked => exact hmark _ _ _ _ hmarked
  | d :: e :: behind, _, hmarked => exact hmark _ _ _ _ hmarked

/-- A text is free of marks where both of its parts are. -/
theorem Free.append {mark : List Char → Prop} {t t' rest : List Char}
    (h : Free mark t (t' ++ rest)) (h' : Free mark t' rest) : Free mark (t ++ t') rest := by
  induction t with
  | nil => exact h'
  | cons c t ih =>
    rw [free_cons] at h
    rw [List.cons_append, free_cons, List.cons_append, List.append_assoc]
    exact ⟨h.1, ih h.2⟩

/-! ## Two sources, one behind the other -/

/-- One source ends and the other starts so that a delimiter opens where they meet. -/
def OpensBetween (s s' : List Char) : Prop := ['{'] <:+ s ∧ (['{'] <+: s' ∨ ['%'] <+: s')

/-- A marker that opens where two texts meet has its delimiter in both. -/
theorem opensBetween_of_opens {before rest : List Char} {c : Char} (h : Opens (c :: rest)) :
    OpensBetween (before ++ [c]) rest := by
  obtain ⟨delimiter, after, hafter⟩ := h
  simp only [Delimiter.opening, List.cons_append, List.nil_append, List.cons.injEq] at hafter
  obtain ⟨rfl, rfl⟩ := hafter
  refine ⟨List.suffix_append _ _, ?_⟩
  cases delimiter with
  | expression => exact .inl (List.prefix_append _ _)
  | block => exact .inr (List.prefix_append _ _)

/-- A text in which no marker opens holds none in front of another, unless one opens where they
meet. -/
theorem Free.in_front {t rest : List Char} (h : Free Opens t []) (hseam : ¬ OpensBetween t rest) :
    Free Opens t rest := by
  intro before behind heq hne hopens
  -- only a marker that opens at the last character of `t` reaches into `rest`
  match behind, hne, hopens with
  | [c], _, hopens => exact hseam (heq ▸ opensBetween_of_opens hopens)
  | c :: d :: behind, hne, hopens => exact h before _ heq hne (ofTwo_opens _ _ _ _ hopens)

/-- The reading of one source behind another, of which the first leaves nothing unclosed. -/
def Reading.append (r r' : Reading) : Reading :=
  match r'.passages with
  | [] => ⟨r.passages, r.text ++ r'.text, r'.unclosed⟩
  | ⟨text, delimiter, interior⟩ :: passages =>
    ⟨r.passages ++ ⟨r.text ++ text, delimiter, interior⟩ :: passages, r'.text, r'.unclosed⟩

/-- A text in front of a source goes to the text that the source starts with. -/
theorem Reads.behind_text {r : Reading} {text s : List Char} (htext : Free Opens text [])
    (h : Reads r s) (hseam : ¬ OpensBetween text s) :
    Reads ((⟨[], text, []⟩ : Reading).append r) (text ++ s) := by
  cases h with
  | last htext' hunclosed =>
    rw [← List.append_assoc]
    exact .last ((htext.in_front hseam).append htext') hunclosed
  | passage htext' hinterior hrest =>
    rw [← List.append_assoc]
    exact .passage ((htext.in_front hseam).append htext') hinterior hrest

/-- The passages of the first source come first. -/
theorem Reading.append_cons (passage : Passage) (passages : List Passage) (text : List Char)
    (r : Reading) :
    (⟨passage :: passages, text, []⟩ : Reading).append r =
      ⟨passage :: ((⟨passages, text, []⟩ : Reading).append r).passages,
        ((⟨passages, text, []⟩ : Reading).append r).text,
        ((⟨passages, text, []⟩ : Reading).append r).unclosed⟩ := by
  obtain ⟨passages', text', unclosed⟩ := r
  cases passages' <;> rfl

/-- Two sources, one behind the other, are read as each of them is. -/
theorem Reads.append {r r' : Reading} {s s' : List Char} (h : Reads r s) (h' : Reads r' s')
    (hunclosed : r.unclosed = []) (hseam : ¬ OpensBetween s s') :
    Reads (r.append r') (s ++ s') := by
  induction h with
  | last htext _ =>
    cases hunclosed
    rw [List.append_nil] at hseam ⊢
    exact h'.behind_text htext hseam
  | @passage text interior last unclosed rest delimiter passages htext hinterior _ ih =>
    cases hunclosed
    have hrest : ¬ OpensBetween rest s' := by
      rintro ⟨hends, hstarts⟩
      refine hseam ⟨hends.trans ?_, hstarts⟩
      simp only [← List.append_assoc]
      exact List.suffix_append _ _
    have hreads := Reads.passage (htext.congr ofTwo_opens) (hinterior.congr (ofTwo_closes _))
      (ih rfl hrest)
    rw [Reading.append_cons]
    simp only [List.append_assoc]
    exact hreads

/-- The pieces of both readings follow each other, except that the text behind the last marker of
the one and the text before the first marker of the other are one run. -/
theorem Reading.pieces_append (r r' : Reading) (hunclosed : r.unclosed = []) :
    ∃ before behind text text',
      r.pieces = before ++ runs text ∧ r'.pieces = runs text' ++ behind ∧
        (r.append r').pieces = before ++ (runs (text ++ text') ++ behind) := by
  obtain ⟨passages, text, _⟩ := r
  obtain ⟨passages', text', unclosed⟩ := r'
  cases hunclosed
  let pieces := fun p : Passage => runs p.text ++ [.marker p.delimiter p.interior]
  let before := passages.flatMap pieces
  cases passages' with
  | nil =>
    refine ⟨before, runs unclosed, text, text', ?_, ?_, rfl⟩
    · simp [before, pieces, Reading.pieces, runs]
    · simp [Reading.pieces]
  | cons passage passages' =>
    let behind := .marker passage.delimiter passage.interior ::
      (passages'.flatMap pieces ++ (runs text' ++ runs unclosed))
    refine ⟨before, behind, text, passage.text, ?_, ?_, ?_⟩
    · simp [before, pieces, Reading.pieces, runs]
    · simp [behind, pieces, Reading.pieces]
    · simp [before, behind, pieces, Reading.pieces, Reading.append]

end Stencil.Markup
