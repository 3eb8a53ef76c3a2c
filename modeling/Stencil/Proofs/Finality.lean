import Stencil.Proofs.Markers
import Stencil.Proofs.Sources

/-!
# Refusals are final

A source is cut at the first delimiters, which more text behind it cannot move: its complete markers
and the text before them stay as they are (`untilOpening_append`, `untilClosing_append`). Only the
text behind the last of them may change its meaning, and that is never refused. So the tokens of a
source and of a longer one agree up to text (`scan_append`), lines included, and what is refused
stays refused in the same words.

Main statement: `parse_append_of_refused`.
-/

namespace Stencil.Markup

/-! ## More text behind a source -/

/-- Where no marker opens, no delimiter is found. -/
theorem opens?_eq_none {s : List Char} (h : ¬ Opens s) : opens? s = none := by
  rw [Option.eq_none_iff_forall_ne_some]
  rintro ⟨delimiter, rest⟩ hopens
  exact h ⟨delimiter, rest, (opens?_eq_some.1 hopens).symm⟩

/-- Where the marker does not close, its delimiter is not found. -/
theorem closes?_eq_none {delimiter : Delimiter} {s : List Char} (h : ¬ Closes delimiter s) :
    closes? delimiter s = none := by
  rw [Option.eq_none_iff_forall_ne_some]
  intro rest hcloses
  exact h ⟨rest, (closes?_eq_some.1 hcloses).symm⟩

/-- An opening delimiter at the start has no text in front of it. -/
theorem untilOpening_of_opens? {s : List Char} {found : Delimiter × List Char}
    (h : opens? s = some found) : untilOpening s = ([], some found) := by
  cases s with
  | nil => cases h
  | cons c s => rw [untilOpening, h]

/-- A closing delimiter at the start leaves the marker empty. -/
theorem untilClosing_of_closes? {delimiter : Delimiter} {s rest : List Char}
    (h : closes? delimiter s = some rest) : untilClosing delimiter s = some ([], rest) := by
  cases s with
  | nil => cases h
  | cons c s => rw [untilClosing, h]

/-- A text up to which no marker opens is cut off where one does. -/
theorem untilOpening_of_free {text rest : List Char} {delimiter : Delimiter}
    (h : Free Opens text (delimiter.opening ++ rest)) :
    untilOpening (text ++ (delimiter.opening ++ rest)) = (text, some (delimiter, rest)) := by
  induction text with
  | nil => exact untilOpening_of_opens? (opens?_eq_some.2 rfl)
  | cons c text ih =>
    obtain ⟨hfirst, hlater⟩ := free_cons.1 h
    rw [List.cons_append, untilOpening, ← List.cons_append, opens?_eq_none hfirst, ih hlater]

/-- So is the inside of a marker where the marker closes. -/
theorem untilClosing_of_free {delimiter : Delimiter} {interior rest : List Char}
    (h : Free (Closes delimiter) interior (delimiter.closing ++ rest)) :
    untilClosing delimiter (interior ++ (delimiter.closing ++ rest)) = some (interior, rest) := by
  induction interior with
  | nil => exact untilClosing_of_closes? (closes?_eq_some.2 rfl)
  | cons c interior ih =>
    obtain ⟨hfirst, hlater⟩ := free_cons.1 h
    rw [List.cons_append, untilClosing, ← List.cons_append, closes?_eq_none hfirst, ih hlater]
    rfl

/-- The first place where a marker opens stays the first. -/
theorem untilOpening_append {s text rest : List Char} {delimiter : Delimiter}
    (h : untilOpening s = (text, some (delimiter, rest))) (later : List Char) :
    untilOpening (s ++ later) = (text, some (delimiter, rest ++ later)) := by
  have hfree : Free Opens text (delimiter.opening ++ (rest ++ later)) :=
    (free_of_untilOpening h).congr ofTwo_opens
  rw [← untilOpening_of_free hfree, eq_of_untilOpening h]
  simp only [List.append_assoc]

/-- The first place where a marker closes stays the first. -/
theorem untilClosing_append {delimiter : Delimiter} {s interior rest : List Char}
    (h : untilClosing delimiter s = some (interior, rest)) (later : List Char) :
    untilClosing delimiter (s ++ later) = some (interior, rest ++ later) := by
  have hfree : Free (Closes delimiter) interior (delimiter.closing ++ (rest ++ later)) :=
    (free_of_untilClosing h).congr (ofTwo_closes delimiter)
  rw [← untilClosing_of_free hfree, eq_of_untilClosing h]
  simp only [List.append_assoc]

/-- The tokens of a source that starts with a text and a complete marker. -/
theorem scan_of_cut {s text rest interior after : List Char} {delimiter : Delimiter} (line : Nat)
    (hs : untilOpening s = (text, some (delimiter, rest)))
    (hr : untilClosing delimiter rest = some (interior, after)) :
    scan line s = contentToken line text ++
      markerTokens (line + lineBreaks text) delimiter interior ++
        scan (line + lineBreaks text + lineBreaks interior) after := by
  rw [scan]
  split
  · rename_i htext
    cases hs.symm.trans htext
  · rename_i hcut
    cases hs.symm.trans hcut
    split
    · rename_i hnone
      cases hr.symm.trans hnone
    · rename_i hmarker
      cases hr.symm.trans hmarker
      rfl

/-! ## Tokens of a source and of a longer one -/

/-- Tokens that are runs of text. -/
def OnlyText (tokens : List Token) : Prop :=
  ∀ token ∈ tokens, ∃ text, token.lexeme = .content text

/-- A run of text is only text. -/
theorem onlyText_contentToken (line : Nat) (text : List Char) :
    OnlyText (contentToken line text) := by
  unfold contentToken
  split
  · rintro token ⟨⟩
  · intro token htoken
    rw [List.mem_singleton.1 htoken]
    exact ⟨_, rfl⟩

theorem OnlyText.append {tokens later : List Token} (h : OnlyText tokens)
    (hlater : OnlyText later) : OnlyText (tokens ++ later) := by
  intro token htoken
  exact (List.mem_append.1 htoken).elim (h token) (hlater token)

/-- The tokens of a source and those of a longer one start with the same runs of text and whole
markers, and behind these the source has text only. -/
theorem scan_append (line : Nat) (s later : List Char) :
    ∃ front text rest, Composed front ∧ OnlyText text ∧ scan line s = front ++ text ∧
      scan line (s ++ later) = front ++ rest := by
  fun_induction scan line s with
  | case1 line s text hs =>
    exact ⟨[], _, _, .nil, onlyText_contentToken line text, rfl, rfl⟩
  | case2 line s text delimiter rest hs markerLine hr =>
    have htext := onlyText_contentToken line text
    exact ⟨[], _, _, .nil, htext.append (onlyText_contentToken _ _), rfl, rfl⟩
  | case3 line s text delimiter rest hs markerLine interior after hr ih =>
    obtain ⟨front, tail, behind, hfront, htail, hafter, hlater⟩ := ih
    have hcomposed := (hfront.marker markerLine delimiter interior).contentToken_append line text
    rw [← List.append_assoc] at hcomposed
    refine ⟨_, tail, behind, hcomposed, htail, ?_, ?_⟩
    · rw [hafter]
      simp only [List.append_assoc]
    · -- the delimiters that cut the source cut the longer one at the same places
      rw [scan_of_cut line (untilOpening_append hs later) (untilClosing_append hr later), hlater]
      simp only [List.append_assoc]
      rfl

/-! ## What is refused -/

namespace Builder

/-- Text is never refused between markers. -/
theorem exists_foldlM_of_onlyText {tokens : List Token} (htokens : OnlyText tokens) {b : Builder}
    (h : b.Between) : ∃ b', tokens.foldlM step b = .ok b' ∧ b'.Between := by
  induction tokens generalizing b with
  | nil => exact ⟨b, rfl, h⟩
  | cons token tokens ih =>
    obtain ⟨text, htext⟩ := htokens token List.mem_cons_self
    rw [List.foldlM_cons, step_content h token htext]
    exact ih (fun token htoken => htokens token (List.mem_cons_of_mem _ htoken)) h

/-- A template that cannot end is refused for ending too early. -/
theorem unexpectedEnd_of_finish {b : Builder} {e : Error} (h : b.finish = .error e) :
    ∃ expectation, e.fault = .unexpectedEnd expectation := by
  unfold finish at h
  split at h
  · cases h
    exact ⟨_, rfl⟩
  · cases h

end Builder

/-- Tokens are built in two parts. -/
theorem build_append (front later : List Token) :
    build (front ++ later) = front.foldlM Builder.step {} >>= fun b =>
      later.foldlM Builder.step b >>= Builder.finish := by
  rw [build, List.foldlM_append, bind_assoc]

/-- Whole markers that are followed by text only are refused themselves, or not at all before the
end. -/
theorem foldlM_eq_error_of_build {front text : List Token} (hfront : Composed front)
    (htext : OnlyText text) {e : Error} (h : build (front ++ text) = .error e)
    (hfault : ∀ expectation, e.fault ≠ .unexpectedEnd expectation) :
    front.foldlM Builder.step {} = .error e := by
  rw [build_append] at h
  obtain hrefused | ⟨b, hread, hend⟩ := bind_eq_error.1 h
  · exact hrefused
  · have hbetween := ((Builder.yields_foldlM (b := {}) hfront rfl).of_ok hread).1
    obtain ⟨b', htail, -⟩ := Builder.exists_foldlM_of_onlyText htext hbetween
    rw [htail] at hend
    obtain ⟨expectation, hexpectation⟩ := Builder.unexpectedEnd_of_finish hend
    exact absurd hexpectation (hfault expectation)

/-- A source that is refused otherwise than for ending too early is refused alike, in the same words
and on the same line, whatever follows it. -/
theorem parse_append_eq_error {source : String} {e : Error} (h : parse source = .error e)
    (hfault : ∀ expectation, e.fault ≠ .unexpectedEnd expectation) (later : String) :
    parse (source ++ later) = .error e := by
  obtain ⟨front, text, rest, hfront, htext, hsource, hlonger⟩ :=
    scan_append 1 source.toList later.toList
  have hrefused : front.foldlM Builder.step {} = .error e := by
    rw [parse, tokenize, hsource] at h
    exact foldlM_eq_error_of_build hfront htext h hfault
  rw [parse, tokenize, String.toList_append, hlonger, build_append, hrefused]
  rfl

/-- What is wrong with a source stays wrong whatever follows it, unless the source only ends too
early: the longer source is refused in the same words and on the same line. So the start of a
template is a template, or ends too early. -/
theorem parse_append_of_refused :
    (∀ (source later : String) (e : Error), parse source = .error e →
      (∀ expectation, e.fault ≠ .unexpectedEnd expectation) →
      parse (source ++ later) = .error e) ∧
    ∀ (start source : String) (root : Node), start.toList <+: source.toList →
      parse source = .ok root →
      (∃ root', parse start = .ok root') ∨
        ∃ line expectation, parse start = .error ⟨line, .unexpectedEnd expectation⟩ := by
  refine ⟨fun source later e h hfault => parse_append_eq_error h hfault later, ?_⟩
  rintro start source root ⟨later, hlater⟩ hparse
  have hsource : start ++ String.ofList later = source := by
    rw [← String.toList_inj, String.toList_append, String.toList_ofList, hlater]
  cases hstart : parse start with
  | ok root' => exact .inl ⟨root', rfl⟩
  | error e =>
    obtain ⟨line, fault⟩ := e
    by_cases hend : ∃ expectation, fault = .unexpectedEnd expectation
    · obtain ⟨expectation, rfl⟩ := hend
      exact .inr ⟨line, expectation, rfl⟩
    · -- any other fault would be that of the whole source as well
      have hrefused := parse_append_eq_error hstart (fun _ h => hend ⟨_, h⟩) (String.ofList later)
      rw [hsource, hparse] at hrefused
      cases hrefused

/-- An `else` on the second line that belongs to nothing is refused there whatever follows it. An
`if` at the start of a template may end too early only. -/
theorem parse_append_of_else :
    (parse "a\n\x7b% else %\x7d" = .error ⟨2, .unbalanced "else" "has no matching if"⟩ ∧
      parse ("a\n\x7b% else %\x7d" ++ "\n\x7b% endblock %\x7d")
        = .error ⟨2, .unbalanced "else" "has no matching if"⟩) ∧
    ((∃ root, parse "\x7b% if x %\x7d\x7b% endblock %\x7d" = .ok root) ∧
      ((∃ root, parse "\x7b% if x %\x7d\x7b% endb" = .ok root) ∨
        ∃ line expectation,
          parse "\x7b% if x %\x7d\x7b% endb" = .error ⟨line, .unexpectedEnd expectation⟩)) := by
  have helse : parse "a\n\x7b% else %\x7d"
      = .error ⟨2, .unbalanced "else" "has no matching if"⟩ := by with_unfolding_all rfl
  have hif : ∃ root, parse "\x7b% if x %\x7d\x7b% endblock %\x7d" = .ok root :=
    ⟨_, by with_unfolding_all rfl⟩
  refine ⟨⟨helse, parse_append_of_refused.1 _ _ _ helse ?_⟩, hif, ?_⟩
  · rintro expectation ⟨⟩
  · obtain ⟨root, hroot⟩ := hif
    exact parse_append_of_refused.2 _ _ root ⟨"lock %\x7d".toList, by decide⟩ hroot

end Stencil.Markup
