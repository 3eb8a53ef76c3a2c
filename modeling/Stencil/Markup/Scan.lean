import Stencil.Markup.Token
import Stencil.Text.Words

/-!
# Reading tokens

A source is text up to its first opening delimiter, then the inside of that marker up to the first
closing delimiter of the same kind, then the rest, read in the same way. Inside a marker no other
delimiter counts. A marker that never closes is text, from its opening delimiter to the end of
the source, so reading tokens cannot fail.

`untilOpening` and `untilClosing` find the two delimiters and lose nothing (`eq_of_untilOpening`,
`eq_of_untilClosing`); `scan` puts the tokens together, and `tokenize` starts it at line one.
-/

namespace Stencil.Markup

/-- The delimiter that a text starts by opening, and the text behind it. -/
def opens? : List Char → Option (Delimiter × List Char)
  | '{' :: c :: rest => (Delimiter.ofChar? c).map fun delimiter => (delimiter, rest)
  | _ => none

/-- The text behind a closing delimiter of a kind, if the text starts with one. -/
def closes? (delimiter : Delimiter) : List Char → Option (List Char)
  | c :: '}' :: rest => if c = delimiter.closer then some rest else none
  | _ => none

/-- The text before the first opening delimiter, and that delimiter with the text behind it. -/
def untilOpening : List Char → List Char × Option (Delimiter × List Char)
  | [] => ([], none)
  | c :: s =>
    match opens? (c :: s) with
    | some found => ([], some found)
    | none =>
      let (text, found) := untilOpening s
      (c :: text, found)

/-- The text before the first closing delimiter of a kind and the text behind it, if it occurs. -/
def untilClosing (delimiter : Delimiter) : List Char → Option (List Char × List Char)
  | [] => none
  | c :: s =>
    match closes? delimiter (c :: s) with
    | some rest => some ([], rest)
    | none => (untilClosing delimiter s).map fun (interior, rest) => (c :: interior, rest)

/-- A text opens a delimiter exactly when it starts with its opening form. -/
theorem opens?_eq_some {s rest : List Char} {delimiter : Delimiter} :
    opens? s = some (delimiter, rest) ↔ s = delimiter.opening ++ rest := by
  unfold opens?
  split
  · rename_i c tail
    simp only [Option.map_eq_some_iff, Prod.mk.injEq, Delimiter.ofChar?_eq_some,
      Delimiter.opening, List.cons_append, List.nil_append, List.cons.injEq, true_and]
    constructor
    · rintro ⟨d, rfl, rfl, rfl⟩
      exact ⟨rfl, rfl⟩
    · rintro ⟨rfl, rfl⟩
      exact ⟨delimiter, rfl, rfl, rfl⟩
  · rename_i hne
    simp only [reduceCtorEq, false_iff]
    rintro rfl
    exact hne _ _ rfl

/-- A text closes a delimiter exactly when it starts with its closing form. -/
theorem closes?_eq_some {s rest : List Char} {delimiter : Delimiter} :
    closes? delimiter s = some rest ↔ s = delimiter.closing ++ rest := by
  unfold closes?
  split
  · rename_i c tail
    simp [Delimiter.closing]
  · rename_i hne
    simp only [reduceCtorEq, false_iff]
    rintro rfl
    exact hne _ _ rfl

/-- Cutting at the first opening delimiter loses nothing. -/
theorem eq_of_untilOpening {s text rest : List Char} {delimiter : Delimiter}
    (h : untilOpening s = (text, some (delimiter, rest))) :
    s = text ++ delimiter.opening ++ rest := by
  induction s generalizing text with
  | nil => simp [untilOpening] at h
  | cons c s ih =>
    unfold untilOpening at h
    split at h
    · rename_i found hfound
      simp only [Prod.mk.injEq, Option.some.injEq] at h
      obtain ⟨rfl, rfl⟩ := h
      exact opens?_eq_some.1 hfound
    · simp only [Prod.mk.injEq] at h
      obtain ⟨rfl, hrest⟩ := h
      have := ih (Prod.ext rfl hrest)
      rw [List.cons_append, List.cons_append, ← this]

/-- Where no delimiter opens, the text before the first one is all of it. -/
theorem eq_of_untilOpening_none {s text : List Char} (h : untilOpening s = (text, none)) :
    text = s := by
  induction s generalizing text with
  | nil => simpa [untilOpening] using h.symm
  | cons c s ih =>
    unfold untilOpening at h
    split at h
    · simp at h
    · simp only [Prod.mk.injEq] at h
      obtain ⟨rfl, hrest⟩ := h
      exact congrArg (c :: ·) (ih (Prod.ext rfl hrest))

/-- Cutting at the first closing delimiter loses nothing. -/
theorem eq_of_untilClosing {delimiter : Delimiter} {s interior rest : List Char}
    (h : untilClosing delimiter s = some (interior, rest)) :
    s = interior ++ delimiter.closing ++ rest := by
  induction s generalizing interior with
  | nil => simp [untilClosing] at h
  | cons c s ih =>
    unfold untilClosing at h
    split at h
    · rename_i after hafter
      simp only [Option.some.injEq, Prod.mk.injEq] at h
      obtain ⟨rfl, rfl⟩ := h
      exact closes?_eq_some.1 hafter
    · simp only [Option.map_eq_some_iff, Prod.mk.injEq, Prod.exists] at h
      obtain ⟨inner, after, hs, rfl, rfl⟩ := h
      rw [ih hs]
      rfl

/-- The number of line breaks in a text. -/
def lineBreaks (s : List Char) : Nat := s.count '\n'

@[simp] theorem lineBreaks_nil : lineBreaks [] = 0 := rfl

@[simp] theorem lineBreaks_append (s t : List Char) :
    lineBreaks (s ++ t) = lineBreaks s + lineBreaks t := List.count_append

/-- Opening a marker does not end a line. -/
@[simp] theorem lineBreaks_opening (delimiter : Delimiter) :
    lineBreaks delimiter.opening = 0 := by
  cases delimiter <;> decide

/-- Closing a marker does not end a line. -/
@[simp] theorem lineBreaks_closing (delimiter : Delimiter) :
    lineBreaks delimiter.closing = 0 := by
  cases delimiter <;> decide

/-- The token of a run of text; an empty run has none. -/
def contentToken (line : Nat) (text : List Char) : List Token :=
  if text = [] then [] else [⟨.content (String.ofList text), line⟩]

/-- The tokens of a marker, all on the line on which it opens. -/
def markerTokens (line : Nat) (delimiter : Delimiter) (interior : List Char) : List Token :=
  ⟨.opening delimiter, line⟩ ::
    (Text.words interior).map (fun word => ⟨.word (String.ofList word), line⟩) ++
    [⟨.closing delimiter, line⟩]

/-- The tokens of a source whose first character stands on line `line`. -/
def scan (line : Nat) (s : List Char) : List Token :=
  match _hs : untilOpening s with
  | (text, none) => contentToken line text
  | (text, some (delimiter, rest)) =>
    let markerLine := line + lineBreaks text
    match _hr : untilClosing delimiter rest with
    | none => contentToken line text ++ contentToken markerLine (delimiter.opening ++ rest)
    | some (interior, after) =>
      contentToken line text ++ markerTokens markerLine delimiter interior ++
        scan (markerLine + lineBreaks interior) after
termination_by s.length
decreasing_by
  rw [eq_of_untilOpening _hs, eq_of_untilClosing _hr]
  simp only [List.length_append, Delimiter.opening, Delimiter.closing, List.length_cons]
  omega

/-- The tokens of a template source. -/
def tokenize (source : String) : List Token := scan 1 source.toList

end Stencil.Markup
