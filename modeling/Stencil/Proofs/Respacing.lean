import Mathlib.Data.List.Find
import Stencil.Proofs.Columns

/-!
# Respaced texts

Putting a single space between the words of a text respaces it: white space outside quoted literals
shrinks, and all else stays. `respaced` is what becomes of a text that is read from where a reader
of words stands, so that it can be followed character by character.

A reader of lexemes and a reader of words agree on quoted literals (`wordsFrom_of_readText`,
`wordsFrom_of_readText_none`), so a respaced text has the same literals (`literals_respaced`), and
every reader of a lexeme finds the same one in front of it (`readLexeme_respaced`).
-/

namespace Stencil.Text

/-! ## Texts -/

/-- Words with a space in front of each. -/
def spaced (ws : List (List Char)) : List Char := ws.flatMap (' ' :: ·)

/-- What becomes of a text whose reader stands at `at_`: the rest of the word at hand, and the later
words with a space in front of each. -/
def respaced (at_ : Standing) (s : List Char) : List Char :=
  (wordsFrom at_ s).1 ++ spaced (wordsFrom at_ s).2

/-- A character that is neither white space nor a quote: it goes on with a word, whatever precedes
it outside literals. -/
def IsPlain (c : Char) : Prop := isBlank c = false ∧ isQuote c = false

instance (c : Char) : Decidable (IsPlain c) := inferInstanceAs (Decidable (_ ∧ _))

@[simp] theorem respaced_nil (at_ : Standing) : respaced at_ [] = [] := rfl

/-- A reader goes on from a gap as from a word. -/
theorem wordsFrom_word (s : List Char) : wordsFrom .word s = wordsFrom .gap s := by
  cases s <;> rfl

theorem respaced_word (s : List Char) : respaced .word s = respaced .gap s := by
  rw [respaced, wordsFrom_word, respaced]

/-- A character that leads into a gap ends the word at hand. -/
theorem wordsFrom_cons_gap {at_ : Standing} {c : Char} (s : List Char) (h : at_.next c = .gap) :
    wordsFrom at_ (c :: s) = ([], words s) := by
  simp [wordsFrom, h, words]

/-- Any other character belongs to the word at hand. -/
theorem wordsFrom_cons {at_ : Standing} {c : Char} (s : List Char) (h : at_.next c ≠ .gap) :
    wordsFrom at_ (c :: s) =
      (c :: (wordsFrom (at_.next c) s).1, (wordsFrom (at_.next c) s).2) := by
  simp [wordsFrom, h]

/-- Inside a word or a literal a character stays. -/
theorem respaced_cons {at_ : Standing} {c : Char} (s : List Char) (h : at_.next c ≠ .gap) :
    respaced at_ (c :: s) = c :: respaced (at_.next c) s := by
  rw [respaced, wordsFrom_cons s h, List.cons_append, respaced]

/-- White space ends a word. -/
theorem outside_of_isBlank {c : Char} (h : isBlank c = true) : Standing.outside c = .gap := by
  simp [Standing.outside, h]

/-- A plain character leads into a word. -/
theorem IsPlain.outside {c : Char} (h : IsPlain c) : Standing.outside c = .word := by
  simp [Standing.outside, h.1, h.2]

/-- Only white space leads into a gap. -/
theorem outside_ne_gap {c : Char} (h : isBlank c = false) : Standing.outside c ≠ .gap := by
  unfold Standing.outside
  rw [h]
  split
  · contradiction
  · split <;> simp

/-- A character that is not white space stays. -/
theorem respaced_cons_of_not_blank {c : Char} (s : List Char) (h : isBlank c = false) :
    respaced .gap (c :: s) = c :: respaced (Standing.outside c) s :=
  respaced_cons s (outside_ne_gap h)

/-- A plain character stays, and the reader is where it was. -/
theorem respaced_cons_of_plain {c : Char} (s : List Char) (h : IsPlain c) :
    respaced .gap (c :: s) = c :: respaced .gap s := by
  rw [respaced_cons_of_not_blank s h.1, h.outside, respaced_word]

/-- White space becomes a space in front of the next word, or nothing where none follows. -/
theorem respaced_cons_of_blank {c : Char} (s : List Char) (h : isBlank c = true) :
    respaced .gap (c :: s) = spaced (words s) := by
  have hgap : Standing.next .gap c = .gap := outside_of_isBlank h
  rw [respaced, wordsFrom_cons_gap s hgap, List.nil_append]

/-- A respaced text starts with the same character, or with a space where that is white space, if at
all. -/
theorem respaced_cons_head (c : Char) (s : List Char) :
    respaced .gap (c :: s) = [] ∨
      ∃ d rest, (d = c ∨ d = ' ') ∧ respaced .gap (c :: s) = d :: rest := by
  cases h : isBlank c with
  | true =>
    rw [respaced_cons_of_blank s h]
    cases words s with
    | nil => exact .inl rfl
    | cons w ws => exact .inr ⟨' ', w ++ spaced ws, .inr rfl, rfl⟩
  | false => exact .inr ⟨c, _, .inl rfl, respaced_cons_of_not_blank s h⟩

/-- Words with a space between each two are the first word and the others, each behind a space. -/
theorem intercalate_cons_eq (w : List Char) (ws : List (List Char)) :
    [' '].intercalate (w :: ws) = w ++ spaced ws := by
  induction ws generalizing w with
  | nil => simp [spaced]
  | cons v ws ih =>
    rw [List.intercalate_cons_cons, ih v, List.append_assoc]
    rfl

/-- A text is respaced to its words with a space between each two, behind another space if the text
starts with white space. -/
theorem respaced_eq (s : List Char) :
    respaced .gap s = [' '].intercalate (words s) ∨
      respaced .gap s = ' ' :: [' '].intercalate (words s) := by
  unfold respaced words prepend
  obtain ⟨word, later⟩ := wordsFrom .gap s
  dsimp only
  split
  · rename_i hword
    rw [hword, List.nil_append]
    cases later with
    | nil => exact .inl rfl
    | cons w ws =>
      right
      rw [intercalate_cons_eq]
      rfl
  · exact .inl (intercalate_cons_eq word later).symm

/-- Words with a space in front of each are the respaced text, perhaps behind another space. -/
theorem spaced_words (s : List Char) :
    spaced (words s) = respaced .gap s ∨ spaced (words s) = ' ' :: respaced .gap s := by
  unfold respaced words prepend
  obtain ⟨word, later⟩ := wordsFrom .gap s
  dsimp only
  split
  · rename_i hword
    rw [hword]
    exact .inl rfl
  · exact .inr rfl

end Stencil.Text

namespace Stencil.Expr

open Text

/-! ## Quoted literals -/

private theorem ne_backslash {c : Char} {s : List Char} (hnil : c = '\\' → s = [] → False)
    (hcons : ∀ d t, c = '\\' → s = d :: t → False) : c ≠ '\\' := by
  intro hc
  cases s with
  | nil => exact hnil hc rfl
  | cons d t => exact hcons d t hc rfl

/-- An escaped character does not end a literal. -/
private theorem wordsFrom_literal_escape (quote c : Char) (s : List Char) :
    wordsFrom (.literal quote) ('\\' :: c :: s) =
      ('\\' :: c :: (wordsFrom (.literal quote) s).1, (wordsFrom (.literal quote) s).2) := by
  have hquote : Standing.next (.literal quote) '\\' = .escape quote := by simp [Standing.next]
  have hescape : Standing.next (.escape quote) c = .literal quote := rfl
  rw [wordsFrom_cons _ (by simp [hquote]), hquote, wordsFrom_cons _ (by simp [hescape]), hescape]

/-- The quote that opened a literal ends it. -/
private theorem wordsFrom_literal_quote {quote : Char} (s : List Char) (h : quote ≠ '\\') :
    wordsFrom (.literal quote) (quote :: s) =
      (quote :: (wordsFrom .gap s).1, (wordsFrom .gap s).2) := by
  have hquote : Standing.next (.literal quote) quote = .word := by simp [Standing.next, h]
  rw [wordsFrom_cons _ (by simp [hquote]), hquote, wordsFrom_word]

/-- Any other character stays inside the literal. -/
private theorem wordsFrom_literal_other {quote c : Char} (s : List Char) (h : c ≠ '\\')
    (hc : c ≠ quote) :
    wordsFrom (.literal quote) (c :: s) =
      (c :: (wordsFrom (.literal quote) s).1, (wordsFrom (.literal quote) s).2) := by
  have hnext : Standing.next (.literal quote) c = .literal quote := by
    simp [Standing.next, h, hc]
  rw [wordsFrom_cons _ (by simp [hnext]), hnext]

/-- A reader of words comes out of a literal where a reader of lexemes does. -/
theorem wordsFrom_of_readText {quote : Char} {s value spelling rest : List Char}
    (h : readText quote s = some (value, spelling, rest)) :
    wordsFrom (.literal quote) s =
      (spelling ++ (wordsFrom .gap rest).1, (wordsFrom .gap rest).2) := by
  fun_induction readText quote s generalizing value spelling with
  | case1 => cases h
  | case2 => cases h
  | case3 c s ih =>
    obtain ⟨⟨value', spelling', rest'⟩, hs, heq⟩ := Option.map_eq_some_iff.1 h
    cases heq
    rw [wordsFrom_literal_escape, ih hs]
    rfl
  | case4 s hnil hcons =>
    cases h
    rw [wordsFrom_literal_quote _ (ne_backslash hnil hcons)]
    rfl
  | case5 c s hnil hcons hc ih =>
    obtain ⟨⟨value', spelling', rest'⟩, hs, heq⟩ := Option.map_eq_some_iff.1 h
    cases heq
    rw [wordsFrom_literal_other s (ne_backslash hnil hcons) hc, ih hs]
    rfl

/-- A literal that never closes runs to the end for a reader of words, too. -/
theorem wordsFrom_of_readText_none {quote : Char} {s : List Char} (h : readText quote s = none) :
    wordsFrom (.literal quote) s = (s, []) := by
  fun_induction readText quote s with
  | case1 => rfl
  | case2 => simp [wordsFrom, Standing.next]
  | case3 c s ih => rw [wordsFrom_literal_escape, ih (Option.map_eq_none_iff.1 h)]
  | case4 => cases h
  | case5 c s hnil hcons hc ih =>
    rw [wordsFrom_literal_other s (ne_backslash hnil hcons) hc, ih (Option.map_eq_none_iff.1 h)]

/-- What follows a literal has no part in reading it. -/
theorem readText_append {quote : Char} {s value spelling rest : List Char}
    (h : readText quote s = some (value, spelling, rest)) (t : List Char) :
    readText quote (spelling ++ t) = some (value, spelling, t) := by
  fun_induction readText quote s generalizing value spelling with
  | case1 => cases h
  | case2 => cases h
  | case3 c s ih =>
    obtain ⟨⟨value', spelling', rest'⟩, hs, heq⟩ := Option.map_eq_some_iff.1 h
    cases heq
    simp [readText, ih hs]
  | case4 s hnil hcons =>
    cases h
    have := ne_backslash hnil hcons
    simp [readText, this]
  | case5 c s hnil hcons hc ih =>
    obtain ⟨⟨value', spelling', rest'⟩, hs, heq⟩ := Option.map_eq_some_iff.1 h
    cases heq
    have := ne_backslash hnil hcons
    simp [readText, this, hc, ih hs]

/-- Respacing goes on behind a literal as in front of it. -/
theorem respaced_of_readText {quote : Char} {s value spelling rest : List Char}
    (h : readText quote s = some (value, spelling, rest)) :
    respaced (.literal quote) s = spelling ++ respaced .gap rest := by
  rw [respaced, wordsFrom_of_readText h, List.append_assoc, respaced]

/-- A literal that never closes is not respaced. -/
theorem respaced_of_readText_none {quote : Char} {s : List Char} (h : readText quote s = none) :
    respaced (.literal quote) s = s := by
  rw [respaced, wordsFrom_of_readText_none h]
  exact List.append_nil s

/-- A quote opens a literal. -/
theorem outside_of_isQuote {c : Char} (h : isQuote c = true) :
    isBlank c = false ∧ Standing.outside c = .literal c := by
  have hblank : isBlank c = false := by
    simp only [isQuote, Bool.or_eq_true, beq_iff_eq] at h
    rcases h with rfl | rfl
    · exact isBlank_quote.1
    · exact isBlank_quote.2
  exact ⟨hblank, by simp [Standing.outside, hblank, h]⟩

/-- The quoted literals of a text, each as it is written. One that never closes goes to the end. -/
def literals : List Char → List (List Char)
  | [] => []
  | c :: s =>
    if isQuote c then
      match _h : readText c s with
      | some (_, spelling, rest) => (c :: spelling) :: literals rest
      | none => [c :: s]
    else literals s
termination_by s => s.length
decreasing_by
  · have := congrArg List.length (eq_append_of_readText _h)
    simp only [List.length_append, List.length_cons] at *
    omega
  · simp

@[simp] theorem literals_nil : literals [] = [] := by rw [literals]

/-- What is no quote opens no literal. -/
theorem literals_cons_of_not_quote {c : Char} (s : List Char) (h : isQuote c = false) :
    literals (c :: s) = literals s := by
  rw [literals]
  simp [h]

/-- A quote opens a literal up to the quote that closes it. -/
theorem literals_cons_of_readText {c : Char} {s value spelling rest : List Char}
    (hc : isQuote c = true) (h : readText c s = some (value, spelling, rest)) :
    literals (c :: s) = (c :: spelling) :: literals rest := by
  rw [literals]
  simp only [hc, if_true]
  split
  · rename_i h'
    rw [h] at h'
    cases h'
    rfl
  · rename_i h'
    rw [h] at h'
    cases h'

/-- A literal that never closes is the last one. -/
theorem literals_cons_of_readText_none {c : Char} {s : List Char} (hc : isQuote c = true)
    (h : readText c s = none) : literals (c :: s) = [c :: s] := by
  rw [literals]
  simp only [hc, if_true]
  split
  · rename_i h'
    rw [h] at h'
    cases h'
  · rfl

private theorem literals_space (s : List Char) : literals (' ' :: s) = literals s :=
  literals_cons_of_not_quote s (by decide)

/-- Respacing a text alters none of its literals. -/
theorem literals_respaced (s : List Char) : literals (respaced .gap s) = literals s := by
  fun_induction literals s with
  | case1 => exact literals_nil
  | case2 c s hc value spelling rest h ih =>
    obtain ⟨hblank, houtside⟩ := outside_of_isQuote hc
    rw [respaced_cons_of_not_blank s hblank, houtside, respaced_of_readText h,
      literals_cons_of_readText hc (readText_append h _), ih]
  | case3 c s hc h =>
    obtain ⟨hblank, houtside⟩ := outside_of_isQuote hc
    rw [respaced_cons_of_not_blank s hblank, houtside, respaced_of_readText_none h,
      literals_cons_of_readText_none hc h]
  | case4 c s hc ih =>
    cases hblank : isBlank c with
    | true =>
      rw [respaced_cons_of_blank s hblank, ← ih]
      rcases spaced_words s with h | h
      · rw [h]
      · rw [h, literals_space]
    | false =>
      have hquote : isQuote c = false := by simpa using hc
      rw [respaced_cons_of_plain s ⟨hblank, hquote⟩, literals_cons_of_not_quote _ hquote, ih]

/-- Joining the words of a text alters none of its literals. -/
theorem literals_intercalate_words (s : List Char) :
    literals ([' '].intercalate (words s)) = literals s := by
  rw [← literals_respaced s]
  rcases respaced_eq s with h | h
  · rw [h]
  · rw [h, literals_space]

/-- A word in front of others has its literals in front of theirs. -/
private theorem flatMap_literals_prepend (w : List Char) (ws : List (List Char)) :
    (prepend w ws).flatMap literals = literals w ++ ws.flatMap literals := by
  unfold prepend
  split
  · rename_i hw
    rw [hw, literals_nil, List.nil_append]
  · exact List.flatMap_cons

/-- The literals of a text are those of its words. -/
private theorem flatMap_literals_wordsFrom (s : List Char) :
    literals (wordsFrom .gap s).1 ++ (wordsFrom .gap s).2.flatMap literals = literals s := by
  fun_induction literals s with
  | case1 => simp [wordsFrom]
  | case2 c s hc value spelling rest h ih =>
    obtain ⟨hblank, houtside⟩ := outside_of_isQuote hc
    have hnext : Standing.next .gap c = .literal c := houtside
    rw [wordsFrom_cons s (by simp [hnext]), hnext, wordsFrom_of_readText h, ← ih,
      literals_cons_of_readText hc (readText_append h _), List.cons_append]
  | case3 c s hc h =>
    obtain ⟨hblank, houtside⟩ := outside_of_isQuote hc
    have hnext : Standing.next .gap c = .literal c := houtside
    rw [wordsFrom_cons s (by simp [hnext]), hnext, wordsFrom_of_readText_none h,
      literals_cons_of_readText_none hc h]
    rfl
  -- Outside of literals a blank ends a word, and any other character goes on with one.
  | case4 c s hc ih =>
    cases hblank : isBlank c with
    | true =>
      have hnext : Standing.next .gap c = .gap := outside_of_isBlank hblank
      rw [wordsFrom_cons_gap s hnext, literals_nil, List.nil_append, ← ih]
      exact flatMap_literals_prepend _ _
    | false =>
      have hquote : isQuote c = false := by simpa using hc
      have hplain : IsPlain c := ⟨hblank, hquote⟩
      have hnext : Standing.next .gap c = .word := hplain.outside
      rw [wordsFrom_cons s (by simp [hnext]), hnext, wordsFrom_word,
        literals_cons_of_not_quote _ hquote, ih]

/-- Each literal of a text lies in one of its words. -/
theorem flatMap_literals_words (s : List Char) : (words s).flatMap literals = literals s := by
  rw [← flatMap_literals_wordsFrom s]
  exact flatMap_literals_prepend _ _

/-! ## Lexemes -/

/-- A number is in some ranges if it is in one of them. -/
private theorem inRanges_eq_true {ranges : List (Nat × Nat)} {n : Nat} :
    inRanges ranges n = true ↔ ∃ r ∈ ranges, r.1 ≤ n ∧ n ≤ r.2 := by
  simp [inRanges]

/-- A character whose range lies apart from white space and from the quotes is plain. -/
private theorem isPlain_of_inRanges (ranges : List (Nat × Nat)) {c : Char}
    (h : ∀ r ∈ ranges, ∀ q ∈ blankRanges ++ [(34, 34), (39, 39)], r.2 < q.1 ∨ q.2 < r.1)
    (hc : inRanges ranges c.toNat = true) : IsPlain c := by
  -- 34 and 39 are the two quotes
  obtain ⟨r, hr, hrc⟩ := inRanges_eq_true.1 hc
  constructor
  · rw [Bool.eq_false_iff, Ne, isBlank, inRanges_eq_true]
    rintro ⟨q, hq, hqc⟩
    have := h r hr q (List.mem_append_left _ hq)
    omega
  · have hdouble := h r hr (34, 34) (by simp)
    have hsingle := h r hr (39, 39) (by simp)
    rw [Bool.eq_false_iff, Ne, isQuote, Bool.or_eq_true, beq_iff_eq, beq_iff_eq]
    rintro (rfl | rfl)
    · have : ('\'' : Char).toNat = 39 := rfl
      omega
    · have : ('"' : Char).toNat = 34 := rfl
      omega

/-- Digits are plain. -/
private theorem isPlain_of_isDigit {c : Char} (h : c.isDigit = true) : IsPlain c := by
  refine isPlain_of_inRanges [(48, 57)] (by decide) ?_
  simpa [inRanges, Char.isDigit, UInt32.le_iff_toNat_le] using h

/-- Letters are plain. -/
private theorem isPlain_of_isAlpha {c : Char} (h : c.isAlpha = true) : IsPlain c := by
  refine isPlain_of_inRanges [(65, 90), (97, 122)] (by decide) ?_
  have hcases : (decide (c.val ≥ 65 ∧ c.val ≤ 90) || (c.val ≥ 97 && c.val ≤ 122)) = true := h
  simpa [inRanges, UInt32.le_iff_toNat_le] using hcases

/-- So are the letters beyond ASCII. -/
private theorem isPlain_of_isAlphabetic {c : Char} (h : isAlphabetic c = true) : IsPlain c := by
  unfold isAlphabetic at h
  split at h
  · exact isPlain_of_isAlpha h
  · exact isPlain_of_inRanges _ (by decide +kernel) h

/-- So are the digits beyond ASCII. -/
private theorem isPlain_of_isNumeric {c : Char} (h : isNumeric c = true) : IsPlain c := by
  unfold isNumeric at h
  split at h
  · exact isPlain_of_isDigit h
  · exact isPlain_of_inRanges _ (by decide +kernel) h

/-- A character of a name is plain. -/
theorem isPlain_of_isNameChar {c : Char} (h : isNameChar c = true) : IsPlain c := by
  simp only [isNameChar, isAlphanumeric, Bool.or_eq_true, beq_iff_eq] at h
  rcases h with (h | h) | rfl
  · exact isPlain_of_isAlphabetic h
  · exact isPlain_of_isNumeric h
  · decide

/-- A character of a number is plain. -/
theorem isPlain_of_next? {part next : NumberPart} {c : Char} (h : part.next? c = some next) :
    IsPlain c := by
  have hc : c.isDigit ∨ c = '.' ∨ c = 'e' ∨ c = 'E' ∨ c = '+' ∨ c = '-' := by
    unfold NumberPart.next? at h
    simp only [Decimal.isExponentMark, Bool.or_eq_true, beq_iff_eq] at h
    grind
  rcases hc with hc | rfl | rfl | rfl | rfl | rfl
  · exact isPlain_of_isDigit hc
  all_goals decide

/-- What is read in front of a text is read in front of the respaced one. -/
theorem takeNumber_respaced (part : NumberPart) (s : List Char) :
    takeNumber part (respaced .gap s) =
      ((takeNumber part s).1, (takeNumber part s).2.1, respaced .gap (takeNumber part s).2.2) := by
  induction s generalizing part with
  | nil => rfl
  | cons c s ih =>
    cases hnext : part.next? c with
    | some next =>
      rw [respaced_cons_of_plain s (isPlain_of_next? hnext)]
      simp [takeNumber, hnext, ih]
    | none =>
      have hread : takeNumber part (c :: s) = ([], part, c :: s) := by simp [takeNumber, hnext]
      rw [hread]
      -- the number ends at `c`, and a space in its place ends it as well
      rcases respaced_cons_head c s with hnil | ⟨d, rest, hd, hcons⟩
      · simp [hnil, takeNumber]
      · have hstop : part.next? d = none := by
          rcases hd with rfl | rfl
          · exact hnext
          · cases part <;> decide
        simp [hcons, takeNumber, hstop]

/-- A run of plain characters is the same after respacing, and what follows it is respaced. -/
theorem takeWhile_respaced {p : Char → Bool} (hp : ∀ c, p c = true → IsPlain c) (s : List Char) :
    (respaced .gap s).takeWhile p = s.takeWhile p ∧
      (respaced .gap s).dropWhile p = respaced .gap (s.dropWhile p) := by
  induction s with
  | nil => exact ⟨rfl, rfl⟩
  | cons c s ih =>
    cases hc : p c with
    | true =>
      rw [respaced_cons_of_plain s (hp c hc)]
      simp [hc, ih.1, ih.2]
    | false =>
      have hspace : p ' ' = false := by
        rw [Bool.eq_false_iff]
        exact fun h => absurd (hp ' ' h) (by decide)
      rcases respaced_cons_head c s with hnil | ⟨d, rest, hd, hcons⟩
      · simp [hnil, hc]
      · have hstop : p d = false := by
          rcases hd with rfl | rfl
          · exact hc
          · exact hspace
        simp [hcons, hc, hstop]

/-- Nothing but white space is another first character. -/
theorem head?_filter_respaced {p : Char → Bool} (hp : p ' ' = false)
    (hblank : ∀ c, p c = true → isBlank c = false) (s : List Char) :
    (respaced .gap s).head?.filter p = s.head?.filter p := by
  cases s with
  | nil => rfl
  | cons c s =>
    cases hc : p c with
    | true => simp [respaced_cons_of_not_blank s (hblank c hc)]
    | false =>
      rcases respaced_cons_head c s with hnil | ⟨d, rest, rfl | rfl, hcons⟩
      · simp [hnil, Option.filter, hc]
      · simp [hcons]
      · simp [hcons, Option.filter, hc, hp]

/-- A plain text is in front of a respaced text just where it is in front of the text. -/
theorem isPrefixOf_respaced {t : List Char} (ht : ∀ c ∈ t, IsPlain c) (s : List Char) :
    t.isPrefixOf (respaced .gap s) = t.isPrefixOf s := by
  induction t generalizing s with
  | nil => rfl
  | cons d t ih =>
    have hd : IsPlain d := ht d (by simp)
    cases s with
    | nil => rfl
    | cons c s =>
      by_cases hdc : d = c
      · subst hdc
        rw [respaced_cons_of_plain s hd]
        simp [ih fun c hc => ht c (by simp [hc])]
      · rcases respaced_cons_head c s with hnil | ⟨e, rest, rfl | rfl, hcons⟩
        · simp [hnil, List.isPrefixOf, beq_false_of_ne hdc]
        · simp [hcons, List.isPrefixOf, beq_false_of_ne hdc]
        · have hspace : d ≠ ' ' := by
            rintro rfl
            exact absurd hd (by decide)
          simp [hcons, List.isPrefixOf, beq_false_of_ne hdc, beq_false_of_ne hspace]

/-- Behind a plain text respacing goes on as in front of it. -/
theorem respaced_append {t : List Char} (ht : ∀ c ∈ t, IsPlain c) (s : List Char) :
    respaced .gap (t ++ s) = t ++ respaced .gap s := by
  induction t with
  | nil => rfl
  | cons c t ih =>
    rw [List.cons_append, respaced_cons_of_plain _ (ht c (by simp)),
      ih fun d hd => ht d (by simp [hd])]
    rfl

/-- Symbols are spelled with plain characters. -/
private theorem symbols_plain : ∀ symbol ∈ symbols, ∀ c ∈ symbol.spelling.toList, IsPlain c := by
  have hall : (symbols.all fun symbol =>
      symbol.spelling.toList.all fun c => decide (IsPlain c)) = true := by decide
  intro symbol hsymbol c hc
  exact of_decide_eq_true (List.all_eq_true.1 (List.all_eq_true.1 hall symbol hsymbol) c hc)

/-- The same symbol starts a text and its respaced form. -/
theorem symbolAt?_respaced (s : List Char) : symbolAt? (respaced .gap s) = symbolAt? s :=
  List.find?_congr fun symbol hsymbol => isPrefixOf_respaced (symbols_plain symbol hsymbol) s

/-- What a reader found in front of a text, with what follows respaced. -/
def respacedRest (found : Lexeme × List Char × List Char) : Lexeme × List Char × List Char :=
  (found.1, found.2.1, respaced .gap found.2.2)

/-- A number is read or refused alike wherever it stands. -/
theorem numberOf_placeless (column column' : Nat) (spelling : List Char) (last : NumberPart) :
    (numberOf column spelling last).mapError Error.placeless =
      (numberOf column' spelling last).mapError Error.placeless := by
  unfold numberOf
  split
  · split <;> rfl
  · split <;> rfl

/-- So is a number in front of respaced text. -/
theorem readNumber_respaced (column column' : Nat) (s : List Char) :
    (readNumber column (respaced .gap s)).mapError Error.placeless =
      ((readNumber column' s).map respacedRest).mapError Error.placeless := by
  have hplain : ∀ c, (isNameChar c || c == '.') = true → IsPlain c := by
    intro c hc
    rw [Bool.or_eq_true, beq_iff_eq] at hc
    rcases hc with hc | rfl
    · exact isPlain_of_isNameChar hc
    · decide
  have hspace : (isNameChar ' ' || ' ' == '.') = false := by
    rw [Bool.eq_false_iff]
    exact fun h => absurd (hplain ' ' h) (by decide)
  unfold readNumber
  rw [takeNumber_respaced]
  obtain ⟨spelling, last, rest⟩ := takeNumber .whole s
  dsimp only
  rw [head?_filter_respaced hspace fun c hc => (hplain c hc).1]
  split
  · rfl
  · have hmap (number : Except Error Lexeme) :
        (number >>= fun lexeme => pure (lexeme, spelling, rest)).map respacedRest =
          number >>= fun lexeme => pure (lexeme, spelling, respaced .gap rest) := by
      cases number <;> rfl
    rw [hmap]
    exact mapError_bind_congr (numberOf_placeless _ _ spelling last) fun _ => rfl

/-- A literal is read in front of a respaced text as in front of the text. -/
theorem readLexeme_respaced_of_isQuote (column column' : Nat) {c : Char} (s : List Char)
    (hquote : isQuote c = true) :
    (readLexeme column c (respaced (Standing.outside c) s)).mapError Error.placeless =
      ((readLexeme column' c s).map respacedRest).mapError Error.placeless := by
  -- a literal is read by `readText` alone, so the two readers of quotes have to agree
  obtain ⟨-, houtside⟩ := outside_of_isQuote hquote
  have hnumber (t : List Char) :
      (c.isDigit || (c == '.' && t.head?.any Char.isDigit)) = false := by
    rw [isQuote, Bool.or_eq_true, beq_iff_eq, beq_iff_eq] at hquote
    rcases hquote with rfl | rfl <;> rfl
  unfold readLexeme
  rw [houtside, hnumber, hnumber, hquote]
  cases h : readText c s with
  | none =>
    rw [respaced_of_readText_none h, h]
    rfl
  | some found =>
    obtain ⟨value, spelling, rest⟩ := found
    rw [respaced_of_readText h, readText_append h]
    rfl

/-- So is every other lexeme: white space ends it, if it was not at its end. -/
theorem readLexeme_respaced_of_isPlain (column column' : Nat) {c : Char} (s : List Char)
    (hplain : IsPlain c) :
    (readLexeme column c (respaced (Standing.outside c) s)).mapError Error.placeless =
      ((readLexeme column' c s).map respacedRest).mapError Error.placeless := by
  have hs : respaced (Standing.outside c) s = respaced .gap s := by
    rw [hplain.outside, respaced_word]
  have hcons : c :: respaced .gap s = respaced .gap (c :: s) :=
    (respaced_cons_of_plain s hplain).symm
  -- Only a point asks for the character behind it, and a digit there stays where it is.
  have hdigit : (respaced .gap s).head?.any Char.isDigit = s.head?.any Char.isDigit := by
    rw [← Option.isSome_filter, ← Option.isSome_filter,
      head?_filter_respaced (by decide) fun c hc => (isPlain_of_isDigit hc).1]
  unfold readLexeme
  rw [hs, hplain.2, hdigit, hcons]
  split
  · exact readNumber_respaced column column' (c :: s)
  · simp only [Bool.false_eq_true, if_false]
    split
    · obtain ⟨htake, hdrop⟩ := takeWhile_respaced (fun _ => isPlain_of_isNameChar) s
      rw [htake, hdrop]
      rfl
    · rw [symbolAt?_respaced]
      split
      · rename_i symbol hsymbol
        have hspelled := symbols_plain symbol (List.mem_of_find?_eq_some hsymbol)
        have hfront : symbol.spelling.toList <+: c :: s := by
          simpa using List.find?_some hsymbol
        obtain ⟨rest, hrest⟩ := hfront
        rw [← hrest, respaced_append hspelled]
        simp [Except.map, respacedRest]
      · rfl

/-- A reader finds the same lexeme in front of a respaced text, or fails alike. -/
theorem readLexeme_respaced (column column' : Nat) {c : Char} (s : List Char)
    (hc : isBlank c = false) :
    (readLexeme column c (respaced (Standing.outside c) s)).mapError Error.placeless =
      ((readLexeme column' c s).map respacedRest).mapError Error.placeless := by
  cases hquote : isQuote c with
  | true => exact readLexeme_respaced_of_isQuote column column' s hquote
  | false => exact readLexeme_respaced_of_isPlain column column' s ⟨hc, hquote⟩

/-! ## Tokens -/

/-- A blank is skipped. -/
theorem scan_cons_of_blank {c : Char} (h : isBlank c = true) (column : Nat) (s : List Char) :
    scan column (c :: s) = scan (column + 1) s := by
  rw [scan, if_pos h]

/-- A lexeme that is read makes a token, and scanning goes on behind it. -/
theorem scan_cons_of_readLexeme {c : Char} {s : List Char} {column : Nat} {lexeme : Lexeme}
    {spelling rest : List Char} (h : isBlank c = false)
    (hread : readLexeme column c s = .ok (lexeme, spelling, rest)) :
    scan column (c :: s) = do
      let later ← scan (column + spelling.length) rest
      return ⟨lexeme, spelling, column⟩ :: later := by
  rw [scan, h]
  simp only [Bool.false_eq_true, if_false]
  split
  · rename_i h'
    rw [hread] at h'
    cases h'
  · rename_i h'
    rw [hread] at h'
    cases h'
    rfl

/-- Scanning fails where a lexeme cannot be read. -/
theorem scan_cons_of_readLexeme_error {c : Char} {s : List Char} {column : Nat} {error : Error}
    (h : isBlank c = false) (hread : readLexeme column c s = .error error) :
    scan column (c :: s) = .error error := by
  rw [scan, h]
  simp only [Bool.false_eq_true, if_false]
  split
  · rename_i h'
    rw [hread] at h'
    cases h'
    rfl
  · rename_i h'
    rw [hread] at h'
    cases h'

/-- One more token keeps scans alike that are alike but for columns. -/
private theorem placelessTokens_cons {column column' : Nat} {lexeme : Lexeme}
    {spelling : List Char} {later later' : Except Error (List Token)}
    (h : placelessTokens later = placelessTokens later') :
    placelessTokens (later >>= fun tokens => pure (⟨lexeme, spelling, column⟩ :: tokens)) =
      placelessTokens (later' >>= fun tokens => pure (⟨lexeme, spelling, column'⟩ :: tokens)) := by
  cases later with
  | error e =>
    cases later' with
    | error e' => exact congrArg Except.error (Except.error.inj h)
    | ok tokens' => cases h
  | ok tokens =>
    cases later' with
    | error e' => cases h
    | ok tokens' =>
      have htokens : tokens.map Token.placeless = tokens'.map Token.placeless := Except.ok.inj h
      exact congrArg (fun ts => Except.ok (⟨lexeme, spelling, 0⟩ :: ts)) htokens

/-- A respaced text has the tokens of the text, at other columns. -/
theorem scan_respaced (column column' : Nat) (s : List Char) :
    placelessTokens (scan column (respaced .gap s)) = placelessTokens (scan column' s) := by
  fun_induction scan column' s generalizing column with
  | case1 => rw [respaced_nil, scan]
  | case2 column' c s hc ih =>
    rw [respaced_cons_of_blank s hc]
    rcases spaced_words s with h | h
    · rw [h, ih]
    · rw [h, scan_cons_of_blank (by decide), ih]
  | case3 column' c s hc error hread =>
    have hblank : isBlank c = false := by simpa using hc
    have hrespaced := readLexeme_respaced column column' s hblank
    rw [hread] at hrespaced
    obtain ⟨error', h, hsame⟩ := mapError_eq_error.1 hrespaced
    rw [respaced_cons_of_not_blank s hblank, scan_cons_of_readLexeme_error hblank h]
    exact congrArg Except.error hsame
  | case4 column' c s hc lexeme spelling rest hread ih =>
    have hblank : isBlank c = false := by simpa using hc
    have hrespaced := readLexeme_respaced column column' s hblank
    rw [hread] at hrespaced
    have h := mapError_eq_ok.1 hrespaced
    rw [respaced_cons_of_not_blank s hblank, scan_cons_of_readLexeme hblank h]
    exact placelessTokens_cons (ih _)

/-- Where a text starts shows in the columns only. -/
theorem scan_placeless (column column' : Nat) (s : List Char) :
    placelessTokens (scan column s) = placelessTokens (scan column' s) :=
  (scan_respaced 1 column s).symm.trans (scan_respaced 1 column' s)

/-- The words of a text with a space between each two have its tokens, at other columns. -/
theorem scan_intercalate_words (column column' : Nat) (s : List Char) :
    placelessTokens (scan column ([' '].intercalate (words s))) =
      placelessTokens (scan column' s) := by
  rw [← scan_respaced column column' s]
  rcases respaced_eq s with h | h
  · rw [h]
  · rw [h, scan_cons_of_blank (by decide)]
    exact scan_placeless _ _ _

end Stencil.Expr
