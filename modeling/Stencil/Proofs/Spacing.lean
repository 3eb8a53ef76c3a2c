import Stencil.Proofs.Evaluation

/-!
# White space between words

White space outside quoted literals separates words and has no other part in them. Where it stands
is said without a reader of words: a literal goes from a quote to the next one of its kind that no
backslash takes along (`IsLiteral`), or to the end where there is none (`IsOpenLiteral`), and
`Sheds` relates a text to what is left of it without its white space outside literals.

What a reader of words makes of a text in front of which no literal is open depends on that text
alone (`Outside.wordsFrom_congr`). Main statement: `words_spacing`, that the words of a text are
what is left of it, are their own words when they are joined, and do not depend on how much white
space stands between, before or behind them.
-/

namespace Stencil.Text

open Stencil.Expr (readText)

/-! ## Where white space separates words -/

/-- What follows the opening quote of a quoted literal, the closing one included. -/
inductive LiteralBody (quote : Char) : List Char → Prop
  | close : LiteralBody quote [quote]
  | escape (c : Char) {s : List Char} (h : LiteralBody quote s) : LiteralBody quote ('\\' :: c :: s)
  | char {c : Char} {s : List Char} (hc : c ≠ '\\') (hquote : c ≠ quote)
    (h : LiteralBody quote s) : LiteralBody quote (c :: s)

/-- What follows the opening quote of a quoted literal that never closes. -/
inductive OpenBody (quote : Char) : List Char → Prop
  | nil : OpenBody quote []
  | backslash : OpenBody quote ['\\']
  | escape (c : Char) {s : List Char} (h : OpenBody quote s) : OpenBody quote ('\\' :: c :: s)
  | char {c : Char} {s : List Char} (hc : c ≠ '\\') (hquote : c ≠ quote)
    (h : OpenBody quote s) : OpenBody quote (c :: s)

/-- A whole quoted literal. -/
def IsLiteral (s : List Char) : Prop :=
  ∃ quote body, isQuote quote = true ∧ s = quote :: body ∧ LiteralBody quote body

/-- A quoted literal that never closes. -/
def IsOpenLiteral (s : List Char) : Prop :=
  ∃ quote body, isQuote quote = true ∧ s = quote :: body ∧ OpenBody quote body

/-- The second text is the first one without its white space outside quoted literals. -/
inductive Sheds : List Char → List Char → Prop
  | nil : Sheds [] []
  | blank {c : Char} {s t : List Char} (hc : isBlank c = true) (h : Sheds s t) : Sheds (c :: s) t
  | plain {c : Char} {s t : List Char} (hc : IsPlain c) (h : Sheds s t) :
    Sheds (c :: s) (c :: t)
  | literal {l s t : List Char} (hl : IsLiteral l) (h : Sheds s t) : Sheds (l ++ s) (l ++ t)
  | openLiteral {l : List Char} (hl : IsOpenLiteral l) : Sheds l l

/-- No quoted literal is open at the end of a text. -/
inductive Outside : List Char → Prop
  | nil : Outside []
  | char {c : Char} {s : List Char} (hc : isQuote c = false) (h : Outside s) : Outside (c :: s)
  | literal {l s : List Char} (hl : IsLiteral l) (h : Outside s) : Outside (l ++ s)

/-- Some white space. -/
def IsSpace (s : List Char) : Prop := s ≠ [] ∧ ∀ c ∈ s, isBlank c = true

/-! ## Literals and their readers -/

private theorem quote_ne_backslash {quote : Char} (h : isQuote quote = true) : quote ≠ '\\' := by
  rintro rfl
  exact absurd h (by decide)

/-- A reader of literals reads a literal to its end, and fails on one that never closes. -/
theorem LiteralBody.readText {quote : Char} {s : List Char} (h : LiteralBody quote s)
    (hquote : isQuote quote = true) : ∃ value, readText quote s = some (value, s, []) := by
  induction h with
  | close =>
    have hne := quote_ne_backslash hquote
    exact ⟨[], by simp [Expr.readText, hne]⟩
  | escape c h ih =>
    obtain ⟨value, hvalue⟩ := ih
    exact ⟨_, by rw [Expr.readText, hvalue]; rfl⟩
  | @char c s hc hne h ih =>
    obtain ⟨value, hvalue⟩ := ih
    exact ⟨c :: value, by simp [Expr.readText, hc, hne, hvalue]⟩

/-- A literal that stays open cannot be read. -/
theorem OpenBody.readText {quote : Char} {s : List Char} (h : OpenBody quote s) :
    readText quote s = none := by
  induction h with
  | nil => rfl
  | backslash => rfl
  | escape c h ih => rw [Expr.readText, ih]; rfl
  | char hc hne h ih => simp [Expr.readText, hc, hne, ih]

/-- What a reader of literals reads is a literal, and what it fails on never closes. -/
theorem literalBody_of_readText {quote : Char} {s value spelling rest : List Char}
    (h : readText quote s = some (value, spelling, rest)) : LiteralBody quote spelling := by
  fun_induction readText quote s generalizing value spelling with
  | case1 => cases h
  | case2 => cases h
  | case3 c s ih =>
    obtain ⟨⟨value', spelling', rest'⟩, hs, heq⟩ := Option.map_eq_some_iff.1 h
    cases heq
    exact .escape c (ih hs)
  | case4 s hnil hcons =>
    cases h
    exact .close
  | case5 c s hnil hcons hc ih =>
    obtain ⟨⟨value', spelling', rest'⟩, hs, heq⟩ := Option.map_eq_some_iff.1 h
    cases heq
    refine .char ?_ hc (ih hs)
    rintro rfl
    cases s with
    | nil => exact hnil rfl rfl
    | cons d s => exact hcons d s rfl rfl

/-- Only a literal that stays open cannot be read. -/
theorem openBody_of_readText {quote : Char} {s : List Char} (h : readText quote s = none) :
    OpenBody quote s := by
  fun_induction readText quote s with
  | case1 => exact .nil
  | case2 => exact .backslash
  | case3 c s ih => exact .escape c (ih (Option.map_eq_none_iff.1 h))
  | case4 => cases h
  | case5 c s hnil hcons hc ih =>
    refine .char ?_ hc (ih (Option.map_eq_none_iff.1 h))
    rintro rfl
    cases s with
    | nil => exact hnil rfl rfl
    | cons d s => exact hcons d s rfl rfl

/-! ## One piece of a text -/

/-- White space in a gap is skipped. -/
theorem wordsFrom_blank {c : Char} (s : List Char) (hc : isBlank c = true) :
    wordsFrom .gap (c :: s) = ([], words s) :=
  wordsFrom_cons_gap s (outside_of_isBlank hc)

/-- A plain character goes on with the word behind it. -/
theorem wordsFrom_plain {c : Char} (s : List Char) (hc : IsPlain c) :
    wordsFrom .gap (c :: s) = (c :: (wordsFrom .gap s).1, (wordsFrom .gap s).2) := by
  have hnext : Standing.next .gap c = .word := hc.outside
  rw [wordsFrom_cons s (by simp [hnext]), hnext, wordsFrom_word]

/-- A literal goes on with the word behind it. -/
theorem wordsFrom_literal {l : List Char} (s : List Char) (hl : IsLiteral l) :
    wordsFrom .gap (l ++ s) = (l ++ (wordsFrom .gap s).1, (wordsFrom .gap s).2) := by
  obtain ⟨quote, body, hquote, rfl, hbody⟩ := hl
  obtain ⟨value, hvalue⟩ := hbody.readText hquote
  have hnext : Standing.next .gap quote = .literal quote := (Expr.outside_of_isQuote hquote).2
  rw [List.cons_append, wordsFrom_cons _ (by simp [hnext]), hnext,
    Expr.wordsFrom_of_readText (Expr.readText_append hvalue s)]
  rfl

/-- A literal that never closes is the word at hand to its end. -/
theorem wordsFrom_openLiteral {l : List Char} (hl : IsOpenLiteral l) :
    wordsFrom .gap l = (l, []) := by
  obtain ⟨quote, body, hquote, rfl, hbody⟩ := hl
  have hnext : Standing.next .gap quote = .literal quote := (Expr.outside_of_isQuote hquote).2
  rw [wordsFrom_cons _ (by simp [hnext]), hnext,
    Expr.wordsFrom_of_readText_none hbody.readText]

/-! ## What is left of a text -/

/-- The words of a text, written one after the other. -/
theorem flatten_words (s : List Char) :
    (words s).flatten = (wordsFrom .gap s).1 ++ (wordsFrom .gap s).2.flatten := by
  unfold words prepend
  dsimp only
  split
  · rename_i hnil
    rw [hnil, List.nil_append]
  · exact List.flatten_cons

/-- The words of a text are what is left of it. -/
theorem Sheds.eq_flatten_words {s t : List Char} (h : Sheds s t) : t = (words s).flatten := by
  induction h with
  | nil => rfl
  | blank hc h ih => rw [words_cons_of_blank _ hc, ih]
  | plain hc h ih =>
    rw [flatten_words, wordsFrom_plain _ hc, List.cons_append, ← flatten_words, ih]
  | literal hl h ih =>
    rw [flatten_words, wordsFrom_literal _ hl, List.append_assoc, ← flatten_words, ih]
  | openLiteral hl => simp [flatten_words, wordsFrom_openLiteral hl]

/-- Something is left of every text. -/
theorem exists_sheds (s : List Char) : ∃ t, Sheds s t := by
  fun_induction Expr.literals s with
  | case1 => exact ⟨[], .nil⟩
  | case2 c s hc value spelling rest h ih =>
    obtain ⟨t, ht⟩ := ih
    rw [Expr.eq_append_of_readText h]
    exact ⟨_, .literal ⟨c, spelling, hc, rfl, literalBody_of_readText h⟩ ht⟩
  | case3 c s hc h => exact ⟨_, .openLiteral ⟨c, s, hc, rfl, openBody_of_readText h⟩⟩
  | case4 c s hc ih =>
    obtain ⟨t, ht⟩ := ih
    cases hblank : isBlank c with
    | true => exact ⟨t, .blank hblank ht⟩
    | false => exact ⟨c :: t, .plain ⟨hblank, by simpa using hc⟩ ht⟩

/-- What sheds white space sheds exactly what stands between the words. -/
theorem sheds_iff (s t : List Char) : Sheds s t ↔ t = (words s).flatten := by
  refine ⟨Sheds.eq_flatten_words, ?_⟩
  rintro rfl
  obtain ⟨t, ht⟩ := exists_sheds s
  rwa [← ht.eq_flatten_words]

/-! ## Words that are joined -/

/-- The words of a respaced text are those of its words with a space between each two. -/
theorem words_intercalate_words_eq (s : List Char) :
    words ([' '].intercalate (words s)) = words (respaced .gap s) := by
  rcases respaced_eq s with h | h
  · rw [h]
  · rw [h, words_cons_of_blank _ (by decide)]

/-- A reader of words makes the same of a text when it is respaced. -/
theorem wordsFrom_respaced (at_ : Standing) (s : List Char) :
    wordsFrom at_ (respaced at_ s) = wordsFrom at_ s := by
  induction s generalizing at_ with
  | nil => rfl
  | cons c s ih =>
    by_cases hnext : at_.next c = .gap
    · -- behind white space the text is respaced with a space in front of each word, or of each
      -- word but the first where the text starts with one
      have hwords : words (respaced .gap s) = words s := by rw [words, ih, ← words]
      have hspace : at_.next ' ' = .gap := by
        cases at_ with
        | gap => rfl
        | word => rfl
        | literal quote =>
          simp only [Standing.next] at hnext
          split at hnext
          · cases hnext
          · split at hnext <;> cases hnext
        | escape quote => cases hnext
      have hrespaced : respaced at_ (c :: s) = spaced (words s) := by
        rw [respaced, wordsFrom_cons_gap s hnext, List.nil_append]
      rw [hrespaced, wordsFrom_cons_gap s hnext]
      cases hs : words s with
      | nil => rfl
      | cons w ws =>
        have hspaced : spaced (w :: ws) = ' ' :: [' '].intercalate (w :: ws) := by
          rw [intercalate_cons_eq]
          rfl
        rw [hspaced, wordsFrom_cons_gap _ hspace, ← hs, words_intercalate_words_eq, hwords]
    · rw [respaced_cons s hnext, wordsFrom_cons _ hnext, ih, wordsFrom_cons _ hnext]

/-- Words that are joined by single spaces are their own words. -/
theorem words_intercalate_words (s : List Char) :
    words ([' '].intercalate (words s)) = words s := by
  rw [words_intercalate_words_eq, words, wordsFrom_respaced, ← words]

/-! ## White space that is exchanged -/

/-- Behind a text that leaves no literal open, words depend on what a reader makes of the rest from
a gap. -/
theorem Outside.wordsFrom_congr {s t t' : List Char} (hs : Outside s)
    (h : wordsFrom .gap t = wordsFrom .gap t') :
    wordsFrom .gap (s ++ t) = wordsFrom .gap (s ++ t') := by
  induction hs with
  | nil => exact h
  | @char c s hc hs ih =>
    cases hblank : isBlank c with
    | true =>
      rw [List.cons_append, List.cons_append, wordsFrom_blank _ hblank, wordsFrom_blank _ hblank,
        words, ih, ← words]
    | false =>
      have hplain : IsPlain c := ⟨hblank, hc⟩
      rw [List.cons_append, List.cons_append, wordsFrom_plain _ hplain, wordsFrom_plain _ hplain,
        ih]
  | literal hl hs ih =>
    rw [List.append_assoc, List.append_assoc, wordsFrom_literal _ hl, wordsFrom_literal _ hl, ih]

/-- White space in front of a text is in none of its words. -/
theorem words_blank_append {run : List Char} (hrun : ∀ c ∈ run, isBlank c = true)
    (s : List Char) : words (run ++ s) = words s := by
  induction run with
  | nil => rfl
  | cons c run ih =>
    obtain ⟨hc, hrun⟩ := List.forall_mem_cons.1 hrun
    rw [List.cons_append, words_cons_of_blank _ hc, ih hrun]

/-- White space ends the word at hand, however much there is. -/
theorem IsSpace.wordsFrom_append {run : List Char} (hrun : IsSpace run) (s : List Char) :
    wordsFrom .gap (run ++ s) = ([], words s) := by
  obtain ⟨hne, hblank⟩ := hrun
  cases run with
  | nil => exact absurd rfl hne
  | cons c run =>
    obtain ⟨hc, hrun⟩ := List.forall_mem_cons.1 hblank
    rw [List.cons_append, wordsFrom_blank _ hc, words_blank_append hrun]

/-- White space outside literals can be exchanged for other white space. -/
theorem Outside.words_exchange {pre run run' : List Char} (hpre : Outside pre)
    (hrun : IsSpace run) (hrun' : IsSpace run') (post : List Char) :
    words (pre ++ run' ++ post) = words (pre ++ run ++ post) := by
  have hsame : wordsFrom .gap (run' ++ post) = wordsFrom .gap (run ++ post) := by
    rw [hrun'.wordsFrom_append, hrun.wordsFrom_append]
  rw [List.append_assoc, List.append_assoc, words, hpre.wordsFrom_congr hsame, ← words]

/-- White space behind a text that leaves no literal open is in none of its words. -/
theorem Outside.words_append_blank {s run : List Char} (hs : Outside s)
    (hrun : ∀ c ∈ run, isBlank c = true) : words (s ++ run) = words s := by
  have hsame : wordsFrom .gap run = wordsFrom .gap [] := by
    cases run with
    | nil => rfl
    | cons c run =>
      obtain ⟨hc, hrun⟩ := List.forall_mem_cons.1 hrun
      rw [wordsFrom_blank _ hc, words_eq_nil_of_blank hrun]
      rfl
  have hwords := hs.wordsFrom_congr hsame
  rw [List.append_nil] at hwords
  rw [words, hwords, ← words]

/-- The words of a text are not empty and are, one after the other, what is left of it without its
white space outside quoted literals; joined by single spaces they have themselves as words; and
white space outside literals may be exchanged for other, be put in front of the text or taken away
there, and behind it where no literal is open. -/
theorem words_spacing (s : List Char) :
    (∀ w ∈ words s, w ≠ []) ∧
      (∀ t, Sheds s t ↔ t = (words s).flatten) ∧
      words ([' '].intercalate (words s)) = words s ∧
      (∀ pre run run' post, s = pre ++ run ++ post → Outside pre → IsSpace run → IsSpace run' →
        words (pre ++ run' ++ post) = words s) ∧
      ∀ run, (∀ c ∈ run, isBlank c = true) →
        words (run ++ s) = words s ∧ (Outside s → words (s ++ run) = words s) := by
  refine ⟨fun w => ne_nil_of_mem_words, sheds_iff s, words_intercalate_words s, ?_, ?_⟩
  · rintro pre run run' post rfl hpre hrun hrun'
    exact hpre.words_exchange hrun hrun' post
  · intro run hrun
    exact ⟨words_blank_append hrun s, fun hs => hs.words_append_blank hrun⟩

/-- A tab behind a literal with an escaped quote and two spaces in it, and a literal that never
closes behind that. -/
theorem words_spacing_open_literal :
    Outside "'a\\'  b'".toList ∧ IsSpace ['\t'] ∧ IsSpace [' ', '\n'] ∧
      words ("'a\\'  b'".toList ++ [' ', '\n'] ++ "c\"  d".toList)
        = words "'a\\'  b'\tc\"  d".toList := by
  have hliteral : IsLiteral "'a\\'  b'".toList :=
    ⟨'\'', "a\\'  b'".toList, by decide, by decide,
      .char (by decide) (by decide) (.escape _ (.char (by decide) (by decide)
        (.char (by decide) (by decide) (.char (by decide) (by decide) .close))))⟩
  have houtside : Outside "'a\\'  b'".toList := by simpa using Outside.literal hliteral .nil
  have htab : IsSpace ['\t'] := ⟨by simp, List.forall_mem_singleton.2 (by decide)⟩
  have hspace : IsSpace [' ', '\n'] := ⟨by simp, List.forall_mem_cons.2
    ⟨by decide, List.forall_mem_singleton.2 (by decide)⟩⟩
  exact ⟨houtside, htab, hspace,
    (words_spacing "'a\\'  b'\tc\"  d".toList).2.2.2.1 _ ['\t'] _ "c\"  d".toList (by decide)
      houtside htab hspace⟩

end Stencil.Text
