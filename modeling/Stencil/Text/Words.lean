import Stencil.Text.Blank

/-!
# Words

The inside of a marker is cut into words at white space, except that a quoted literal, from its
quote to the next one of the same kind that no backslash escapes, belongs to one word whatever it
holds. A quote may open in the middle of a word; one that never closes runs to the end.

`words` reads the text once, from left to right, and `Standing` is what it remembers.
-/

namespace Stencil.Text

/-- Where a reader of words stands. -/
inductive Standing where
  /-- Between words, or before the first. -/
  | gap
  /-- Inside a word and outside every quoted literal. -/
  | word
  /-- Inside a literal that `quote` opened. -/
  | literal (quote : Char)
  /-- Right behind a backslash inside a literal that `quote` opened. -/
  | escape (quote : Char)
  deriving DecidableEq, Repr

/-- Whether a character opens a quoted literal. -/
def isQuote (c : Char) : Bool := c == '\'' || c == '"'

/-- Where the reader stands after a character it met outside every literal. -/
def Standing.outside (c : Char) : Standing :=
  if isBlank c then .gap else if isQuote c then .literal c else .word

/-- Where the reader stands after one more character. -/
def Standing.next : Standing → Char → Standing
  | .gap, c | .word, c => outside c
  | .literal quote, c =>
    if c = '\\' then .escape quote else if c = quote then .word else .literal quote
  | .escape quote, _ => .literal quote

/-- A word in front of others, unless it is empty. -/
def prepend (word : List Char) (words : List (List Char)) : List (List Char) :=
  if word = [] then words else word :: words

/-- What is left of the word at hand, and the words after it. -/
def wordsFrom (at_ : Standing) : List Char → List Char × List (List Char)
  | [] => ([], [])
  | c :: s =>
    let (word, later) := wordsFrom (at_.next c) s
    if at_.next c = .gap then ([], prepend word later) else (c :: word, later)

/-- The words of a text. -/
def words (s : List Char) : List (List Char) :=
  let (word, later) := wordsFrom .gap s
  prepend word later

/-- No word is empty. -/
theorem ne_nil_of_mem_words {s w : List Char} (h : w ∈ words s) : w ≠ [] := by
  have aux (at_ : Standing) : ∀ w ∈ (wordsFrom at_ s).2, w ≠ [] := by
    clear h
    induction s generalizing at_ with
    | nil => simp [wordsFrom]
    | cons c s ih =>
      intro w hw
      simp only [wordsFrom] at hw
      split at hw
      · simp only [prepend] at hw
        split at hw
        · exact ih _ w hw
        · rcases List.mem_cons.1 hw with hw | hw
          · exact hw ▸ ‹_›
          · exact ih _ w hw
      · exact ih _ w hw
  simp only [words, prepend] at h
  split at h
  · exact aux _ w h
  · rcases List.mem_cons.1 h with h | h
    · exact h ▸ ‹_›
    · exact aux _ w h

/-- A text of white space has no words. -/
theorem words_eq_nil_of_blank {s : List Char} (h : ∀ c ∈ s, isBlank c) : words s = [] := by
  have aux (at_ : Standing) (hat : at_ = .gap ∨ at_ = .word) : wordsFrom at_ s = ([], []) := by
    induction s generalizing at_ with
    | nil => rfl
    | cons c s ih =>
      have hc : at_.next c = .gap := by
        have : isBlank c = true := h c (by simp)
        rcases hat with hat | hat <;> simp [hat, Standing.next, Standing.outside, this]
      simp [wordsFrom, hc, ih (fun d hd => h d (by simp [hd])) .gap (.inl rfl), prepend]
  simp [words, aux .gap (.inl rfl), prepend]

end Stencil.Text
