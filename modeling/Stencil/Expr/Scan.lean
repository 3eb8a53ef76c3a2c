import Stencil.Expr.Lexeme
import Stencil.Text.Letter
import Stencil.Text.Words

/-!
# Reading lexemes

An expression is cut into numbers, quoted texts, names and symbols; white space between them does
not count. Each reader takes a lexeme from the front of a text and returns how it was written and
what follows, and `eq_append_of_readLexeme` says that the two make up the text again. The column
of a token is therefore one more than the number of characters before it.
-/

namespace Stencil.Expr

open Text (isBlank isQuote isAlphabetic isAlphanumeric)

/-! ## Numbers -/

/-- The part of a number that is being read. -/
inductive NumberPart where
  /-- Digits before any point. -/
  | whole
  /-- Digits behind the point. -/
  | fraction
  /-- Right behind the mark of the exponent. -/
  | mark
  /-- The exponent behind its first character. -/
  | exponent
  deriving DecidableEq, Repr

/-- The part that a number goes on in with one more character, if the character belongs to it. A
sign stands only right behind the mark of the exponent. -/
def NumberPart.next? (part : NumberPart) (c : Char) : Option NumberPart :=
  match part with
  | .whole =>
    if c.isDigit then some .whole
    else if c = '.' then some .fraction
    else if Decimal.isExponentMark c then some .mark
    else none
  | .fraction =>
    if c.isDigit then some .fraction
    else if Decimal.isExponentMark c then some .mark
    else none
  | .mark => if c.isDigit ∨ c = '+' ∨ c = '-' then some .exponent else none
  | .exponent => if c.isDigit then some .exponent else none

/-- The characters that belong to a number, the part it ends in, and what follows it. -/
def takeNumber (part : NumberPart) : List Char → List Char × NumberPart × List Char
  | [] => ([], part, [])
  | c :: s =>
    match part.next? c with
    | some part =>
      let (spelling, last, rest) := takeNumber part s
      (c :: spelling, last, rest)
    | none => ([], part, c :: s)

/-- Whether a character may stand in a name. -/
def isNameChar (c : Char) : Bool := isAlphanumeric c || c == '_'

/-- The number that a spelling stands for: an integer where it has neither point nor exponent, and
a float otherwise. -/
def numberOf (column : Nat) (spelling : List Char) (last : NumberPart) : Except Error Lexeme :=
  if last = .whole then
    match Value.int64? (Nat.ofDigitChars 10 spelling 0) with
    | some n => .ok (.integer n)
    | none => .error (.overflow "integer literal")
  else
    match Decimal.ofText? spelling with
    | some d => .ok (.decimal d.toFloat)
    | none =>
      .error (.malformed ("invalid number literal '" ++ String.ofList spelling ++ "'") column)

/-- Reads a number. A letter or point directly behind it does not start another lexeme. -/
def readNumber (column : Nat) (s : List Char) : Except Error (Lexeme × List Char × List Char) :=
  let (spelling, last, rest) := takeNumber .whole s
  let next := rest.head?.filter fun c => isNameChar c || c == '.'
  match next with
  | some c =>
    .error (.malformed ("invalid number literal near '" ++ c.toString ++ "'")
      (column + spelling.length))
  | none => return (← numberOf column spelling last, spelling, rest)

/-! ## Texts -/

/-- What a character behind a backslash stands for. One without a meaning of its own keeps the
backslash. -/
def unescape : Char → List Char
  | 'n' => ['\n']
  | 't' => ['\t']
  | 'r' => ['\r']
  | '0' => ['\x00']
  | '\\' => ['\\']
  | '\'' => ['\'']
  | '"' => ['"']
  | c => ['\\', c]

/-- Reads a quoted text behind its opening quote, up to and with the closing one: its value, how it
is written, and what follows. There is none if the quote never closes. -/
def readText (quote : Char) : List Char → Option (List Char × List Char × List Char)
  | [] => none
  | '\\' :: [] => none
  | '\\' :: c :: s =>
    (readText quote s).map fun (value, spelling, rest) =>
      (unescape c ++ value, '\\' :: c :: spelling, rest)
  | c :: s =>
    if c = quote then some ([], [c], s)
    else (readText quote s).map fun (value, spelling, rest) => (c :: value, c :: spelling, rest)

/-! ## Any lexeme -/

/-- The symbol that a text starts with, the longest one if there are several. -/
def symbolAt? (s : List Char) : Option Symbol :=
  symbols.find? fun symbol => symbol.spelling.toList.isPrefixOf s

/-- Reads the lexeme that starts with the character `c`. -/
def readLexeme (column : Nat) (c : Char) (s : List Char) :
    Except Error (Lexeme × List Char × List Char) :=
  if c.isDigit || (c == '.' && s.head?.any Char.isDigit) then readNumber column (c :: s)
  else if isQuote c then
    match readText c s with
    | some (value, spelling, rest) => .ok (.text (String.ofList value), c :: spelling, rest)
    | none => .error (.malformed "unterminated string literal" column)
  else if isAlphabetic c || c == '_' then
    let spelling := c :: s.takeWhile isNameChar
    .ok (.name (String.ofList spelling), spelling, s.dropWhile isNameChar)
  else
    match symbolAt? (c :: s) with
    | some symbol =>
      let spelling := symbol.spelling.toList
      .ok (.symbol symbol, spelling, (c :: s).drop spelling.length)
    | none => .error (.malformed ("unexpected character '" ++ c.toString ++ "'") column)

theorem eq_append_of_takeNumber {part last : NumberPart} {s spelling rest : List Char}
    (h : takeNumber part s = (spelling, last, rest)) : s = spelling ++ rest := by
  induction s generalizing part spelling with
  | nil =>
    simp only [takeNumber, Prod.mk.injEq] at h
    simp [← h.1, ← h.2.2]
  | cons c s ih =>
    unfold takeNumber at h
    split at h
    · simp only [Prod.mk.injEq] at h
      obtain ⟨rfl, hlast, hrest⟩ := h
      exact congrArg (c :: ·) (ih (Prod.ext rfl (Prod.ext hlast hrest)))
    · simp only [Prod.mk.injEq] at h
      simp [← h.1, ← h.2.2]

theorem eq_append_of_readText {quote : Char} {s value spelling rest : List Char}
    (h : readText quote s = some (value, spelling, rest)) : s = spelling ++ rest := by
  fun_induction readText quote s generalizing value spelling with
  | case1 => simp at h
  | case2 => simp at h
  | case3 c s ih =>
    simp only [Option.map_eq_some_iff, Prod.mk.injEq, Prod.exists] at h
    obtain ⟨_, inner, _, hs, -, rfl, rfl⟩ := h
    simp [← ih hs]
  | case4 s =>
    simp only [Option.some.injEq, Prod.mk.injEq] at h
    simp [← h.2.1, ← h.2.2]
  | case5 c s _ _ _ ih =>
    simp only [Option.map_eq_some_iff, Prod.mk.injEq, Prod.exists] at h
    obtain ⟨_, inner, _, hs, -, rfl, rfl⟩ := h
    simp [← ih hs]

private theorem takeNumber_ne_nil {c : Char} {s rest : List Char} {spelling : List Char}
    {last : NumberPart} (hc : c.isDigit ∨ c = '.')
    (h : takeNumber .whole (c :: s) = (spelling, last, rest)) : spelling ≠ [] := by
  unfold takeNumber at h
  split at h
  · simp only [Prod.mk.injEq] at h
    simp [← h.1]
  · rename_i hn
    rcases hc with hc | hc <;> simp [NumberPart.next?, hc] at hn

private theorem symbols_spelled : ∀ symbol ∈ symbols, symbol.spelling.toList ≠ [] := by decide

/-- A lexeme and what follows it make up the text, and the lexeme is not empty. -/
theorem eq_append_of_readLexeme {column : Nat} {c : Char} {s spelling rest : List Char}
    {lexeme : Lexeme} (h : readLexeme column c s = .ok (lexeme, spelling, rest)) :
    c :: s = spelling ++ rest ∧ spelling ≠ [] := by
  unfold readLexeme at h
  split at h
  · rename_i hc
    have hc : c.isDigit ∨ c = '.' := by
      simp only [Bool.or_eq_true, Bool.and_eq_true, beq_iff_eq] at hc
      exact hc.imp id And.left
    simp only [readNumber] at h
    split at h
    · simp at h
    · cases hn : numberOf column (takeNumber .whole (c :: s)).1
          (takeNumber .whole (c :: s)).2.1 with
      | error e => simp [hn, bind, Except.bind] at h
      | ok l =>
        simp only [hn, bind, Except.bind, pure, Except.pure, Except.ok.injEq,
          Prod.mk.injEq] at h
        obtain ⟨-, rfl, rfl⟩ := h
        exact ⟨eq_append_of_takeNumber rfl, takeNumber_ne_nil hc rfl⟩
  · split at h
    · split at h
      · rename_i hs
        simp only [Except.ok.injEq, Prod.mk.injEq] at h
        obtain ⟨-, rfl, rfl⟩ := h
        exact ⟨congrArg (c :: ·) (eq_append_of_readText hs), by simp⟩
      · simp at h
    · split at h
      · simp only [Except.ok.injEq, Prod.mk.injEq] at h
        obtain ⟨-, rfl, rfl⟩ := h
        simp [List.takeWhile_append_dropWhile]
      · split at h
        · rename_i symbol hs
          simp only [Except.ok.injEq, Prod.mk.injEq] at h
          obtain ⟨-, rfl, rfl⟩ := h
          have hp : symbol.spelling.toList <+: c :: s := by simpa using List.find?_some hs
          refine ⟨?_, symbols_spelled _ (List.mem_of_find?_eq_some hs)⟩
          obtain ⟨rest, hrest⟩ := hp
          rw [← hrest, List.drop_left]
        · simp at h

/-- The tokens of a text whose first character stands in a column. -/
def scan (column : Nat) : List Char → Except Error (List Token)
  | [] => .ok []
  | c :: s =>
    if isBlank c then scan (column + 1) s
    else
      match _h : readLexeme column c s with
      | .error e => .error e
      | .ok (lexeme, spelling, rest) => do
        let later ← scan (column + spelling.length) rest
        return ⟨lexeme, spelling, column⟩ :: later
termination_by s => s.length
decreasing_by
  · simp
  · obtain ⟨heq, hne⟩ := eq_append_of_readLexeme _h
    have := congrArg List.length heq
    have := List.length_pos_iff.2 hne
    simp only [List.length_append] at *
    omega

end Stencil.Expr
