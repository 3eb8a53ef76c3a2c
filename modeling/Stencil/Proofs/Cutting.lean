import Mathlib.Data.List.TakeWhile
import Mathlib.Tactic.IntervalCases
import Mathlib.Tactic.Linarith
import Mathlib.Tactic.Positivity
import Stencil.Json.Reader
import Stencil.Json.Writer

/-!
# Cutting what is written

A datum is written as its lexemes one after the other (`Datum.lexemes`), and the cutting machine
finds these again. What a text is cut into does not depend on the lexemes before it, and a mark ends
what stands before it (`Cuts.mark`), so lists and objects are cut part by part. Two kinds of lexeme
have characters of their own. Words hold none at which the machine stops (`cuts_word`), and of a
text every character comes back from its escape (`foldlM_writeChar`).

A word of digits is read as the number that was written if that has 64 bits, with or without a sign
(`wordOf?_integerText`). Floats and larger numbers are left out by `Datum.Plain`.

Main statement: `Datum.Plain.lexemes?_write`.
-/

namespace Stencil.Json

/-! ## Whole numbers -/

/-- The digits of a number start with a zero only if it is zero. -/
theorem head?_toDigits_ne {n : Nat} (h : n ≠ 0) : (Nat.toDigits 10 n).head? ≠ some '0' := by
  induction n using Nat.strong_induction_on with
  | _ n ih =>
    rw [Nat.toDigits_eq_if (by decide)]
    split
    · interval_cases n
      · contradiction
      all_goals decide
    · -- the first digit is that of a tenth of the number
      rw [List.head?_append_of_ne_nil _ Nat.toDigits_ne_nil]
      exact ih (n / 10) (by omega) (by omega)

/-- A number is written without a zero in front. -/
theorem isCanonical_toDigits (n : Nat) : isCanonical (Nat.toDigits 10 n) = true := by
  by_cases h : n = 0
  · subst h
    rfl
  · have hne := head?_toDigits_ne h
    unfold isCanonical
    split
    · rename_i hnil
      exact absurd hnil Nat.toDigits_ne_nil
    · rfl
    · rename_i hcons
      rw [hcons] at hne
      simpa using hne

/-- Digits are gathered as the number that they are, if that fits. -/
theorem gather_eq {digits : List Char} {n : Nat} (h : Nat.ofDigitChars 10 digits n < 2 ^ 64) :
    Numeral.gather n digits = (Nat.ofDigitChars 10 digits n, 0) := by
  induction digits generalizing n with
  | nil => rfl
  | cons d digits ih =>
    rw [Nat.ofDigitChars_cons] at h ⊢
    -- the digits that follow do not make the number smaller
    have hle : 10 * n + (d.toNat - '0'.toNat) < 2 ^ 64 := by
      refine lt_of_le_of_lt ?_ h
      rw [Nat.ofDigitChars_eq_ofDigitChars_zero]
      have hpos : 0 < 10 ^ digits.length := by positivity
      nlinarith
    rw [Numeral.gather]
    simp only [hle, if_true]
    exact ih h

theorem isDigit_toDigits {n : Nat} {c : Char} (h : c ∈ Nat.toDigits 10 n) : c.isDigit = true :=
  Nat.isDigit_of_mem_toDigits (by decide) (by decide) h

/-- A whole number is written as a numeral without fraction and exponent. -/
theorem ofText?_integerText (n : Int) :
    Numeral.ofText? (Value.integerText n)
      = some ⟨decide (n < 0), Nat.toDigits 10 n.natAbs, [], none⟩ := by
  have hdigits : ∀ c ∈ Nat.toDigits 10 n.natAbs, c.isDigit = true := fun c => isDigit_toDigits
  have htake := List.takeWhile_eq_self_iff.2 hdigits
  have hdrop := List.dropWhile_eq_nil_iff.2 hdigits
  unfold Numeral.ofText? Value.integerText
  split
  · rename_i hneg
    simp [htake, hdrop, hneg, Numeral.fractionOf?, Numeral.exponentOf?, isCanonical_toDigits]
  · rename_i hpos
    have hhead : (Nat.toDigits 10 n.natAbs).head? ≠ some '-' := by
      intro hhead
      have := hdigits _ (List.mem_of_head? hhead)
      contradiction
    simp [htake, hdrop, hpos, hhead, Numeral.fractionOf?, Numeral.exponentOf?, isCanonical_toDigits]

/-- A number of 64 bits, with or without a sign, is read as it was written. -/
theorem number?_integer {n : Int} (hlow : -2 ^ 63 ≤ n) (hhigh : n < 2 ^ 64) :
    Numeral.number? ⟨decide (n < 0), Nat.toDigits 10 n.natAbs, [], none⟩ = some (.whole n) := by
  have hgather : Numeral.gather 0 (Nat.toDigits 10 n.natAbs) = (n.natAbs, 0) := by
    rw [gather_eq] <;> rw [Nat.ofDigitChars_ten_toDigits]
    omega
  unfold Numeral.number?
  simp only [hgather, Numeral.gather, and_self, if_true]
  by_cases hneg : n < 0
  · have hfits : 0 < n.natAbs ∧ n.natAbs ≤ 2 ^ 63 := by omega
    have habs : -(n.natAbs : Int) = n := by omega
    rw [if_neg (by simp [hneg]), if_pos hfits, habs]
  · have habs : (n.natAbs : Int) = n := by omega
    rw [if_pos (by simpa using hneg), habs]

/-- The characters of a whole number. -/
theorem mem_integerText {n : Int} {c : Char} (h : c ∈ Value.integerText n) :
    c = '-' ∨ c.isDigit = true := by
  rcases List.mem_append.1 h with hsign | hdigit
  · refine .inl ?_
    split at hsign
    · exact List.mem_singleton.1 hsign
    · cases hsign
  · exact .inr (isDigit_toDigits hdigit)

/-- No name is a number. -/
theorem integerText_ne {n : Int} {c : Char} {name : List Char} (hmem : c ∈ name) (hdash : c ≠ '-')
    (hdigit : c.isDigit = false) : Value.integerText n ≠ name := by
  rintro rfl
  rcases mem_integerText hmem with rfl | hc
  · exact hdash rfl
  · rw [hdigit] at hc
    cases hc

/-- The word that an integer is written as stands for it. -/
theorem wordOf?_integerText {n : Int} (hlow : -2 ^ 63 ≤ n) (hhigh : n < 2 ^ 64) :
    wordOf? (Value.integerText n) = some (.number (.whole n)) := by
  have hnull : Value.integerText n ≠ ['n', 'u', 'l', 'l'] :=
    integerText_ne (c := 'u') (by decide) (by decide) (by decide)
  have htrue : Value.integerText n ≠ ['t', 'r', 'u', 'e'] :=
    integerText_ne (c := 'e') (by decide) (by decide) (by decide)
  have hfalse : Value.integerText n ≠ ['f', 'a', 'l', 's', 'e'] :=
    integerText_ne (c := 'e') (by decide) (by decide) (by decide)
  rw [wordOf?, if_neg hnull, if_neg htrue, if_neg hfalse, ofText?_integerText, Option.map_some,
    number?_integer hlow hhigh]

/-! ## Words -/

/-- A character that neither ends a word nor starts a text. -/
def Inner (c : Char) : Prop := c ≠ '"' ∧ isGap c = false ∧ markOf? c = none

instance (c : Char) : Decidable (Inner c) := inferInstanceAs (Decidable (_ ∧ _ ∧ _))

/-- No character of it ends a word. -/
theorem inner_of_integerText {n : Int} {c : Char} (h : c ∈ Value.integerText n) : Inner c := by
  rcases mem_integerText h with rfl | hdigit
  · decide
  · refine ⟨?_, ?_, ?_⟩
    · rintro rfl
      contradiction
    · rw [Bool.eq_false_iff]
      intro hgap
      simp only [isGap, Bool.or_eq_true, beq_iff_eq] at hgap
      obtain ((rfl | rfl) | rfl) | rfl := hgap
      all_goals contradiction
    · unfold markOf?
      split
      all_goals first | rfl | contradiction

namespace Cutter

/-- Behind the word at hand, if there is one, the lexemes are `lexemes`, last first. -/
def Ends (cutter : Cutter) (lexemes : List Lexeme) : Prop :=
  ∃ chars, cutter.inside = .word chars ∧ cutter.endWord chars = some ⟨.word [], lexemes⟩

theorem foldlM_read_cons {cutter cutter' : Cutter} {c : Char} (h : cutter.read c = some cutter')
    (s : List Char) : (c :: s).foldlM read cutter = s.foldlM read cutter' := by
  rw [List.foldlM_cons, h]
  rfl

/-- Reading goes on where a text leads. -/
theorem foldlM_read_append {cutter cutter' : Cutter} {s : List Char}
    (h : s.foldlM read cutter = some cutter') (t : List Char) :
    (s ++ t).foldlM read cutter = t.foldlM read cutter' := by
  rw [List.foldlM_append, h]
  rfl

/-- Where no word is at hand the lexemes are complete. -/
theorem ends_gap (lexemes : List Lexeme) : (⟨.word [], lexemes⟩ : Cutter).Ends lexemes :=
  ⟨[], rfl, rfl⟩

/-- A mark ends the word before it. -/
theorem Ends.read_mark {cutter : Cutter} {lexemes : List Lexeme} (h : cutter.Ends lexemes)
    {c : Char} {m : Mark} (hmark : markOf? c = some m) :
    cutter.read c = some ⟨.word [], .mark m :: lexemes⟩ := by
  obtain ⟨chars, hinside, hend⟩ := h
  have hquote : c ≠ '"' := by
    rintro rfl
    cases hmark
  have hgap : isGap c = false := by
    unfold markOf? at hmark
    split at hmark
    all_goals first | rfl | cases hmark
  simp [read, hinside, readWord, hquote, hgap, hmark, hend, push]

/-- The end of a text ends the word before it. -/
theorem Ends.finish {cutter : Cutter} {lexemes : List Lexeme} (h : cutter.Ends lexemes) :
    cutter.finish = some lexemes.reverse := by
  obtain ⟨chars, hinside, hend⟩ := h
  simp [Cutter.finish, hinside, hend]

/-- The characters of a word are collected. -/
theorem foldlM_word {word : List Char} (hword : ∀ c ∈ word, Inner c) (chars : List Char)
    (lexemes : List Lexeme) :
    word.foldlM read ⟨.word chars, lexemes⟩ = some ⟨.word (word.reverse ++ chars), lexemes⟩ := by
  induction word generalizing chars with
  | nil => rfl
  | cons c word ih =>
    obtain ⟨hquote, hgap, hmark⟩ := hword c List.mem_cons_self
    have hread : read ⟨.word chars, lexemes⟩ c = some ⟨.word (c :: chars), lexemes⟩ := by
      simp [read, readWord, hquote, hgap, hmark]
    rw [foldlM_read_cons hread, List.reverse_cons, List.append_assoc]
    exact ih (fun d hd => hword d (List.mem_cons_of_mem _ hd)) _

end Cutter

/-- A text is cut into lexemes, wherever it starts between others. -/
def Cuts (s : List Char) (lexemes : List Lexeme) : Prop :=
  ∀ before, ∃ cutter : Cutter,
    s.foldlM Cutter.read ⟨.word [], before⟩ = some cutter ∧
      cutter.Ends (lexemes.reverse ++ before)

/-- A text that is cut into lexemes anywhere is by itself. -/
theorem Cuts.lexemes? {s : List Char} {lexemes : List Lexeme} (h : Cuts s lexemes) :
    Json.lexemes? s = some lexemes := by
  obtain ⟨cutter, hread, hends⟩ := h []
  rw [Json.lexemes?, hread, Option.bind_some, hends.finish, List.append_nil, List.reverse_reverse]

theorem cuts_nil : Cuts [] [] := fun before => ⟨_, rfl, Cutter.ends_gap before⟩

/-- Texts with a mark between them are cut by themselves. -/
theorem Cuts.mark {s t : List Char} {lexemes later : List Lexeme} (h : Cuts s lexemes)
    (ht : Cuts t later) {c : Char} {m : Mark} (hmark : markOf? c = some m) :
    Cuts (s ++ c :: t) (lexemes ++ .mark m :: later) := by
  intro before
  obtain ⟨cutter, hread, hends⟩ := h before
  obtain ⟨cutter', hread', hends'⟩ := ht (.mark m :: (lexemes.reverse ++ before))
  refine ⟨cutter', ?_, ?_⟩
  · rw [Cutter.foldlM_read_append hread, Cutter.foldlM_read_cons (hends.read_mark hmark), hread']
  · simpa using hends'

/-- A word is cut off as a whole. -/
theorem cuts_word {word : List Char} {datum : Datum} (hword : ∀ c ∈ word, Inner c)
    (hdatum : wordOf? word = some datum) : Cuts word [.word datum] := by
  intro before
  refine ⟨_, Cutter.foldlM_word hword [] before, word.reverse, by simp, ?_⟩
  have hne : word.reverse ≠ [] := by
    rw [Ne, List.reverse_eq_nil_iff]
    rintro rfl
    cases hdatum
  cases hword' : word.reverse with
  | nil => exact absurd hword' hne
  | cons c chars =>
    rw [Cutter.endWord, ← hword', List.reverse_reverse, hdatum]
    · rfl
    · simp

/-! ## Texts -/

/-- A letter behind a backslash is read as the character for which it was written. -/
theorem escaped?_escapeLetter? {c letter : Char} (h : escapeLetter? c = some letter) :
    letter ≠ 'u' ∧ escaped? letter = some c := by
  unfold escapeLetter? at h
  split at h
  all_goals first | (cases h; decide) | cases h

/-- A hexadecimal digit has the value that it is written for. -/
theorem hexValue?_digitChar : ∀ d < 16, hexValue? (Nat.digitChar d) = some d := by decide

namespace Cutter

/-- Every character of a text comes back as its code. -/
theorem foldlM_writeChar (c : Char) (codes : List Nat) (lexemes : List Lexeme) :
    (writeChar c).foldlM read ⟨.text codes, lexemes⟩
      = some ⟨.text (c.toNat :: codes), lexemes⟩ := by
  unfold writeChar
  split
  · rename_i letter hletter
    obtain ⟨hu, hescaped⟩ := escaped?_escapeLetter? hletter
    simp [read, hu, hescaped]
  · rename_i hnone
    split
    · -- only the last two digits of the code of a control can be other than zero
      rename_i hcontrol
      have hcode : c.toNat < 32 := hcontrol
      have hhigh := hexValue?_digitChar (c.toNat / 16) (by omega)
      have hlow := hexValue?_digitChar (c.toNat % 16) (by omega)
      have hzero : hexValue? '0' = some 0 := by decide
      have hdigits : 16 * (c.toNat / 16) + c.toNat % 16 = c.toNat := Nat.div_add_mod _ _
      simp [read, hzero, hhigh, hlow, hdigits]
    · rename_i hplain
      have hquote : c ≠ '"' := by
        rintro rfl
        cases hnone
      have hslash : c ≠ '\\' := by
        rintro rfl
        cases hnone
      simp [read, hquote, hslash, hplain]

/-- The characters of a written text are read back one by one. -/
theorem foldlM_writeText (s : List Char) (codes : List Nat) (lexemes : List Lexeme) :
    (s.flatMap writeChar).foldlM read ⟨.text codes, lexemes⟩
      = some ⟨.text ((s.map Char.toNat).reverse ++ codes), lexemes⟩ := by
  induction s generalizing codes with
  | nil => rfl
  | cons c s ih =>
    rw [List.flatMap_cons, foldlM_read_append (foldlM_writeChar c codes lexemes), ih]
    simp

end Cutter

/-- The code of a character is no half of a surrogate pair. -/
theorem not_half (c : Char) : isHigh c.toNat = false ∧ isLow c.toNat = false := by
  have hvalid : c.toNat < 0xD800 ∨ 0xDFFF < c.toNat ∧ c.toNat < 0x110000 := c.valid
  simp only [isHigh, isLow, Bool.and_eq_false_iff, decide_eq_false_iff_not]
  omega

/-- The codes of characters are read as these. -/
theorem charsOf?_map_toNat (s : List Char) : charsOf? (s.map Char.toNat) = some s := by
  induction s with
  | nil => rfl
  | cons c s ih =>
    obtain ⟨hhigh, hlow⟩ := not_half c
    cases s with
    | nil => simp [charsOf?, hhigh, hlow]
    | cons d s => simp_all [charsOf?]

/-- A written text is one lexeme. -/
theorem cuts_writeText (s : String) : Cuts (writeText s) [.text (some s)] := by
  intro before
  refine ⟨⟨.word [], .text (some s) :: before⟩, ?_, Cutter.ends_gap _⟩
  have hopen : Cutter.read ⟨.word [], before⟩ '"' = some ⟨.text [], before⟩ := rfl
  have hbody := Cutter.foldlM_writeText s.toList [] before
  have hclose (codes : List Nat) : Cutter.read ⟨.text codes, before⟩ '"'
      = some ⟨.word [], .text ((charsOf? codes.reverse).map String.ofList) :: before⟩ := rfl
  rw [writeText, List.cons_append, Cutter.foldlM_read_cons hopen, Cutter.foldlM_read_append hbody,
    Cutter.foldlM_read_cons (hclose _)]
  simp [charsOf?_map_toNat]

/-! ## Data -/

/-- Data whose numbers are whole and have 64 bits, with or without a sign, and that have a value. -/
inductive Datum.Plain : Datum → Prop
  | null : Plain .null
  | bool (b : Bool) : Plain (.bool b)
  | whole {n : Int} (hlow : -2 ^ 63 ≤ n) (hhigh : n < 2 ^ 64) : Plain (.number (.whole n))
  | text (s : String) : Plain (.text s)
  | list {items : List Datum} (hitems : ∀ item ∈ items, Plain item) : Plain (.list items)
  | object {members : List (String × Datum)} (hmembers : ∀ member ∈ members, Plain member.2) :
    Plain (.object members)

mutual

/-- The lexemes that spell a datum. -/
def Datum.lexemes : Datum → List Lexeme
  | .text s => [.text (some s)]
  | .list items => .mark .beginList :: (itemLexemes items ++ [.mark .endList])
  | .object members => .mark .beginObject :: (memberLexemes members ++ [.mark .endObject])
  | word => [.word word]

/-- Items with commas between them. -/
def itemLexemes : List Datum → List Lexeme
  | [] => []
  | [item] => item.lexemes
  | item :: next :: items => item.lexemes ++ .mark .comma :: itemLexemes (next :: items)

/-- Members with commas between them. -/
def memberLexemes : List (String × Datum) → List Lexeme
  | [] => []
  | [(name, item)] => .text (some name) :: .mark .colon :: item.lexemes
  | (name, item) :: next :: members =>
    .text (some name) :: .mark .colon ::
      (item.lexemes ++ .mark .comma :: memberLexemes (next :: members))

end

/-- Written items are cut into their lexemes with commas between them. -/
theorem cuts_writeItems {items : List Datum} (h : ∀ item ∈ items, Cuts item.write item.lexemes) :
    Cuts (writeItems items) (itemLexemes items) := by
  induction items with
  | nil => exact cuts_nil
  | cons item items ih =>
    have hitem := h item List.mem_cons_self
    cases items with
    | nil => exact hitem
    | cons next items =>
      exact hitem.mark (ih fun item hitem => h item (List.mem_cons_of_mem _ hitem)) rfl

/-- A member is a text and its datum with a colon between them. -/
theorem Cuts.member {item : Datum} (h : Cuts item.write item.lexemes) (name : String) :
    Cuts (writeText name ++ ':' :: item.write)
      (.text (some name) :: .mark .colon :: item.lexemes) :=
  (cuts_writeText name).mark h rfl

/-- So are written members, each behind its name. -/
theorem cuts_writeMembers {members : List (String × Datum)}
    (h : ∀ member ∈ members, Cuts member.2.write member.2.lexemes) :
    Cuts (writeMembers members) (memberLexemes members) := by
  induction members with
  | nil => exact cuts_nil
  | cons member members ih =>
    obtain ⟨name, item⟩ := member
    have hmember := (h (name, item) List.mem_cons_self).member name
    cases members with
    | nil => exact hmember
    | cons next members =>
      exact hmember.mark (ih fun member hmem => h member (List.mem_cons_of_mem _ hmem)) rfl

/-- What is written for a datum is cut into its lexemes. -/
theorem Datum.Plain.cuts_write {d : Datum} (h : d.Plain) : Cuts d.write d.lexemes := by
  induction h with
  | null =>
    have hinner : ∀ c ∈ ['n', 'u', 'l', 'l'], Inner c := by simp [Inner, isGap, markOf?]
    exact cuts_word hinner rfl
  | bool b =>
    have hinner : ∀ c ∈ writeBool b, Inner c := by
      cases b <;> simp [writeBool, Inner, isGap, markOf?]
    exact cuts_word hinner (by cases b <;> rfl)
  | whole hlow hhigh =>
    exact cuts_word (fun c => inner_of_integerText) (wordOf?_integerText hlow hhigh)
  | text s => exact cuts_writeText s
  | list _ ih => exact cuts_nil.mark ((cuts_writeItems ih).mark cuts_nil rfl) rfl
  | object _ ih => exact cuts_nil.mark ((cuts_writeMembers ih).mark cuts_nil rfl) rfl

/-- What is written for a plain datum is cut into its lexemes. -/
theorem Datum.Plain.lexemes?_write {d : Datum} (h : d.Plain) :
    lexemes? d.write = some d.lexemes := h.cuts_write.lexemes?

end Stencil.Json
