import Mathlib.Algebra.Group.Int.Defs
import Stencil.Proofs.Numerals
import Stencil.Proofs.Respacing

/-!
# Evaluating what is written

The text of a number is one token of an expression, with a minus sign in front of it as another
one. A number is taken as long as it can go on (`takeNumber_of_foldlM`), and the texts that
`Digits` and `IsFloat` describe go on to their end. So the text of a truth value, of an integer or
of a finite float evaluates to that value, in any context. The one exception is the least integer:
the digits behind its sign make a number that is too large by one.

Main statement: `evaluate_text`.
-/

namespace Stencil.Expr

open Decimal (Digits IsMantissa IsExponent IsFloat)
open Text (isBlank)

/-! ## Where a number ends -/

/-- A text that may go on to its end as a number is taken whole. -/
theorem takeNumber_of_foldlM {part last : NumberPart} {s : List Char}
    (h : s.foldlM NumberPart.next? part = some last) : takeNumber part s = (s, last, []) := by
  induction s generalizing part with
  | nil =>
    cases h
    rfl
  | cons c s ih =>
    rw [List.foldlM_cons] at h
    cases hnext : part.next? c with
    | none =>
      rw [hnext] at h
      cases h
    | some next =>
      rw [hnext] at h
      rw [takeNumber, hnext]
      simp only [ih h]

/-- A digit stays in the part of a number where it stands, except right behind an exponent mark. -/
theorem next?_digit (part : NumberPart) (hpart : part ≠ .mark) {c : Char} (hc : c.isDigit = true) :
    part.next? c = some part := by
  cases part with
  | mark => exact absurd rfl hpart
  | whole | fraction | exponent => simp [NumberPart.next?, hc]

/-- Digits leave a number in the part in which it is. -/
theorem foldlM_digits (part : NumberPart) (hpart : part ≠ .mark) {s : List Char} (hs : Digits s) :
    s.foldlM NumberPart.next? part = some part := by
  induction s with
  | nil => rfl
  | cons c s ih =>
    rw [List.foldlM_cons, next?_digit part hpart (hs c List.mem_cons_self)]
    exact ih fun d hd => hs d (List.mem_cons_of_mem _ hd)

/-- Digits with a point among them are a fraction. -/
theorem foldlM_point {s t : List Char} (hs : Digits s) (ht : Digits t) :
    (s ++ '.' :: t).foldlM NumberPart.next? .whole = some .fraction := by
  rw [List.foldlM_append, foldlM_digits .whole (by decide) hs]
  exact foldlM_digits .fraction (by decide) ht

/-- What an exponent is written as goes on behind its mark. -/
theorem foldlM_exponent {s : List Char} {e : Int} (h : IsExponent s e) :
    s.foldlM NumberPart.next? .mark = some .exponent := by
  cases h with
  | plus hne hs => exact foldlM_digits .exponent (by decide) hs
  | minus hne hs => exact foldlM_digits .exponent (by decide) hs

/-- Behind a mantissa the mark of an exponent may follow. -/
theorem foldlM_mantissa {s : List Char} {d : Decimal} (h : IsMantissa s d) :
    ∃ part, s.foldlM NumberPart.next? .whole = some part ∧ part.next? 'e' = some .mark := by
  cases h with
  | whole hne hs => exact ⟨.whole, foldlM_digits .whole (by decide) hs, rfl⟩
  | point hne hs ht => exact ⟨.fraction, foldlM_point hs ht, rfl⟩

/-- The text of a float is one number, with a point or an exponent. -/
theorem foldlM_float {s : List Char} {d : Decimal} (h : IsFloat s d) :
    ∃ last, last ≠ .whole ∧ s.foldlM NumberPart.next? .whole = some last := by
  cases h with
  | point hne hs ht => exact ⟨.fraction, by decide, foldlM_point hs ht⟩
  | @exponent s t d e hs ht =>
    obtain ⟨part, hfold, hmark⟩ := foldlM_mantissa hs
    refine ⟨.exponent, by decide, ?_⟩
    rw [List.foldlM_append, hfold]
    change (part.next? 'e').bind (fun part => t.foldlM NumberPart.next? part) = _
    rw [hmark]
    exact foldlM_exponent ht

/-- The first character of a text is a digit. -/
def StartsWithDigit (s : List Char) : Prop := ∃ c rest, s = c :: rest ∧ c.isDigit = true

/-- A text starts with a digit if a part of it in front consists of digits. -/
theorem startsWithDigit_append {s : List Char} (hne : s ≠ []) (hs : Digits s) (t : List Char) :
    StartsWithDigit (s ++ t) := by
  cases s with
  | nil => exact absurd rfl hne
  | cons c s => exact ⟨c, s ++ t, rfl, hs c List.mem_cons_self⟩

/-- A written float starts with a digit. -/
theorem startsWithDigit_float {s : List Char} {d : Decimal} (h : IsFloat s d) :
    StartsWithDigit s := by
  cases h with
  | point hne hs ht => exact startsWithDigit_append hne hs _
  | exponent hs ht =>
    cases hs with
    | whole hne hs => exact startsWithDigit_append hne hs _
    | point hne hs _ =>
      rw [List.append_assoc]
      exact startsWithDigit_append hne hs _

/-- So does a written integer. -/
theorem startsWithDigit_toDigits (n : Nat) : StartsWithDigit (Nat.toDigits 10 n) := by
  simpa using startsWithDigit_append Nat.toDigits_ne_nil (Decimal.digits_toDigits n) []

/-! ## Numbers as tokens -/

/-- A text is one token, in whichever column it starts. -/
def IsToken (s : List Char) (lexeme : Lexeme) : Prop :=
  ∀ column, scan column s = .ok [⟨lexeme, s, column⟩]

/-- A digit starts a number. -/
theorem readLexeme_digit {c : Char} (hc : c.isDigit = true) (column : Nat) (s : List Char) :
    readLexeme column c s = readNumber column (c :: s) := by
  rw [readLexeme, hc, Bool.true_or, if_pos rfl]

theorem isBlank_digit {c : Char} (hc : c.isDigit = true) : isBlank c = false :=
  (isPlain_of_next? (next?_digit .whole (by decide) hc)).1

/-- A text that begins with a digit and may go on to its end as a number is read as one. -/
theorem readLexeme_of_foldlM {c : Char} {s : List Char} {last : NumberPart}
    (hc : c.isDigit = true) (hlast : (c :: s).foldlM NumberPart.next? .whole = some last)
    (column : Nat) : readLexeme column c s
      = (numberOf column (c :: s) last).map fun lexeme => (lexeme, c :: s, []) := by
  rw [readLexeme_digit hc, readNumber, takeNumber_of_foldlM hlast]
  cases hnumber : numberOf column (c :: s) last <;> simp [hnumber, Except.map]

/-- What goes on as one number to its end is one token. -/
theorem isToken_of_foldlM {c : Char} {s : List Char} {last : NumberPart} {lexeme : Lexeme}
    (hc : c.isDigit = true) (hlast : (c :: s).foldlM NumberPart.next? .whole = some last)
    (hnumber : ∀ column, numberOf column (c :: s) last = .ok lexeme) :
    IsToken (c :: s) lexeme := by
  intro column
  have hread : readLexeme column c s = .ok (lexeme, c :: s, []) := by
    rw [readLexeme_of_foldlM hc hlast, hnumber]
    rfl
  rw [scan_cons_of_readLexeme (isBlank_digit hc) hread, scan]
  rfl

/-- The text of a float is one token. -/
theorem isToken_float {s : List Char} {d : Decimal} (h : IsFloat s d) :
    IsToken s (.decimal d.toFloat) := by
  obtain ⟨last, hlast, hfold⟩ := foldlM_float h
  obtain ⟨c, rest, rfl, hc⟩ := startsWithDigit_float h
  refine isToken_of_foldlM hc hfold fun column => ?_
  rw [numberOf, if_neg hlast, h.ofText?]

/-- The digits of a number that fits are one token. -/
theorem isToken_toDigits {n : Nat} {i : Int64} (h : Value.int64? n = some i) :
    IsToken (Nat.toDigits 10 n) (.integer i) := by
  have hfold := foldlM_digits .whole (by decide) (Decimal.digits_toDigits n)
  have hnumber (column : Nat) : numberOf column (Nat.toDigits 10 n) .whole = .ok (.integer i) := by
    rw [numberOf, if_pos rfl, Nat.ofDigitChars_ten_toDigits, h]
  obtain ⟨c, rest, hcons, hc⟩ := startsWithDigit_toDigits n
  rw [hcons] at hfold hnumber ⊢
  exact isToken_of_foldlM hc hfold hnumber

/-- The digits of a number that does not fit are refused. -/
theorem scan_toDigits_overflow {n : Nat} (h : Value.int64? n = none) (column : Nat) :
    scan column (Nat.toDigits 10 n) = .error (.overflow "integer literal") := by
  have hfold := foldlM_digits .whole (by decide) (Decimal.digits_toDigits n)
  have hnumber : numberOf column (Nat.toDigits 10 n) .whole
      = .error (.overflow "integer literal") := by
    rw [numberOf, if_pos rfl, Nat.ofDigitChars_ten_toDigits, h]
  obtain ⟨c, rest, hcons, hc⟩ := startsWithDigit_toDigits n
  rw [hcons] at hfold hnumber ⊢
  refine scan_cons_of_readLexeme_error (isBlank_digit hc) ?_
  rw [readLexeme_of_foldlM hc hfold, hnumber]
  rfl

/-! ## Signs -/

/-- A minus sign in front of a digit is a token of its own. -/
theorem readLexeme_minus {c : Char} (hc : c.isDigit = true) (column : Nat) (s : List Char) :
    readLexeme column '-' (c :: s) = .ok (.symbol (.operator .sub), ['-'], c :: s) := by
  -- Two longer symbols begin with a minus sign, and no digit goes on with one of them.
  have hgreater : ('>' == c) = false := by
    rw [beq_eq_false_iff_ne]
    rintro rfl
    contradiction
  have hequals : ('=' == c) = false := by
    rw [beq_eq_false_iff_ne]
    rintro rfl
    contradiction
  have hsymbol : symbolAt? ('-' :: c :: s) = some (.operator .sub) := by
    simp [symbolAt?, symbols, Symbol.spelling, Operator.symbol, Comparison.symbol, List.find?,
      List.isPrefixOf, hgreater, hequals]
  have hquote : Text.isQuote '-' = false := by decide
  have hname : (Text.isAlphabetic '-' || '-' == '_') = false := by decide
  rw [readLexeme, if_neg (by simp), hquote, if_neg (by simp), hname, if_neg (by simp), hsymbol]
  rfl

/-- A minus sign is a token of its own in front of a digit. -/
theorem scan_minus {s : List Char} (hdigit : StartsWithDigit s) (column : Nat) :
    scan column ('-' :: s) = do
      let later ← scan (column + 1) s
      return ⟨.symbol (.operator .sub), ['-'], column⟩ :: later := by
  obtain ⟨c, rest, rfl, hc⟩ := hdigit
  exact scan_cons_of_readLexeme (by decide) (readLexeme_minus hc column rest)

/-! ## Evaluating what is written -/

/-- The value of a token that is a number. -/
inductive IsLiteral : Lexeme → Value → Prop
  | integer (n : Int64) : IsLiteral (.integer n) (.int n)
  | decimal (x : Float) : IsLiteral (.decimal x) (.float x)

/-- Evaluating a text scans it, builds of its tokens, and evaluates what is built. -/
theorem evaluate_ofList (s : List Char) (context : Option Context) :
    evaluate (String.ofList s) context = (do
      let tokens ← scan 1 s
      let e ← build ((String.ofList s).length + 1) tokens
      eval context e) := by
  rw [evaluate, parse, String.toList_ofList]
  cases scan 1 s <;> rfl

/-- A number has its value. -/
theorem evaluate_number {s : List Char} {lexeme : Lexeme} {v : Value} (htoken : IsToken s lexeme)
    (h : IsLiteral lexeme v) (context : Option Context) :
    evaluate (String.ofList s) context = .ok v := by
  rw [evaluate_ofList, htoken 1]
  cases h <;> rfl

/-- A number behind a minus sign has the opposite value. -/
theorem evaluate_minus {s : List Char} {lexeme : Lexeme} {v : Value} (htoken : IsToken s lexeme)
    (hdigit : StartsWithDigit s) (h : IsLiteral lexeme v) (context : Option Context) :
    evaluate (String.ofList ('-' :: s)) context = sign .minus v := by
  rw [evaluate_ofList, scan_minus hdigit, htoken 2]
  cases h <;> rfl

/-- An integer comes back from its text, unless it is the least one. -/
theorem evaluate_int {n : Int64} (h : n.toInt ≠ -2 ^ 63) (context : Option Context) :
    evaluate (Value.int n).text context = .ok (.int n) := by
  have hlow := n.le_toInt
  have hhigh := n.toInt_lt
  rw [Value.text, Value.integerText]
  by_cases hneg : n.toInt < 0
  · -- The digits make a number of their own, which fits as the integer is not the least one.
    obtain ⟨i, hi⟩ : ∃ i, Value.int64? (n.toInt.natAbs : Int) = some i :=
      ⟨_, if_pos ⟨by omega, by omega⟩⟩
    have hopposite : -i.toInt = n.toInt := by
      rw [Value.toInt_of_int64? hi]
      omega
    rw [if_pos hneg, List.singleton_append, evaluate_minus (isToken_toDigits hi)
      (startsWithDigit_toDigits _) (.integer i)]
    simp only [sign, Number.ofValue?, hopposite, Value.int64?_toInt]
  · have hi : Value.int64? (n.toInt.natAbs : Int) = some n := by
      rw [Int.natAbs_of_nonneg (not_lt.1 hneg), Value.int64?_toInt]
    rw [if_neg hneg, List.nil_append]
    exact evaluate_number (isToken_toDigits hi) (.integer n) context

/-- The digits of the least integer do not fit without its sign. -/
theorem evaluate_least {n : Int64} (h : n.toInt = -2 ^ 63) (context : Option Context) :
    evaluate (Value.int n).text context = .error (.overflow "integer literal") := by
  have hnone : Value.int64? (n.toInt.natAbs : Int) = none := if_neg (by omega)
  rw [Value.text, Value.integerText, if_pos (by omega), List.singleton_append, evaluate_ofList,
    scan_minus (startsWithDigit_toDigits _), scan_toDigits_overflow hnone]
  rfl

/-- What is written for a finite float is the text of its magnitude, with a sign or without. -/
theorem exists_floatText {x : Float} (h : x.isFinite) :
    ∃ s d, IsFloat s d ∧ d.toFloat = Decimal.ofPattern false (Decimal.patternOf x) ∧
      Value.floatText x = (if Decimal.isNegative x then ['-'] else []) ++ s := by
  have hlt := (Decimal.isFinite_iff x).1 h
  have hnan : ¬ x.isNaN := by
    rw [Decimal.isNaN_iff]
    omega
  have hinf : ¬ x.isInf := by
    rw [Decimal.isInf_iff]
    omega
  rw [Value.floatText, if_neg hnan, if_neg hinf, Decimal.Layout.write]
  by_cases hzero : Decimal.patternOf x = 0
  · refine ⟨['0', '.', '0'], _, .point (s := ['0']) (t := ['0']) (by simp) (by simp [Digits])
      (by simp [Digits]), ?_, by rw [if_pos hzero]⟩
    rw [hzero]
    rfl
  · obtain ⟨d, hd, hpattern⟩ := Decimal.isFloat_writePositive Value.floatLayout hzero hlt.le
    exact ⟨_, d, hd, by rw [Decimal.toFloat, hpattern], by rw [if_neg hzero]⟩

/-- A finite float comes back from its text, bit for bit. -/
theorem evaluate_float {x : Float} (h : x.isFinite) (context : Option Context) :
    evaluate (Value.float x).text context = .ok (.float x) := by
  have hle := ((Decimal.isFinite_iff x).1 h).le
  have hbits := Decimal.ofPattern_patternOf hle
  obtain ⟨s, d, hs, hd, htext⟩ := exists_floatText h
  have htoken := isToken_float hs
  rw [Value.text, htext]
  cases hneg : Decimal.isNegative x with
  | true =>
    have hopposite : -d.toFloat = x := by
      rw [hd, Decimal.neg_ofPattern hle, ← hneg, hbits]
    rw [if_pos rfl, List.singleton_append,
      evaluate_minus htoken (startsWithDigit_float hs) (.decimal _)]
    simp only [sign, Number.ofValue?, hopposite]
  | false =>
    have hsame : d.toFloat = x := by rw [hd, ← hneg, hbits]
    rw [if_neg (by simp), List.nil_append, evaluate_number htoken (.decimal _), hsame]

/-- A truth value is written as one of the two words that are no names. -/
theorem isToken_bool (b : Bool) :
    IsToken (Value.bool b).text.toList (.name (Value.bool b).text) := by
  intro column
  cases b with
  | true =>
    have hread : readLexeme column 't' ['r', 'u', 'e']
        = .ok (.name "true", ['t', 'r', 'u', 'e'], []) := rfl
    change scan column ('t' :: ['r', 'u', 'e']) = _
    rw [scan_cons_of_readLexeme (by decide) hread, scan]
    rfl
  | false =>
    have hread : readLexeme column 'f' ['a', 'l', 's', 'e']
        = .ok (.name "false", ['f', 'a', 'l', 's', 'e'], []) := rfl
    change scan column ('f' :: ['a', 'l', 's', 'e']) = _
    rw [scan_cons_of_readLexeme (by decide) hread, scan]
    rfl

/-- A truth value comes back from its text. -/
theorem evaluate_bool (b : Bool) (context : Option Context) :
    evaluate (Value.bool b).text context = .ok (.bool b) := by
  rw [evaluate, parse, isToken_bool b 1]
  cases b <;> rfl

/-- A truth value, an integer other than the least one, and a finite float are what their texts
evaluate to, a float bit for bit. -/
theorem evaluate_text (context : Option Context) :
    (∀ b, evaluate (Value.bool b).text context = .ok (.bool b)) ∧
      (∀ n : Int64, evaluate (Value.int n).text context
        = if n.toInt = -2 ^ 63 then .error (.overflow "integer literal") else .ok (.int n)) ∧
      ∀ x : Float, x.isFinite → evaluate (Value.float x).text context = .ok (.float x) := by
  refine ⟨fun b => evaluate_bool b context, fun n => ?_, fun x hx => evaluate_float hx context⟩
  split
  · exact evaluate_least ‹_› context
  · exact evaluate_int ‹_› context

/-- The negative float nearest to zero. -/
theorem evaluate_text_of_subnormal :
    (Decimal.ofPattern true 1).isFinite ∧
      evaluate (Value.float (Decimal.ofPattern true 1)).text none
        = .ok (.float (Decimal.ofPattern true 1)) :=
  have hfinite : (Decimal.ofPattern true 1).isFinite := by
    rw [Decimal.isFinite_iff, Decimal.patternOf_ofPattern true (by decide)]
    decide
  ⟨hfinite, (evaluate_text none).2.2 _ hfinite⟩

/-- The text of the least integer does not evaluate to it. -/
theorem evaluate_text_of_least :
    (Value.int Int64.minValue).text = "-9223372036854775808" ∧
      evaluate "-9223372036854775808" none = .error (.overflow "integer literal") ∧
      evaluate (Value.int Int64.minValue).text none ≠ .ok (.int Int64.minValue) := by
  have htext : (Value.int Int64.minValue).text = "-9223372036854775808" := by decide
  have herror := evaluate_least (n := Int64.minValue) (by decide) none
  refine ⟨htext, htext ▸ herror, ?_⟩
  rw [herror]
  rintro ⟨⟩

end Stencil.Expr
