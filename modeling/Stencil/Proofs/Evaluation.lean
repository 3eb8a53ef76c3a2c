import Stencil.Page
import Stencil.Proofs.Respacing

/-!
# Evaluating words

The inside of a marker reaches the evaluator as words, joined by single spaces. This changes nothing
but columns (`evaluate_words`): the words of a text have the value of the text, the words behind a
first word `if` that of the text behind it, and every quoted literal arrives as it was written.
-/

namespace Stencil

open Stencil.Text Stencil.Expr

/-- The failure without the column at which an expression shows it. -/
def Failure.placeless : Failure → Failure
  | .expr error => .expr error.placeless
  | failure => failure

/-- Two outcomes that differ in a column at most. -/
def SameOutcome (a b : Except Failure Value) : Prop :=
  a.mapError Failure.placeless = b.mapError Failure.placeless

/-- The value of a text that has not been cut into words. -/
def Scene.evaluateText (scene : Scene) (s : List Char) : Except Failure Value :=
  (Expr.evaluate (String.ofList s) scene.context).mapError .expr

/-- Results that agree but for columns are the same outcome. -/
theorem sameOutcome_of_placeless {a b : Except Expr.Error Value}
    (h : a.mapError Error.placeless = b.mapError Error.placeless) :
    SameOutcome (a.mapError .expr) (b.mapError .expr) := by
  cases a with
  | error e =>
    cases b with
    | error e' => exact congrArg (fun e => Except.error (Failure.expr e)) (Except.error.inj h)
    | ok value => cases h
  | ok value =>
    cases b with
    | error e => cases h
    | ok value' => exact congrArg Except.ok (Except.ok.inj h)

/-- Words evaluate as their text does. -/
theorem sameOutcome_words (scene : Scene) (s : List Char) :
    SameOutcome (scene.evaluate ((words s).map String.ofList)) (scene.evaluateText s) := by
  refine sameOutcome_of_placeless (evaluate_placeless ?_ scene.context)
  have hjoined : (" ".intercalate ((words s).map String.ofList)).toList =
      [' '].intercalate (words s) := by
    simp [List.map_map, Function.comp_def]
  rw [hjoined, String.toList_ofList]
  exact scan_intercalate_words 1 1 s

/-! ## Behind the first word -/

/-- White space in front does not change the words. -/
theorem words_cons_of_blank {c : Char} (s : List Char) (h : isBlank c = true) :
    words (c :: s) = words s := by
  have hnext : Standing.next .gap c = .gap := outside_of_isBlank h
  rw [words, wordsFrom_cons_gap s hnext]
  simp [prepend]

/-- Behind a plain word at hand come the words of the text behind it. -/
theorem words_behind {s w : List Char} {later : List (List Char)} (hw : ∀ c ∈ w, IsPlain c)
    (h : wordsFrom .gap s = (w, later)) : ∃ raw, s = w ++ raw ∧ words raw = later := by
  induction s generalizing w with
  | nil =>
    cases h
    exact ⟨[], rfl, rfl⟩
  | cons c s ih =>
    cases hblank : isBlank c with
    | true =>
      have hnext : Standing.next .gap c = .gap := outside_of_isBlank hblank
      rw [wordsFrom_cons_gap s hnext] at h
      cases h
      exact ⟨c :: s, rfl, words_cons_of_blank s hblank⟩
    | false =>
      have hnext : Standing.next .gap c ≠ .gap := outside_ne_gap hblank
      rw [wordsFrom_cons s hnext] at h
      have hc : IsPlain c := hw c (by rw [← (Prod.mk.inj h).1]; simp)
      have hword : Standing.next .gap c = .word := hc.outside
      rw [hword, wordsFrom_word] at h
      cases h
      obtain ⟨raw, hs, hraw⟩ := ih (fun d hd => hw d (List.mem_cons_of_mem _ hd)) rfl
      exact ⟨raw, congrArg (c :: ·) hs, hraw⟩

/-- Behind white space and a plain first word come the other words. -/
theorem words_behind_first {s w : List Char} {later : List (List Char)} (hw : ∀ c ∈ w, IsPlain c)
    (h : words s = w :: later) :
    ∃ raw, s.dropWhile isBlank = w ++ raw ∧ words raw = later := by
  induction s with
  | nil => cases h
  | cons c s ih =>
    cases hblank : isBlank c with
    | true =>
      rw [words_cons_of_blank s hblank] at h
      simpa [hblank] using ih h
    | false =>
      have hnext : Standing.next .gap c ≠ .gap := outside_ne_gap hblank
      have hfrom : wordsFrom .gap (c :: s) = (w, later) := by
        rw [words] at h
        rw [wordsFrom_cons s hnext] at h ⊢
        simpa [prepend] using h
      obtain ⟨raw, hs, hraw⟩ := words_behind hw hfrom
      refine ⟨raw, ?_, hraw⟩
      rw [← hs, List.dropWhile_cons_of_neg (by simp [hblank])]

/-! ## The statement -/

/-- Cutting the inside of a marker into words and joining these by single spaces changes columns at
most: the words evaluate as the text, those behind a first word `if` as the text behind it, each
literal lies in one word, and joining alters none of them. -/
theorem evaluate_words (scene : Scene) (s : List Char) :
    SameOutcome (scene.evaluate ((words s).map String.ofList)) (scene.evaluateText s) ∧
      (∀ later, words s = ['i', 'f'] :: later →
        ∃ raw, s.dropWhile isBlank = ['i', 'f'] ++ raw ∧
          SameOutcome (scene.evaluate (later.map String.ofList)) (scene.evaluateText raw)) ∧
      (words s).flatMap literals = literals s ∧
      literals ([' '].intercalate (words s)) = literals s := by
  refine ⟨sameOutcome_words scene s, ?_, flatMap_literals_words s, literals_intercalate_words s⟩
  intro later hlater
  have hplain : ∀ c ∈ ['i', 'f'], IsPlain c :=
    List.forall_mem_cons.2 ⟨by decide, List.forall_mem_singleton.2 (by decide)⟩
  obtain ⟨raw, hs, hraw⟩ := words_behind_first hplain hlater
  exact ⟨raw, hs, hraw ▸ sameOutcome_words scene raw⟩

/-- A condition with white space before its literal and more of it inside. -/
theorem evaluate_condition_words :
    words "if  'x  y'".toList = [['i', 'f'], "'x  y'".toList] ∧
    ∃ raw, "if  'x  y'".toList.dropWhile isBlank = ['i', 'f'] ++ raw ∧
      SameOutcome (Scene.evaluate ⟨none, none⟩ (["'x  y'".toList].map String.ofList))
        (Scene.evaluateText ⟨none, none⟩ raw) := by
  have hwords : words "if  'x  y'".toList = [['i', 'f'], "'x  y'".toList] := by decide +kernel
  exact ⟨hwords, (evaluate_words ⟨none, none⟩ _).2.1 _ hwords⟩

end Stencil
