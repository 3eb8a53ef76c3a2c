import Stencil.Proofs.Evaluation
import Stencil.Proofs.Recognition
import Stencil.Proofs.Sources
import Stencil.Proofs.Writes

/-!
# Every text can be quoted

A text is written between single quotes with a backslash in front of each backslash and each single
quote. A brace that closes ends the literal, and another literal goes on behind it, so that no two
such braces stand next to each other: `quoted` is the whole of it. Inside a marker it is read as it
stands (`reads_printed`), its literals have the text as their values (`scan_quoted`), and literals
next to each other are one text.

Main statement: `interpret_printed`, that printing a quoted text renders to the text.
-/

namespace Stencil

/-! ## Quoted texts -/

/-- How a character of a text is written in a quoted one. -/
def quotedChar : Char → List Char
  | '\\' => ['\\', '\\']
  | '\'' => ['\\', '\'']
  | '}' => ['}', '\'', ' ', '\'']
  | c => [c]

/-- A text in single quotes, written as the text of an expression. -/
def quoted (s : List Char) : List Char := '\'' :: (s.flatMap quotedChar ++ ['\''])

/-- What stands inside the marker that prints a quoted text. -/
def interior (s : List Char) : List Char := ' ' :: (quoted s ++ [' '])

/-- The source that prints a quoted text. -/
def printed (s : List Char) : List Char := ['{', '{'] ++ (interior s ++ ['}', '}'])

example : String.ofList (printed ['a', '}', '\'']) = "\x7b\x7b 'a\x7d' '\\'' \x7d\x7d" := by decide

/-- A character that has no writing of its own. -/
theorem quotedChar_of_ne {c : Char} (hbackslash : c ≠ '\\') (hquote : c ≠ '\'')
    (hbrace : c ≠ '}') : quotedChar c = [c] := by
  unfold quotedChar
  split <;> simp_all

/-- What follows the opening quote of a quoted text. -/
def quotedBody (s rest : List Char) : List Char := s.flatMap quotedChar ++ '\'' :: rest

theorem quotedBody_nil (rest : List Char) : quotedBody [] rest = '\'' :: rest := rfl

/-- The characters of a text are written one by one. -/
theorem quotedBody_cons (c : Char) (s rest : List Char) :
    quotedBody (c :: s) rest = quotedChar c ++ quotedBody s rest := by
  rw [quotedBody, List.flatMap_cons, List.append_assoc, quotedBody]

theorem interior_eq (s : List Char) : interior s = ' ' :: '\'' :: quotedBody s [' '] := by
  simp [interior, quoted, quotedBody]

/-! ## Reading a quoted text -/

namespace Expr

open Text

/-- A reader of a literal reads a character as it is written, unless that ends the literal. -/
theorem readText_quotedChar {c : Char} (hc : c ≠ '}') (s : List Char) :
    readText '\'' (quotedChar c ++ s) = (readText '\'' s).map fun (value, spelling, rest) =>
      (c :: value, quotedChar c ++ spelling, rest) := by
  by_cases hbackslash : c = '\\'
  · subst hbackslash
    rfl
  · by_cases hquote : c = '\''
    · subst hquote
      rfl
    · rw [quotedChar_of_ne hbackslash hquote hc, List.singleton_append, readText, if_neg hquote]
      · rfl
      · exact fun h => absurd h hbackslash
      · exact fun _ _ h => absurd h hbackslash

/-- The first literal of a quoted text has the text as its value, or the text up to and with its
first closing brace; then the rest of the text follows, quoted. -/
theorem readText_quotedBody (s rest : List Char) :
    (∃ spelling, readText '\'' (quotedBody s rest) = some (s, spelling, rest)) ∨
      ∃ value spelling later, s = value ++ later ∧ value ≠ [] ∧
        readText '\'' (quotedBody s rest)
          = some (value, spelling, ' ' :: '\'' :: quotedBody later rest) := by
  induction s with
  | nil => exact .inl ⟨['\''], by simp [quotedBody_nil, readText]⟩
  | cons c s ih =>
    rw [quotedBody_cons]
    by_cases hc : c = '}'
    · subst hc
      refine .inr ⟨['}'], ['}', '\''], s, rfl, by simp, ?_⟩
      simp [quotedChar, readText]
    · rw [readText_quotedChar hc]
      obtain ⟨spelling, h⟩ | ⟨value, spelling, later, rfl, hne, h⟩ := ih
      · exact .inl ⟨_, by rw [h]; rfl⟩
      · exact .inr ⟨c :: value, _, later, rfl, by simp, by rw [h]; rfl⟩

/-- The tokens of a quoted text in front of white space are texts that the text is put together
from. -/
theorem scan_quoted (column : Nat) (s : List Char) {rest : List Char}
    (hrest : ∀ column, scan column rest = .ok []) :
    ∃ (tokens : List Token) (first : List Char) (more : List (List Char)),
      scan column ('\'' :: quotedBody s rest) = .ok tokens ∧
      tokens.map (·.lexeme) = (first :: more).map (fun value => .text (String.ofList value)) ∧
      (first :: more).flatten = s := by
  have hblank : isBlank '\'' = false := isBlank_quote.1
  obtain ⟨spelling, h⟩ | ⟨value, spelling, later, hs, hne, h⟩ := readText_quotedBody s rest
  · have hread : readLexeme column '\'' (quotedBody s rest)
        = .ok (.text (String.ofList s), '\'' :: spelling, rest) := by
      rw [readLexeme, h]
      rfl
    refine ⟨[⟨.text (String.ofList s), '\'' :: spelling, column⟩], s, [], ?_, rfl, by simp⟩
    rw [scan_cons_of_readLexeme hblank hread, hrest]
    rfl
  · have hread : readLexeme column '\'' (quotedBody s rest)
        = .ok (.text (String.ofList value), '\'' :: spelling,
            ' ' :: '\'' :: quotedBody later rest) := by
      rw [readLexeme, h]
      rfl
    -- what follows the space is quoted as `s` is, and shorter
    obtain ⟨tokens, first, more, hscan, htokens, hmore⟩ :=
      scan_quoted (column + ('\'' :: spelling).length + 1) later hrest
    refine ⟨⟨.text (String.ofList value), '\'' :: spelling, column⟩ :: tokens, value, first :: more,
      ?_, ?_, ?_⟩
    · rw [scan_cons_of_readLexeme hblank hread, scan_cons_of_blank (by decide), hscan]
      rfl
    · rw [List.map_cons, htokens]
      rfl
    · rw [List.flatten_cons, hmore, hs]
termination_by s.length
decreasing_by
  rw [hs, List.length_append]
  have := List.length_pos_iff.2 hne
  omega

/-- Texts next to each other are one text. -/
theorem foldl_append_ofList (first : List Char) (more : List (List Char)) :
    (more.map String.ofList).foldl (· ++ ·) (String.ofList first)
      = String.ofList (first :: more).flatten := by
  induction more generalizing first with
  | nil => simp
  | cons next more ih =>
    rw [List.map_cons, List.foldl_cons, ← String.ofList_append, ih]
    simp

/-- The derivation of texts next to each other. -/
def Derivation.ofTexts (first : String) (more : List String) : Derivation :=
  .comparison (.sum (.product (.power (.base (.texts first more))) .nil) .nil) .nil

/-- The lexemes of texts next to each other are these texts. -/
theorem Derivation.lexemes_ofTexts (first : String) (more : List String) :
    (ofTexts first more).lexemes = (first :: more).map .text := by
  simp [ofTexts, lexemes, Sum.lexemes, Product.lexemes, Signed.lexemes, Power.lexemes,
    Atom.lexemes, Links.lexemes, Addends.lexemes, Factors.lexemes]

/-- A quoted text between spaces has the text as its value. -/
theorem evaluate_interior (s : List Char) (context : Option Context) :
    evaluate (String.ofList (interior s)) context = .ok (.str (String.ofList s)) := by
  have hrest (column : Nat) : scan column [' '] = .ok [] := by
    rw [scan_cons_of_blank (by decide), scan]
  obtain ⟨tokens, first, more, hscan, htokens, hflatten⟩ := scan_quoted 2 s hrest
  have hlexemes : (Derivation.ofTexts (String.ofList first) (more.map String.ofList)).lexemes
      = tokens.map (·.lexeme) := by
    rw [Derivation.lexemes_ofTexts, htokens]
    simp [Function.comp_def]
  have hexpr : (Derivation.ofTexts (String.ofList first) (more.map String.ofList)).expr
      = .literal (.str (String.ofList s)) := by
    rw [← hflatten, ← foldl_append_ofList]
    rfl
  rw [evaluate, parse, String.toList_ofList, interior_eq, scan_cons_of_blank (by decide), hscan]
  refine bind_eq_ok.2 ⟨_, build_of_lexemes _ _ hlexemes, ?_⟩
  rw [hexpr]
  rfl

end Expr

/-! ## The marker around a quoted text -/

namespace Markup

open Text

/-- A marker is only closed by braces. -/
theorem not_closes_of_ne {c : Char} (hc : c ≠ '}') (s : List Char) :
    ¬ Closes .expression (c :: s) := by
  rintro ⟨rest, hrest⟩
  exact hc (List.cons.inj hrest).1.symm

/-- Where there are no braces no marker is closed. -/
theorem free_of_forall_ne {t : List Char} (h : ∀ c ∈ t, c ≠ '}') (rest : List Char) :
    Free (Closes .expression) t rest := by
  induction t with
  | nil => exact free_nil _ _
  | cons c t ih =>
    obtain ⟨hc, ht⟩ := List.forall_mem_cons.1 h
    exact free_cons.2 ⟨not_closes_of_ne hc _, ih ht⟩

/-- A character as it is written does not close a marker. -/
theorem free_quotedChar (c : Char) (rest : List Char) :
    Free (Closes .expression) (quotedChar c) rest := by
  by_cases hc : c = '}'
  · subst hc
    refine free_cons.2 ⟨?_, free_of_forall_ne (by simp) rest⟩
    rintro ⟨rest', hrest'⟩
    exact absurd hrest' (by simp [Delimiter.closing, Delimiter.closer])
  · refine free_of_forall_ne ?_ rest
    unfold quotedChar
    split <;> simp_all

/-- No written character closes the marker. -/
theorem free_flatMap_quotedChar (s rest : List Char) :
    Free (Closes .expression) (s.flatMap quotedChar) rest := by
  induction s with
  | nil => exact free_nil _ _
  | cons c s ih => exact (free_quotedChar c _).append ih

/-- Nothing inside the marker closes it early. -/
theorem free_interior (s rest : List Char) : Free (Closes .expression) (interior s) rest := by
  have hends : Free (Closes .expression) ['\'', ' '] rest :=
    free_of_forall_ne (by simp) rest
  rw [interior_eq]
  refine free_cons.2 ⟨not_closes_of_ne (by decide) _, ?_⟩
  refine free_cons.2 ⟨not_closes_of_ne (by decide) _, ?_⟩
  exact (free_flatMap_quotedChar s _).append hends

/-- A printed text is read as one marker. -/
theorem reads_printed (s : List Char) :
    Reads ⟨[⟨[], .expression, interior s⟩], [], []⟩ (printed s) :=
  .passage (free_nil _ _) (free_interior s _) (.last (free_nil _ _) (.inl rfl))

/-- The first word inside the marker starts with a quote. -/
theorem words_interior (s : List Char) :
    ∃ first later, words (interior s) = ('\'' :: first) :: later := by
  have hnext : Standing.next .gap '\'' ≠ .gap := outside_ne_gap isBlank_quote.1
  let behind := wordsFrom (Standing.next .gap '\'') (quotedBody s [' '])
  refine ⟨behind.1, behind.2, ?_⟩
  rw [interior_eq, words_cons_of_blank _ (by decide), words, wordsFrom_cons _ hnext]
  rfl

/-- A quoted text is no keyword. -/
theorem not_mem_reserved_of_quote (word : List Char) :
    String.ofList ('\'' :: word) ∉ reserved := by
  have hhead : ∀ word ∈ reserved, word.toList.head? ≠ some '\'' := by decide
  intro h
  exact hhead _ h (by rw [String.toList_ofList]; rfl)

/-- Printing a quoted text is one expression. -/
theorem parse_printed (s : List Char) :
    parse (String.ofList (printed s))
      = .ok (.template [.output ((words (interior s)).map String.ofList)]) := by
  obtain ⟨first, later, hwords⟩ := words_interior s
  have hreads : Reads ⟨[⟨[], .expression, interior s⟩], [], []⟩
      (String.ofList (printed s)).toList := by
    rw [String.toList_ofList]
    exact reads_printed s
  refine (parse_eq_ok_iff hreads).2 ⟨.output _ (later.map String.ofList)
    (not_mem_reserved_of_quote first) .nil, ?_, ?_⟩
  · simp [Reading.pieces, runs, Piece.lexemes, hwords, Derivation.lexemes, marker,
      Function.comp_def]
  · rw [hwords]
    rfl

end Markup

/-! ## Rendering a printed text -/

/-- Words whose text has a value have that value. -/
theorem evaluate_words_eq_ok {scene : Scene} {s : List Char} {value : Value}
    (h : scene.evaluateText s = .ok value) :
    scene.evaluate ((Text.words s).map String.ofList) = .ok value := by
  have hsame := sameOutcome_words scene s
  rw [SameOutcome, h] at hsame
  exact mapError_eq_ok.1 hsame

/-- A template of one expression that has a value is rendered to the text of the value. -/
theorem interpret_output {scene : Scene} {words : List String} {value : Value}
    (h : scene.evaluate words = .ok value) :
    interpret (.template [.output words]) scene
      = .ok ⟨(∅ : Regions).insert rootName value.text, none⟩ := by
  have hwrites : (Markup.Node.template [.output words]).writesIn scene
      = [.ensure rootName, .append rootName value.text] := by
    rw [scene.evaluate_eq] at h
    simp [Markup.Node.writesIn, Markup.Node.writes, Markup.writesAll, h]
  refine interpret_eq_root ?_ fun region => ?_
  · rw [hwrites]
    rfl
  · rw [hwrites]
    by_cases hregion : region = rootName
    · simp [hregion, written, outline, Write.parts, fill]
    · simp [hregion, written, outline, Write.parts]

/-- Every text can be printed: quoted in a marker it is one expression, and whatever the scene is,
that is rendered to the text in the root and to no other region. -/
theorem interpret_printed (s : String) :
    ∃ words, Markup.parse (String.ofList (printed s.toList)) = .ok (.template [.output words]) ∧
      ∀ scene : Scene, interpret (.template [.output words]) scene
        = .ok ⟨(∅ : Regions).insert rootName s, none⟩ := by
  refine ⟨_, Markup.parse_printed s.toList, fun scene => ?_⟩
  have htext : scene.evaluateText (interior s.toList) = .ok (.str s) := by
    rw [Scene.evaluateText, Expr.evaluate_interior, String.ofList_toList]
    rfl
  exact interpret_output (evaluate_words_eq_ok htext)

end Stencil
