import Mathlib.Data.String.Basic
import Stencil.Expr.Eval
import Stencil.Proofs.Results

/-!
# Positions of tokens

A text that is read as tokens consists of white space and of the spellings of the tokens, piece by
piece, and the column of a token is one more than the number of characters before it (`Laid`,
`exists_laid_of_scan`). The byte positions at which the tokens start give the same columns in two
ways: each one counted from the start of the text (`map_columnFromStart_starts`), and each counted
forward from the token before (`columnsForward_starts`).

An error shows a column only where a text is read. The reader of tokens shows a place in what it
reads (`yields_scan`), the builder a token or the end (`yields_build`), and evaluation, which fails
for what the values are, shows no column (`yields_eval`).

Main statement: `columns_of_source`.
-/

namespace Stencil.Expr

open Text (isBlank)

/-! ## Counting characters -/

/-- The part of a text between two byte positions. There is none unless they are in this order and
no character is cut. -/
def between? (source : String) (first last : String.Pos.Raw) : Option String :=
  if first ≤ last ∧ first.IsValid source ∧ last.IsValid source then
    some (String.Pos.Raw.extract source first last)
  else none

/-- The number of characters between two byte positions; none are counted where there is no such
part of the text. -/
def countBetween (source : String) (first last : String.Pos.Raw) : Nat :=
  ((between? source first last).map String.length).getD 0

/-- The column of a byte position, counted from the start of a text. -/
def columnFromStart (source : String) (place : String.Pos.Raw) : Nat :=
  countBetween source 0 place + 1

/-- The columns of byte positions, each counted forward from the one before; `column` is the column
of `place`, where the count starts. -/
def columnsForward (source : String) (place : String.Pos.Raw) (column : Nat) :
    List String.Pos.Raw → List Nat
  | [] => []
  | next :: later =>
    let column := column + countBetween source place next
    column :: columnsForward source next column later

/-- The byte position right behind a text. -/
def placeBehind (front : List Char) : String.Pos.Raw := (String.ofList front).rawEndPos

@[simp] theorem placeBehind_nil : placeBehind [] = 0 := rfl

/-- Behind a first part of a source there is a position of a character, or its end. -/
theorem isValid_placeBehind {source : String} {front back : List Char}
    (h : source.toList = front ++ back) : (placeBehind front).IsValid source := by
  refine String.Pos.Raw.isValid_iff_exists_append.2
    ⟨String.ofList front, String.ofList back, ?_, rfl⟩
  rw [← String.ofList_append, ← h, String.ofList_toList]

/-- Between the positions behind a text and behind a longer one is what the longer one adds. -/
theorem countBetween_placeBehind {source : String} {front middle back : List Char}
    (h : source.toList = front ++ middle ++ back) :
    countBetween source (placeBehind front) (placeBehind (front ++ middle)) = middle.length := by
  have hfirst : (placeBehind front).IsValid source :=
    isValid_placeBehind (h.trans (List.append_assoc ..))
  have hlast : (placeBehind (front ++ middle)).IsValid source := isValid_placeBehind h
  have hbytes : placeBehind (front ++ middle)
      = ⟨String.utf8Len front + String.utf8Len middle⟩ := by
    rw [placeBehind, String.rawEndPos_ofList, String.utf8Len_append]
  have hle : placeBehind front ≤ placeBehind (front ++ middle) := by
    rw [hbytes, placeBehind, String.rawEndPos_ofList]
    exact Nat.le_add_right _ _
  have hpart : String.Pos.Raw.extract source (placeBehind front) (placeBehind (front ++ middle))
      = String.ofList middle := by
    rw [hbytes, placeBehind, String.rawEndPos_ofList, ← String.ofList_toList (s := source), h]
    exact String.extract_of_valid front middle back
  rw [countBetween, between?, if_pos ⟨hle, hfirst, hlast⟩, hpart]
  exact String.length_ofList

/-- Counted from the start, a column is one more than the number of characters before it. -/
theorem columnFromStart_placeBehind {source : String} {front back : List Char}
    (h : source.toList = front ++ back) :
    columnFromStart source (placeBehind front) = front.length + 1 := by
  have hcount : countBetween source (placeBehind []) (placeBehind ([] ++ front)) = front.length :=
    countBetween_placeBehind h
  rw [placeBehind_nil, List.nil_append] at hcount
  rw [columnFromStart, hcount]

/-! ## Pieces of a text -/

/-- A piece of a text that is read as tokens. -/
inductive Piece where
  /-- A character of white space. -/
  | blank (c : Char)
  | token (token : Token)

/-- How a piece is written. -/
def Piece.written : Piece → List Char
  | .blank c => [c]
  | .token t => t.spelling

/-- The token that a piece is, unless it is white space. -/
def Piece.token? : Piece → Option Token
  | .blank _ => none
  | .token t => some t

/-- The texts in front of the tokens among some pieces, the text `front` being in front of all. -/
def fronts (front : List Char) : List Piece → List (List Char)
  | [] => []
  | .blank c :: pieces => fronts (front ++ [c]) pieces
  | .token token :: pieces => front :: fronts (front ++ token.spelling) pieces

/-- The byte positions at which these tokens start. -/
def starts (front : List Char) (pieces : List Piece) : List String.Pos.Raw :=
  (fronts front pieces).map placeBehind

theorem starts_blank (front : List Char) (c : Char) (pieces : List Piece) :
    starts front (.blank c :: pieces) = starts (front ++ [c]) pieces := rfl

theorem starts_token (front : List Char) (token : Token) (pieces : List Piece) :
    starts front (.token token :: pieces) =
      placeBehind front :: starts (front ++ token.spelling) pieces := rfl

/-- A token stands between the texts `front` and `back`: its column is one more than the number of
characters in front of it, and a reader finds it there. -/
structure Placed (front : List Char) (token : Token) (back : List Char) : Prop where
  column : token.column = front.length + 1
  found : ∃ c s, token.spelling ++ back = c :: s ∧ isBlank c = false ∧
    readLexeme token.column c s = .ok (token.lexeme, token.spelling, back)

/-- A token that is placed is not empty. -/
theorem Placed.spelling_ne_nil {front back : List Char} {token : Token}
    (h : Placed front token back) : token.spelling ≠ [] := by
  obtain ⟨c, s, -, -, hread⟩ := h.found
  exact (eq_append_of_readLexeme hread).2

/-- Between the texts `front` and `back`, a piece is white space or a token in its place. -/
def Piece.Fits (front back : List Char) : Piece → Prop
  | .blank c => isBlank c = true
  | .token t => Placed front t back

/-- Pieces, the text `front` being in front of them, fit one behind the other. -/
inductive Laid : List Char → List Piece → Prop
  | nil (front : List Char) : Laid front []
  | cons {front : List Char} {piece : Piece} {pieces : List Piece}
    (hfits : piece.Fits front (pieces.flatMap Piece.written))
    (hlater : Laid (front ++ piece.written) pieces) : Laid front (piece :: pieces)

variable {front : List Char} {pieces : List Piece} {tokens : List Token}

/-- Every piece fits where it is laid. -/
theorem Laid.fits (h : Laid front pieces) {before after : List Piece} {piece : Piece}
    (hpieces : pieces = before ++ piece :: after) :
    piece.Fits (front ++ before.flatMap Piece.written) (after.flatMap Piece.written) := by
  induction h generalizing before with
  | nil => simp at hpieces
  | cons hfits _ ih =>
    obtain ⟨rfl, hfirst⟩ | ⟨before, rfl, hlater⟩ := List.cons_eq_append_iff.1 hpieces
    · cases hfirst
      rwa [List.flatMap_nil, List.append_nil]
    · have hpiece := ih hlater
      rwa [List.append_assoc] at hpiece

/-- The columns of the tokens count the characters of the texts in front of them. -/
theorem Laid.columns (h : Laid front pieces) :
    (pieces.filterMap Piece.token?).map Token.column =
      (fronts front pieces).map (·.length + 1) := by
  induction h with
  | nil => rfl
  | @cons front piece pieces hfits _ ih =>
    cases piece with
    | blank c => exact ih
    | token token => exact congrArg₂ List.cons hfits.column ih

/-- The tokens stand behind what is in front of the pieces. -/
theorem Laid.length_lt_column (h : Laid front pieces) :
    ∀ token ∈ pieces.filterMap Piece.token?, front.length < token.column := by
  induction h with
  | nil => simp
  | @cons front piece pieces hfits _ ih =>
    have hlater : ∀ token ∈ pieces.filterMap Piece.token?, front.length < token.column := by
      intro token htoken
      have hlt := ih token htoken
      rw [List.length_append] at hlt
      omega
    cases piece with
    | blank c => exact hlater
    | token first =>
      have hfirst : front.length < first.column := by
        rw [hfits.column]
        exact Nat.lt_succ_self _
      exact List.forall_mem_cons.2 ⟨hfirst, hlater⟩

/-- No token is empty, so each stands behind the one before. -/
theorem Laid.pairwise (h : Laid front pieces) :
    ((pieces.filterMap Piece.token?).map Token.column).Pairwise (· < ·) := by
  induction h with
  | nil => exact .nil
  | @cons front piece pieces hfits hlater ih =>
    cases piece with
    | blank c => exact ih
    | token first =>
      refine .cons (fun column hcolumn => ?_) ih
      obtain ⟨later, hmem, rfl⟩ := List.mem_map.1 hcolumn
      have hlt := hlater.length_lt_column later hmem
      have hpos := List.length_pos_iff.2 hfits.spelling_ne_nil
      rw [Piece.written, List.length_append] at hlt
      rw [hfits.column]
      omega

/-! ## Byte positions of tokens -/

/-- Counted from the start, the byte positions of the tokens have the columns of the tokens. -/
theorem map_columnFromStart_starts {source : String} (front : List Char)
    (h : source.toList = front ++ pieces.flatMap Piece.written) :
    (starts front pieces).map (columnFromStart source) =
      (fronts front pieces).map (·.length + 1) := by
  induction pieces generalizing front with
  | nil => rfl
  | cons piece pieces ih =>
    rw [List.flatMap_cons, ← List.append_assoc] at h
    cases piece with
    | blank c => exact ih (front ++ [c]) h
    | token token =>
      have hcolumn := columnFromStart_placeBehind (h.trans (List.append_assoc ..))
      have hlater := ih (front ++ token.spelling) h
      rw [starts_token, fronts, List.map_cons, List.map_cons, hcolumn, hlater]

/-- So they have when they are counted forward from a place with the right column, the text `middle`
being between this place and the pieces. -/
theorem columnsForward_starts {source : String} (counted middle : List Char)
    (h : source.toList = counted ++ middle ++ pieces.flatMap Piece.written) :
    columnsForward source (placeBehind counted) (counted.length + 1)
        (starts (counted ++ middle) pieces) =
      (fronts (counted ++ middle) pieces).map (·.length + 1) := by
  induction pieces generalizing counted middle with
  | nil => rfl
  | cons piece pieces ih =>
    rw [List.flatMap_cons, ← List.append_assoc] at h
    cases piece with
    | blank c =>
      rw [starts_blank, fronts, List.append_assoc]
      refine ih counted (middle ++ [c]) ?_
      rw [h, ← List.append_assoc counted]
      rfl
    | token token =>
      have hcount := countBetween_placeBehind (h.trans (List.append_assoc ..))
      have hcolumn : counted.length + 1 + middle.length = (counted ++ middle).length + 1 := by
        rw [List.length_append]
        omega
      -- from here on the count starts at this token, and its spelling is in front of the next one
      have hlater := ih (counted ++ middle) token.spelling h
      rw [starts_token, fronts, columnsForward, List.map_cons, hcount, hcolumn, hlater]

/-- The quoted text takes five bytes and four characters. -/
example : columnsForward "'né' x" 0 1 [0, ⟨6⟩] = [1, 6] := by decide

/-! ## Reading tokens -/

/-- Whatever is read as tokens consists of pieces, with the tokens in their places. -/
theorem exists_laid_of_scan (front : List Char) {s : List Char}
    (h : scan (front.length + 1) s = .ok tokens) :
    ∃ pieces, pieces.flatMap Piece.written = s ∧ pieces.filterMap Piece.token? = tokens ∧
      Laid front pieces := by
  generalize hcolumn : front.length + 1 = column at h
  -- `front` is what the reader has passed, so it grows along with the column
  fun_induction scan column s generalizing front tokens with
  | case1 =>
    cases h
    exact ⟨[], rfl, rfl, .nil front⟩
  | case2 column c s hc ih =>
    have hpassed : (front ++ [c]).length + 1 = column + 1 := by
      rw [List.length_append, ← hcolumn]
      rfl
    obtain ⟨pieces, rfl, rfl, hlaid⟩ := ih (front ++ [c]) hpassed h
    exact ⟨.blank c :: pieces, rfl, rfl, .cons hc hlaid⟩
  | case3 => cases h
  | case4 column c s hc lexeme spelling rest hread ih =>
    obtain ⟨later, hlater, htokens⟩ := bind_eq_ok.1 h
    cases htokens
    have hpassed : (front ++ spelling).length + 1 = column + spelling.length := by
      rw [List.length_append]
      omega
    obtain ⟨pieces, rfl, rfl, hlaid⟩ := ih (front ++ spelling) hpassed hlater
    have hs := (eq_append_of_readLexeme hread).1
    have hfound : ∃ c s, spelling ++ pieces.flatMap Piece.written = c :: s ∧ isBlank c = false ∧
        readLexeme column c s = .ok (lexeme, spelling, pieces.flatMap Piece.written) :=
      ⟨c, s, hs.symm, by simpa using hc, hread⟩
    exact ⟨.token ⟨lexeme, spelling, column⟩ :: pieces, hs.symm, rfl,
      .cons ⟨hcolumn.symm, hfound⟩ hlaid⟩

/-! ## Columns of errors -/

/-- An error shows no column, or one between `first` and `last`. -/
def Error.ShownWithin (first last : Nat) : Error → Prop
  | .malformed _ column => first ≤ column ∧ column ≤ last
  | _ => True

/-- A wider range holds the columns of a narrower one. -/
theorem Error.ShownWithin.mono {first first' last last' : Nat} {error : Error}
    (h : error.ShownWithin first last) (hfirst : first' ≤ first) (hlast : last ≤ last') :
    error.ShownWithin first' last' := by
  cases error with
  | malformed message column => exact ⟨hfirst.trans h.1, h.2.trans hlast⟩
  | _ => trivial

/-- A number that cannot be read is reported at its column. -/
theorem yields_numberOf (column : Nat) (spelling : List Char) (last : NumberPart) :
    Yields (fun _ => True) (Error.ShownWithin column column) (numberOf column spelling last) := by
  unfold numberOf
  split
  · split <;> trivial
  · split
    · trivial
    · exact ⟨Nat.le_refl _, Nat.le_refl _⟩

/-- A number that is refused shows its first character, or the one right behind it. -/
theorem yields_readNumber (column : Nat) (s : List Char) :
    Yields (fun _ => True) (Error.ShownWithin column (column + s.length))
      (readNumber column s) := by
  rcases hnumber : takeNumber .whole s with ⟨spelling, last, rest⟩
  have hlength := congrArg List.length (eq_append_of_takeNumber hnumber)
  rw [List.length_append] at hlength
  unfold readNumber
  rw [hnumber]
  dsimp only
  split
  · exact ⟨Nat.le_add_right _ _, by omega⟩
  · refine Yields.bind ((yields_numberOf column spelling last).mono (fun _ h => h) ?_)
      fun _ _ => trivial
    exact fun _ h => h.mono (Nat.le_refl _) (Nat.le_add_right _ _)

/-- A reader of lexemes shows a place in what it reads. -/
theorem yields_readLexeme (column : Nat) (c : Char) (s : List Char) :
    Yields (fun _ => True) (Error.ShownWithin column (column + (c :: s).length))
      (readLexeme column c s) := by
  unfold readLexeme
  split
  · exact yields_readNumber column (c :: s)
  · split
    · split
      · trivial
      · exact ⟨Nat.le_refl _, Nat.le_add_right _ _⟩
    · split
      · trivial
      · split
        · trivial
        · exact ⟨Nat.le_refl _, Nat.le_add_right _ _⟩

/-- So does a reader of tokens. -/
theorem yields_scan (column : Nat) (s : List Char) :
    Yields (fun _ => True) (Error.ShownWithin column (column + s.length)) (scan column s) := by
  fun_induction scan column s with
  | case1 => trivial
  | case2 column c s hc ih =>
    refine ih.mono (fun _ h => h) fun _ h => h.mono (Nat.le_succ _) ?_
    rw [List.length_cons]
    omega
  | case3 column c s hc error hread =>
    exact (yields_readLexeme column c s).of_error hread
  | case4 column c s hc lexeme spelling rest hread ih =>
    have hlength := congrArg List.length (eq_append_of_readLexeme hread).1
    rw [List.length_append] at hlength
    refine Yields.bind (ih.mono (fun _ h => h) fun _ h => h.mono (Nat.le_add_right _ _) ?_)
      fun _ _ => trivial
    omega

/-- A refused token shows its own column. -/
theorem shownWithin_reject (token : Token) :
    (reject token).ShownWithin token.column token.column := by
  have hunexpected (what : String) :
      (Error.malformed ("unexpected " ++ what) token.column).ShownWithin
        token.column token.column := ⟨Nat.le_refl _, Nat.le_refl _⟩
  unfold reject
  dsimp only
  split
  · split
    · trivial
    · exact hunexpected _
  · split
    · trivial
    · exact hunexpected _
  all_goals exact hunexpected _

namespace Builder

/-- What cannot start an operand is reported at its column. -/
theorem yields_operand (frames : List Frame) (token : Token) :
    Yields (fun _ => True) (Error.ShownWithin token.column token.column)
      (operand frames token) := by
  have hreject := shownWithin_reject token
  unfold operand
  split
  case h_4 =>
    split
    · exact hreject
    · trivial
  all_goals first | exact hreject | trivial

/-- What cannot follow an operand is reported at its column. -/
theorem yields_behind (e : Expr) (isText : Bool) (frames : List Frame) (token : Token) :
    Yields (fun _ => True) (Error.ShownWithin token.column token.column)
      (behind e isText frames token) := by
  have hreject := shownWithin_reject token
  unfold behind
  split
  case h_4 | h_6 =>
    split
    · trivial
    · exact hreject
  case h_5 =>
    split
    · trivial
    · split
      · trivial
      · exact hreject
  all_goals first | exact hreject | trivial

/-- The builder shows the token that it refuses. -/
theorem yields_step (b : Builder) (token : Token) :
    Yields (fun _ => True) (Error.ShownWithin token.column token.column) (b.step token) := by
  cases b with
  | waiting frames => exact yields_operand frames token
  | holding e isText frames => exact yields_behind e isText frames token

/-- An expression that cannot end shows the end. -/
theorem yields_finish (b : Builder) (column : Nat) :
    Yields (fun _ => True) (Error.ShownWithin column column) (b.finish column) := by
  cases b with
  | waiting frames => exact ⟨Nat.le_refl _, Nat.le_refl _⟩
  | holding e isText frames =>
    simp only [finish]
    split
    · trivial
    · exact ⟨Nat.le_refl _, Nat.le_refl _⟩

end Builder

/-- The column of an error of building is that of a token or of the end of the text. -/
theorem yields_build {first last : Nat} (hend : first ≤ last)
    (htokens : ∀ token ∈ tokens, first ≤ token.column ∧ token.column ≤ last) :
    Yields (fun _ => True) (Error.ShownWithin first last) (build last tokens) := by
  have hfold : Yields (fun _ => True) (Error.ShownWithin first last)
      (tokens.foldlM Builder.step (.waiting [])) := by
    cases hrun : tokens.foldlM Builder.step (.waiting []) with
    | ok b => trivial
    | error error =>
      obtain ⟨before, token, after, b, rfl, -, hstep⟩ := exists_of_foldlM_eq_error hrun
      obtain ⟨hfirst, hlast⟩ := htokens token (by simp)
      exact ((b.yields_step token).of_error hstep).mono hfirst hlast
  unfold build
  split
  · exact ⟨hend, Nat.le_refl _⟩
  · refine hfold.bind fun b _ => (b.yields_finish last).mono (fun _ h => h) ?_
    exact fun _ h => h.mono hend (Nat.le_refl _)

/-! ## Errors of evaluation -/

/-- An error is for what the values are, not for how the text is written. -/
def Error.OfValues : Error → Prop
  | .typeMismatch .. | .divisionByZero | .overflow _ => True
  | .malformed .. | .unsupported _ => False

/-- An error about values shows no column. -/
theorem Error.OfValues.shownWithin {error : Error} (h : error.OfValues) (first last : Nat) :
    error.ShownWithin first last := by
  cases error with
  | malformed message column => exact h.elim
  | _ => trivial

/-- An integer that does not fit is an error about values. -/
theorem yields_exactly (op : Operator) (n : Option Int64) :
    Yields (fun _ => True) Error.OfValues (exactly op n) := by
  cases n <;> trivial

/-- Arithmetic with floats fails for what the values are. -/
theorem yields_floatArithmetic (op : Operator) (x y : Float) :
    Yields (fun _ => True) Error.OfValues (floatArithmetic op x y) := by
  unfold floatArithmetic
  cases op with
  | add | sub | mul => trivial
  | div | mod | pow =>
    dsimp only
    split <;> trivial

/-- So does arithmetic with integers. -/
theorem yields_intArithmetic (op : Operator) (x y : Int64) :
    Yields (fun _ => True) Error.OfValues (intArithmetic op x y) := by
  have hfloats (x y : Float) : Yields (fun _ => True) Error.OfValues
      (do return Value.float (← floatArithmetic op x y)) :=
    (yields_floatArithmetic op x y).bind fun _ _ => trivial
  unfold intArithmetic
  cases op with
  | add | sub | mul => exact yields_exactly _ _
  | div => exact hfloats _ _
  | mod =>
    dsimp only
    split
    · trivial
    · exact yields_exactly _ _
  | pow =>
    dsimp only
    split
    · exact yields_exactly _ _
    · split
      · trivial
      · exact hfloats _ _

/-- So does arithmetic with numbers of both kinds. -/
theorem yields_numberArithmetic (op : Operator) (a b : Number) :
    Yields (fun _ => True) Error.OfValues (numberArithmetic op a b) := by
  unfold numberArithmetic
  split
  · exact yields_intArithmetic op _ _
  · exact (yields_floatArithmetic op _ _).bind fun _ _ => trivial

/-- So does the repetition of a text. -/
theorem yields_repeated (s : String) (count : Int64) :
    Yields (fun _ => True) Error.OfValues (repeated s count) := by
  unfold repeated
  dsimp only
  split <;> trivial

/-- So does arithmetic with any two values. -/
theorem yields_arithmetic (op : Operator) (left right : Value) :
    Yields (fun _ => True) Error.OfValues (arithmetic op left right) := by
  unfold arithmetic
  split
  · trivial
  · split
    · trivial
    · exact yields_repeated _ _
    · trivial
  · split
    · trivial
    · exact yields_repeated _ _
    · trivial
  · split
    · exact yields_numberArithmetic op _ _
    · trivial

/-- So does a sign in front of a value. -/
theorem yields_sign (s : Sign) (value : Value) :
    Yields (fun _ => True) Error.OfValues (sign s value) := by
  unfold sign
  split
  · trivial
  · split <;> trivial
  · trivial
  · trivial

/-- So does a comparison of two values. -/
theorem yields_compareValues (op : Comparison) (left right : Value) :
    Yields (fun _ => True) Error.OfValues (compareValues op left right) := by
  unfold compareValues
  split
  · trivial
  · trivial
  all_goals split <;> trivial

mutual

/-- Evaluation fails for what the values are. -/
theorem yields_eval (context : Option Context) :
    ∀ e : Expr, Yields (fun _ => True) Error.OfValues (eval context e)
  | .literal value => by
    rw [eval]
    trivial
  | .name word => by
    rw [eval]
    trivial
  | .signed s operand => by
    rw [eval]
    exact (yields_eval context operand).bind fun _ _ => yields_sign s _
  | .binary left op right => by
    rw [eval]
    exact (yields_eval context left).bind fun _ _ =>
      (yields_eval context right).bind fun _ _ => yields_arithmetic op _ _
  | .chain first links => by
    rw [eval]
    exact (yields_eval context first).bind fun _ _ =>
      (yields_evalLinks context links _).bind fun _ _ => trivial

/-- So does a chain of comparisons. -/
theorem yields_evalLinks (context : Option Context) :
    ∀ (links : List (Comparison × Expr)) (left : Value),
      Yields (fun _ => True) Error.OfValues (evalLinks context left links)
  | [], left => by
    rw [evalLinks]
    trivial
  | (op, operand) :: links, left => by
    rw [evalLinks]
    exact (yields_eval context operand).bind fun _ _ =>
      (yields_compareValues op left _).bind fun _ _ =>
        (yields_evalLinks context links _).bind fun _ _ => trivial

end

/-! ## The columns of a text -/

/-- The pieces of a text that makes tokens. -/
structure Layout (source : String) (tokens : List Token) (pieces : List Piece) : Prop where
  /-- Nothing of the text is left out, repeated or moved. -/
  written : pieces.flatMap Piece.written = source.toList
  /-- Every piece fits between those before it and those behind it. -/
  fits : ∀ before piece after, pieces = before ++ piece :: after →
    piece.Fits (before.flatMap Piece.written) (after.flatMap Piece.written)
  tokens_eq : pieces.filterMap Piece.token? = tokens
  /-- The columns are those of the byte positions, counted from the start. -/
  fromStart : tokens.map Token.column = (starts [] pieces).map (columnFromStart source)
  /-- They are the same counted forward from token to token. -/
  forward : tokens.map Token.column = columnsForward source 0 1 (starts [] pieces)
  increasing : (tokens.map Token.column).Pairwise (· < ·)

/-- A text that makes tokens is laid out in pieces of which they are some. -/
theorem exists_layout_of_scan {source : String} (h : scan 1 source.toList = .ok tokens) :
    ∃ pieces, Layout source tokens pieces := by
  obtain ⟨pieces, hwritten, rfl, hlaid⟩ := exists_laid_of_scan [] h
  refine ⟨pieces, hwritten, fun _ _ _ => hlaid.fits, rfl, ?_, ?_, hlaid.pairwise⟩
  · rw [hlaid.columns]
    exact (map_columnFromStart_starts [] hwritten.symm).symm
  · rw [hlaid.columns]
    exact (columnsForward_starts [] [] hwritten.symm).symm

/-- The column of a token is that of a character of the text. -/
theorem Layout.column_bounds {source : String} (h : Layout source tokens pieces) :
    ∀ token ∈ tokens, 1 ≤ token.column ∧ token.column ≤ source.length := by
  intro token htoken
  rw [← h.tokens_eq] at htoken
  obtain ⟨piece, hpiece, hsome⟩ := List.mem_filterMap.1 htoken
  cases piece with
  | blank c => cases hsome
  | token t =>
    cases hsome
    obtain ⟨before, after, rfl⟩ := List.append_of_mem hpiece
    have hplaced : Placed _ token _ := h.fits before (.token token) after rfl
    have hlength := congrArg List.length h.written
    have hpos := List.length_pos_iff.2 hplaced.spelling_ne_nil
    rw [String.length_toList, List.flatMap_append, List.flatMap_cons, List.length_append,
      List.length_append, Piece.written] at hlength
    rw [hplaced.column]
    omega

/-- An error shows no column, or one of a character or right behind the last one. -/
theorem yields_evaluate (source : String) (context : Option Context) :
    Yields (fun _ => True) (Error.ShownWithin 1 (source.length + 1)) (evaluate source context) := by
  have hparse : Yields (fun _ => True) (Error.ShownWithin 1 (source.length + 1))
      (parse source) := by
    unfold parse
    cases hscan : scan 1 source.toList with
    | error error =>
      have hshown := (yields_scan 1 source.toList).of_error hscan
      rw [String.length_toList, Nat.add_comm] at hshown
      exact hshown
    | ok tokens =>
      obtain ⟨pieces, hlayout⟩ := exists_layout_of_scan hscan
      refine yields_build (Nat.le_add_left _ _) fun token htoken => ?_
      obtain ⟨hone, hlength⟩ := hlayout.column_bounds token htoken
      exact ⟨hone, hlength.trans (Nat.le_succ _)⟩
  refine hparse.bind fun e _ => (yields_eval context e).mono (fun _ h => h) ?_
  exact fun _ h => h.shownWithin _ _

/-- A text that is read as tokens consists of them and of white space, and their columns count the
characters before them, whether they are counted from the start or from token to token. The column
of an error is that of a character of the text or of its end. -/
theorem columns_of_source (source : String) :
    (∀ tokens, scan 1 source.toList = .ok tokens → ∃ pieces, Layout source tokens pieces) ∧
      ∀ context message column, evaluate source context = .error (.malformed message column) →
        1 ≤ column ∧ column ≤ source.length + 1 :=
  ⟨fun _ => exists_layout_of_scan, fun context _ _ => (yields_evaluate source context).of_error⟩

/-- A name behind a quoted text with a character of two bytes. -/
theorem columns_of_accented :
    (scan 1 "'é'  x".toList
        = .ok [⟨.text "é", ['\'', 'é', '\''], 1⟩, ⟨.name "x", ['x'], 6⟩] ∧
      ∃ pieces, Layout "'é'  x"
        [⟨.text "é", ['\'', 'é', '\''], 1⟩, ⟨.name "x", ['x'], 6⟩] pieces) ∧
    evaluate "'é'  x" none = .error (.malformed "unexpected name 'x'" 6) ∧
      1 ≤ 6 ∧ 6 ≤ "'é'  x".length + 1 := by
  have hscan : scan 1 "'é'  x".toList
      = .ok [⟨.text "é", ['\'', 'é', '\''], 1⟩, ⟨.name "x", ['x'], 6⟩] := by with_unfolding_all rfl
  have herror : evaluate "'é'  x" none = .error (.malformed "unexpected name 'x'" 6) := by
    with_unfolding_all rfl
  exact ⟨⟨hscan, (columns_of_source _).1 _ hscan⟩, herror, (columns_of_source _).2 _ _ _ herror⟩

end Stencil.Expr
