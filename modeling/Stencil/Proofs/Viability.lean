import Stencil.Proofs.Recognition

/-!
# Where an expression goes wrong

The builder reads an expression token by token and refuses one as soon as no expression goes on
with it. Whatever it has taken can still be completed: it takes an operand where one has to follow,
and a parenthesis for each one that stands open (`exists_completion`). So a failure shows at the
first token that is impossible behind those before it, or at the end if there is none.

Main statement: `build_stops_at_impossible`, which also says where a failure puts the blame: it
names a construct where that token belongs to one which the language leaves out (`Unsupported`),
and otherwise gives the column of the token.
-/

namespace Stencil.Expr

open Stencil.Expr.Derivation (Atom)

/-- Tokens that a list of tokens which makes an expression starts with. -/
def Viable (tokens : List Token) : Prop :=
  ∃ later column e, build column (tokens ++ later) = .ok e

/-- The column of the token with this index, or one past the end of the text. -/
def columnAt (column : Nat) (tokens : List Token) (i : Nat) : Nat :=
  (tokens[i]?.map Token.column).getD column

/-- The operators and other symbols of richer expression languages by which a construct is
recognised. -/
def foreignOperators : List String :=
  ["//", "&", "|", "^", "~", "<<", ">>", "@", "=", "+=", "-=", "*=", "/=", "%=", "**=", "//=",
   ">>=", "<<=", ":=", "[", "\x7b", ",", ".", "!", ":", ";", "->"]

/-- Behind the lexemes `before`, a lexeme belongs to a construct that the language leaves out. -/
inductive Unsupported (before : List Lexeme) : Lexeme → Prop
  | operator {spelling : String} (h : spelling ∈ foreignOperators) :
    Unsupported before (.symbol (.foreign spelling))
  | keyword {word : String} (h : word ∈ keywords) : Unsupported before (.name word)
  /-- A call, a subscript or an attribute, right behind an atom. -/
  | behindAtom {symbol : Symbol} (hsymbol : symbol ∈ [.opening, .foreign ".", .foreign "["])
    (front : List Lexeme) (atom : Atom) (h : before = front ++ atom.lexemes) :
    Unsupported before (.symbol symbol)
  /-- Parentheses with nothing in them. -/
  | emptyGroup (front : List Lexeme) (h : before = front ++ [.symbol .opening]) :
    Unsupported before (.symbol .closing)

variable {frames : List Frame} {lexemes : List Lexeme} {b b' : Builder} {tokens : List Token}
  {token : Token} {error : Error} {e : Expr} {isText : Bool}

/-! ## What has been taken can be completed -/

/-- What stays open behind an operator is loose for it. -/
theorem loose_reduce (strength : Nat) (e : Expr) (frames : List Frame) :
    Loose strength (reduce strength e frames).2 := by
  induction frames generalizing e with
  | nil => exact loose_nil strength
  | cons frame frames ih =>
    rw [reduce]
    split
    · exact ih _
    · rename_i hlt
      exact loose_cons.2 (Nat.lt_of_not_le hlt)

/-- Completing frames opens none. -/
theorem length_reduce_le (strength : Nat) (e : Expr) (frames : List Frame) :
    (reduce strength e frames).2.length ≤ frames.length := by
  induction frames generalizing e with
  | nil => exact Nat.le_refl 0
  | cons frame frames ih =>
    rw [reduce]
    split
    · exact Nat.le_succ_of_le (ih _)
    · exact Nat.le_refl _

/-- Where every comparison is complete, a parenthesis stands open or nothing does. -/
theorem Loose.eq_nil_or_group (h : Loose 1 frames) :
    frames = [] ∨ ∃ outer, frames = .group :: outer := by
  cases frames with
  | nil => exact .inl rfl
  | cons frame outer =>
    have hlt := loose_cons.1 h
    cases frame with
    | group => exact .inr ⟨outer, rfl⟩
    | _ => simp [Frame.strength] at hlt

/-- Parentheses complete an operand, whatever stands open. -/
theorem exists_closings (e : Expr) (isText : Bool) (frames : List Frame) :
    ∃ later b whole, Takes later (.holding e isText frames) b ∧
      ∀ column, b.finish column = .ok whole := by
  -- each parenthesis leaves fewer frames
  induction hlength : frames.length using Nat.strongRecOn generalizing e isText frames with
  | ind n ih =>
    have hle := length_reduce_le 1 e frames
    obtain ⟨whole, inner, hreduce⟩ : ∃ whole inner, reduce 1 e frames = (whole, inner) :=
      ⟨_, _, rfl⟩
    have hloose := loose_reduce 1 e frames
    rw [hreduce] at hle hloose
    obtain rfl | ⟨outer, rfl⟩ := hloose.eq_nil_or_group
    · refine ⟨[], .holding e isText frames, whole, takes_nil _, fun column => ?_⟩
      simp [Builder.finish, hreduce]
    · have hlt : outer.length < n := by
        rw [List.length_cons] at hle
        omega
      obtain ⟨later, b, whole', htakes, hfinish⟩ := ih _ hlt whole false outer rfl
      have hclosing : Takes [.symbol .closing] (.holding e isText frames)
          (.holding whole false outer) := by
        apply takes_of_step
        intro token htoken
        simp [Builder.step, Builder.behind, htoken, hreduce]
      exact ⟨_, b, whole', hclosing.append htakes, hfinish⟩

/-- What the builder has taken can be completed. -/
theorem exists_completion (b : Builder) :
    ∃ later b' whole, Takes later b b' ∧ ∀ column, b'.finish column = .ok whole := by
  cases b with
  | holding e isText frames => exact exists_closings e isText frames
  | waiting frames =>
    obtain ⟨later, b', whole, htakes, hfinish⟩ := exists_closings (.literal (.int 0)) false frames
    have hoperand : Takes [.integer 0] (.waiting frames)
        (.holding (.literal (.int 0)) false frames) := by
      apply takes_operand
      intro token htoken
      simp [Builder.operand, htoken]
    exact ⟨_, b', whole, hoperand.append htakes, hfinish⟩

/-- What a run leaves is built if it can be finished. -/
theorem build_of_finish {column : Nat} (hrun : tokens.foldlM Builder.step (.waiting []) = .ok b)
    (hfinish : b.finish column = .ok e) : build column tokens = .ok e := by
  cases tokens with
  | nil =>
    cases hrun
    cases hfinish
  | cons token tokens =>
    rw [build, List.isEmpty_cons, if_neg Bool.false_ne_true, hrun]
    exact hfinish

/-- Tokens that the builder takes are viable. -/
theorem viable_of_foldlM (h : tokens.foldlM Builder.step (.waiting []) = .ok b) :
    Viable tokens := by
  obtain ⟨later, b', whole, htakes, hfinish⟩ := exists_completion b
  refine ⟨later.map fun lexeme => ⟨lexeme, [], 0⟩, 0, whole, build_of_finish ?_ (hfinish 0)⟩
  rw [List.foldlM_append, h]
  exact htakes _ (by simp [Function.comp_def])

/-- With a token that the builder refuses they no longer are. -/
theorem not_viable_of_step (h : tokens.foldlM Builder.step (.waiting []) = .ok b)
    (hstep : b.step token = .error error) : ¬ Viable (tokens ++ [token]) := by
  rintro ⟨later, column, e, hbuild⟩
  obtain ⟨last, hrun, -⟩ := build_eq_ok hbuild
  rw [List.append_assoc, List.foldlM_append, h, ok_bind, List.singleton_append, List.foldlM_cons,
    hstep] at hrun
  cases hrun

/-! ## Refused tokens -/

/-- The error says of a refused token that it belongs to a construct that is left out, if it does,
and otherwise where it stands. -/
def Explains (before : List Lexeme) (token : Token) (error : Error) : Prop :=
  (Unsupported before token.lexeme ∧ ∃ construct, error = .unsupported construct) ∨
    ¬ Unsupported before token.lexeme ∧ ∃ message, error = .malformed message token.column

/-- The symbols of richer languages are the foreign ones. -/
theorem foreignConstruct?_eq_none {spelling : String} :
    foreignConstruct? spelling = none ↔ spelling ∉ foreignOperators := by
  simp [foreignConstruct?, foreignOperators, and_assoc, ite_some_eq_none]

/-- A token is refused for itself, unless it is a parenthesis: one that opens is a call behind an
operand, and one that closes may leave the parentheses empty. -/
theorem explains_reject (hopening : token.lexeme ≠ .symbol .opening)
    (hclosing : token.lexeme = .symbol .closing → lexemes.getLast? ≠ some (.symbol .opening)) :
    Explains lexemes token (reject token) := by
  obtain ⟨lexeme, spelling, column⟩ := token
  cases lexeme with
  | integer | decimal | text => exact .inr ⟨by rintro ⟨⟩, _, rfl⟩
  | name word =>
    -- A word is rejected as a construct that is left out, or for its place.
    by_cases hword : word ∈ keywords
    · have hsome : reservedConstruct? word ≠ none := fun h => reservedConstruct?_eq_none.1 h hword
      obtain ⟨construct, hconstruct⟩ := Option.ne_none_iff_exists'.1 hsome
      simp only [Explains, reject, hconstruct]
      exact .inl ⟨.keyword hword, _, rfl⟩
    · simp only [Explains, reject, reservedConstruct?_eq_none.2 hword]
      refine .inr ⟨?_, _, rfl⟩
      rintro ⟨⟩
      contradiction
  | symbol symbol =>
    cases symbol with
    | opening => exact absurd rfl hopening
    | operator op | comparison op =>
      refine .inr ⟨?_, _, rfl⟩
      intro h
      cases h with
      | behindAtom hsymbol => simp at hsymbol
    | closing =>
      refine .inr ⟨?_, _, rfl⟩
      intro h
      cases h with
      | behindAtom hsymbol => simp at hsymbol
      | emptyGroup front h => exact hclosing rfl (by simp [h])
    | foreign spelling =>
      -- So is a foreign symbol.
      by_cases hspelling : spelling ∈ foreignOperators
      · have hsome : foreignConstruct? spelling ≠ none :=
          fun h => foreignConstruct?_eq_none.1 h hspelling
        obtain ⟨construct, hconstruct⟩ := Option.ne_none_iff_exists'.1 hsome
        simp only [Explains, reject, Symbol.construct?, hconstruct]
        exact .inl ⟨.operator hspelling, _, rfl⟩
      · simp only [Explains, reject, Symbol.construct?, foreignConstruct?_eq_none.2 hspelling]
        refine .inr ⟨?_, _, rfl⟩
        intro h
        cases h with
        | operator h => exact hspelling h
        | behindAtom hsymbol =>
          simp only [List.mem_cons, reduceCtorEq, Symbol.foreign.injEq, List.not_mem_nil, or_false,
            false_or] at hsymbol
          obtain rfl | rfl := hsymbol
          all_goals exact hspelling (by decide)

/-- The innermost frame is a parenthesis where the last lexeme is one that opens. -/
theorem Opened.eq_group_of_getLast? (h : Opened lexemes frames)
    (hlast : lexemes.getLast? = some (.symbol .opening)) : ∃ outer, frames = .group :: outer := by
  cases h with
  | group => exact ⟨_, rfl⟩
  | _ => simp at hlast

/-- A parenthesis that is open is the last lexeme in front of its operand. -/
theorem Opened.exists_of_group {outer : List Frame} (h : Opened lexemes (.group :: outer)) :
    ∃ front, lexemes = front ++ [.symbol .opening] := by
  cases h with
  | group => exact ⟨_, rfl⟩

/-- The last lexeme of an atom ends an operand. -/
theorem Derivation.Atom.exists_getLast? (atom : Atom) :
    ∃ x, atom.lexemes.getLast? = some x ∧ EndsOperand x := by
  cases atom with
  | texts first more =>
    rw [Atom.lexemes, List.getLast?_map, List.getLast?_cons]
    exact ⟨_, rfl, trivial⟩
  | group inner =>
    have hlast : (Atom.group inner).lexemes
        = (.symbol .opening :: inner.lexemes) ++ [.symbol .closing] := by
      rw [Atom.lexemes, List.cons_append]
    rw [hlast, List.getLast?_concat]
    exact ⟨_, rfl, trivial⟩
  | _ => exact ⟨_, rfl, trivial⟩

/-- Where an operand has to follow, a token that is refused is explained. -/
theorem explains_operand (h : Opened lexemes frames)
    (hstep : Builder.operand frames token = .error error) : Explains lexemes token error := by
  unfold Builder.operand at hstep
  split at hstep
  case h_4 word hlexeme =>
    split at hstep
    · cases hstep
      exact explains_reject (by simp [hlexeme]) (by simp [hlexeme])
    · cases hstep
  case h_8 hlexeme =>
    cases hstep
    obtain ⟨front, hfront⟩ := h.exists_of_group
    exact .inl ⟨hlexeme ▸ .emptyGroup front hfront, _, rfl⟩
  case h_9 hopening hclosing =>
    cases hstep
    refine explains_reject hopening fun hlexeme hlast => ?_
    obtain ⟨outer, rfl⟩ := h.eq_group_of_getLast? hlast
    exact hclosing outer hlexeme rfl
  all_goals cases hstep

/-- Behind a complete operand, too. -/
theorem explains_behind (h : Holds lexemes (.holding e isText frames))
    (hstep : Builder.behind e isText frames token = .error error) :
    Explains lexemes token error := by
  obtain ⟨before, hopened, atom, rfl, hlexemes, -⟩ := h
  have hlast : lexemes.getLast? ≠ some (.symbol .opening) := by
    obtain ⟨x, hx, hends⟩ := atom.exists_getLast?
    rw [hlexemes, List.getLast?_append, hx, Option.some_or]
    rintro ⟨⟩
    exact hends
  -- A call, an attribute and a subscript are constructs that are left out behind an atom. Any other
  -- token that is refused here is rejected for itself.
  unfold Builder.behind at hstep
  split at hstep
  case h_3 hlexeme =>
    cases hstep
    exact .inl ⟨hlexeme ▸ .behindAtom (by simp) before atom hlexemes, _, rfl⟩
  case h_4 hlexeme =>
    split at hstep
    · cases hstep
    · cases hstep
      exact explains_reject (by simp [hlexeme]) fun _ => hlast
  case h_5 spelling hlexeme =>
    split at hstep
    · rename_i hspelling
      cases hstep
      exact .inl ⟨hlexeme ▸ .behindAtom (by simp [hspelling]) before atom hlexemes, _, rfl⟩
    · split at hstep
      · rename_i hspelling
        cases hstep
        exact .inl ⟨hlexeme ▸ .behindAtom (by simp [hspelling]) before atom hlexemes, _, rfl⟩
      · cases hstep
        exact explains_reject (by simp [hlexeme]) fun _ => hlast
  case h_6 hlexeme =>
    split at hstep
    · cases hstep
    · cases hstep
      exact explains_reject (by simp [hlexeme]) fun _ => hlast
  case h_7 hopening _ _ _ =>
    cases hstep
    exact explains_reject hopening fun _ => hlast
  all_goals cases hstep

/-- Whatever token is refused, the error explains it. -/
theorem explains_step (h : Holds lexemes b) (hstep : b.step token = .error error) :
    Explains lexemes token error := by
  cases b with
  | waiting frames => exact explains_operand h hstep
  | holding e isText frames => exact explains_behind h hstep

/-- An expression that cannot end says so at its end. -/
theorem malformed_of_finish {column : Nat} (h : b.finish column = .error error) :
    ∃ message, error = .malformed message column := by
  cases b with
  | waiting frames =>
    cases h
    exact ⟨_, rfl⟩
  | holding e isText frames =>
    simp only [Builder.finish] at h
    split at h
    · cases h
    · cases h
      exact ⟨_, rfl⟩

/-! ## The place of a failure -/

/-- Tokens fail at the index `i`, which is that of the first impossible token, or their number where
all of them are possible. -/
structure StopsAt (column : Nat) (tokens : List Token) (error : Error) (i : Nat) : Prop where
  le_length : i ≤ tokens.length
  /-- Some expression goes on behind the tokens before it. -/
  viable : Viable (tokens.take i)
  /-- No expression starts with these and the token itself. -/
  impossible : i < tokens.length → ¬ Viable (tokens.take (i + 1))
  /-- The error names a construct, or gives the column. -/
  blames : (∃ message, error = .malformed message (columnAt column tokens i)) ∨
    ∃ construct, error = .unsupported construct
  /-- It names a construct where the token belongs to one that is left out. -/
  unsupported_iff : (∃ construct, error = .unsupported construct) ↔
    ∃ token, tokens[i]? = some token ∧
      Unsupported ((tokens.take i).map (·.lexeme)) token.lexeme

/-- A failure at a token that is refused. -/
theorem stopsAt_token {before after : List Token} (column : Nat)
    (hrun : before.foldlM Builder.step (.waiting []) = .ok b)
    (hstep : b.step token = .error error) :
    StopsAt column (before ++ token :: after) error before.length := by
  have htake : (before ++ token :: after).take before.length = before := List.take_left
  have htoken : (before ++ token :: after)[before.length]? = some token := by simp
  have hempty : Holds [] (.waiting []) := Opened.nil
  have hexplains := explains_step (holds_foldlM hempty hrun) hstep
  rw [List.nil_append] at hexplains
  -- What is in front is viable, with the token it is not; then the column and the construct.
  refine ⟨by simp, ?_, ?_, ?_, ?_⟩
  · rw [htake]
    exact viable_of_foldlM hrun
  · intro _
    rw [List.take_add_one, htake, htoken]
    exact not_viable_of_step hrun hstep
  · rw [columnAt, htoken]
    obtain ⟨-, hunsupported⟩ | ⟨-, hmalformed⟩ := hexplains
    · exact .inr hunsupported
    · exact .inl hmalformed
  · rw [htake, htoken]
    obtain ⟨hthere, hunsupported⟩ | ⟨hnot, message, rfl⟩ := hexplains
    · exact ⟨fun _ => ⟨token, rfl, hthere⟩, fun _ => hunsupported⟩
    · refine ⟨?_, ?_⟩
      · rintro ⟨construct, ⟨⟩⟩
      · rintro ⟨_, ⟨⟩, hthere⟩
        exact absurd hthere hnot

/-- A failure at the end. -/
theorem stopsAt_end {message : String} (column : Nat)
    (hrun : tokens.foldlM Builder.step (.waiting []) = .ok b) :
    StopsAt column tokens (.malformed message column) tokens.length := by
  have hnone : tokens[tokens.length]? = none := by simp
  refine ⟨Nat.le_refl _, ?_, fun hlt => absurd hlt (Nat.lt_irrefl _), .inl ⟨message, ?_⟩, ?_, ?_⟩
  · rw [List.take_length]
    exact viable_of_foldlM hrun
  · rw [columnAt, hnone]
    rfl
  · rintro ⟨construct, ⟨⟩⟩
  · rintro ⟨token, htoken, -⟩
    cases hnone.symm.trans htoken

/-- Tokens that make no expression fail at the first one that is impossible behind those before it,
or at their end if they can be gone on with. -/
theorem build_stops_at_impossible {column : Nat} (h : build column tokens = .error error) :
    ∃ i, StopsAt column tokens error i := by
  unfold build at h
  split at h
  · rename_i hempty
    cases h
    rw [List.isEmpty_iff.1 hempty]
    exact ⟨_, stopsAt_end column rfl⟩
  · obtain hrefused | ⟨b, hrun, hfinish⟩ := bind_eq_error.1 h
    · obtain ⟨before, token, after, b, rfl, hrun, hstep⟩ := exists_of_foldlM_eq_error hrefused
      exact ⟨_, stopsAt_token column hrun hstep⟩
    · obtain ⟨message, rfl⟩ := malformed_of_finish hfinish
      exact ⟨_, stopsAt_end column hrun⟩

/-- Empty parentheses, and a parenthesis that is not closed. -/
theorem build_stops_at_impossible_parentheses :
    (build 3 [⟨.symbol .opening, ['('], 1⟩, ⟨.symbol .closing, [')'], 2⟩]
        = .error (.unsupported "tuple '()'") ∧
      ∃ i, StopsAt 3 [⟨.symbol .opening, ['('], 1⟩, ⟨.symbol .closing, [')'], 2⟩]
        (.unsupported "tuple '()'") i) ∧
    build 3 [⟨.symbol .opening, ['('], 1⟩, ⟨.integer 1, ['1'], 2⟩]
        = .error (.malformed "expected ')'" 3) ∧
      ∃ i, StopsAt 3 [⟨.symbol .opening, ['('], 1⟩, ⟨.integer 1, ['1'], 2⟩]
        (.malformed "expected ')'" 3) i :=
  ⟨⟨rfl, build_stops_at_impossible rfl⟩, rfl, build_stops_at_impossible rfl⟩

end Stencil.Expr
