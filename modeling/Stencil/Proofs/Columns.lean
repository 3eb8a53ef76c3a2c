import Stencil.Expr.Eval
import Stencil.Proofs.Results

/-!
# Outcomes without columns

Two texts that hold the same tokens at different places evaluate alike, except that an error may
show at another column. `Error.placeless` and `Token.placeless` forget columns; `build_placeless`
and `evaluate_placeless` say that nothing but the column of an error depends on those of the
tokens.
-/

namespace Stencil.Expr

/-- The error without the column where it shows. -/
def Error.placeless : Error → Error
  | .malformed message _ => .malformed message 0
  | error => error

/-- The token without its column. -/
def Token.placeless (token : Token) : Token := { token with column := 0 }

/-- The tokens that were read, or the error, without columns. -/
def placelessTokens (scanned : Except Error (List Token)) : Except Error (List Token) :=
  (scanned.map (·.map Token.placeless)).mapError Error.placeless

/-- The refusal of a token depends on the column only by showing it. -/
theorem reject_placeless (token : Token) :
    (reject token.placeless).placeless = (reject token).placeless := by
  obtain ⟨lexeme, spelling, column⟩ := token
  simp only [reject, Token.placeless]
  split
  · split <;> rfl
  · split <;> rfl
  all_goals rfl

namespace Builder

/-- So does reading a token where an operand has to follow. -/
theorem operand_placeless (frames : List Frame) (token : Token) :
    (operand frames token.placeless).mapError Error.placeless =
      (operand frames token).mapError Error.placeless := by
  have hreject := congrArg (Except.error (α := Builder)) (reject_placeless token)
  have hlexeme : token.placeless.lexeme = token.lexeme := rfl
  simp only [operand, hlexeme]
  split
  case h_4 =>
    split
    · exact hreject
    · rfl
  all_goals first | rfl | exact hreject

/-- So does reading a token behind an operand. -/
theorem behind_placeless (e : Expr) (isText : Bool) (frames : List Frame) (token : Token) :
    (behind e isText frames token.placeless).mapError Error.placeless =
      (behind e isText frames token).mapError Error.placeless := by
  have hreject := congrArg (Except.error (α := Builder)) (reject_placeless token)
  have hlexeme : token.placeless.lexeme = token.lexeme := rfl
  simp only [behind, hlexeme]
  split
  case h_4 | h_6 =>
    split
    · rfl
    · exact hreject
  case h_5 =>
    split
    · rfl
    · split
      · rfl
      · exact hreject
  all_goals first | rfl | exact hreject

/-- A step depends on the column of its token only by showing it. -/
theorem step_placeless (b : Builder) (token : Token) :
    (b.step token.placeless).mapError Error.placeless =
      (b.step token).mapError Error.placeless := by
  cases b with
  | waiting frames => exact operand_placeless frames token
  | holding e isText frames => exact behind_placeless e isText frames token

/-- Reading tokens one after the other depends on their columns only in the error. -/
theorem foldlM_placeless (b : Builder) (tokens : List Token) :
    ((tokens.map Token.placeless).foldlM step b).mapError Error.placeless =
      (tokens.foldlM step b).mapError Error.placeless := by
  induction tokens generalizing b with
  | nil => rfl
  | cons token tokens ih =>
    simp only [List.map_cons, List.foldlM_cons]
    exact mapError_bind_congr (step_placeless b token) ih

/-- The end of an expression shows its column only in the error. -/
theorem finish_placeless (b : Builder) (column column' : Nat) :
    (b.finish column).mapError Error.placeless = (b.finish column').mapError Error.placeless := by
  cases b with
  | waiting frames => rfl
  | holding e isText frames =>
    simp only [finish]
    split <;> rfl

end Builder

/-- Tokens that differ in their columns only make the same expression, or fail alike. -/
theorem build_placeless {tokens tokens' : List Token}
    (h : tokens.map Token.placeless = tokens'.map Token.placeless) (column column' : Nat) :
    (build column tokens).mapError Error.placeless =
      (build column' tokens').mapError Error.placeless := by
  have hempty : tokens.isEmpty = tokens'.isEmpty := by
    have hmap := congrArg List.isEmpty h
    rwa [List.isEmpty_map, List.isEmpty_map] at hmap
  unfold build
  rw [hempty]
  split
  · rfl
  · refine mapError_bind_congr ?_ fun b => b.finish_placeless column column'
    rw [← Builder.foldlM_placeless, h, Builder.foldlM_placeless]

/-- Texts with the same tokens at perhaps other columns have the same value, or fail alike. -/
theorem evaluate_placeless {source source' : String}
    (h : placelessTokens (scan 1 source.toList) = placelessTokens (scan 1 source'.toList))
    (context : Option Context) :
    (evaluate source context).mapError Error.placeless =
      (evaluate source' context).mapError Error.placeless := by
  -- Scanning both comes to tokens or to an error, and only the columns differ.
  have hparse : (parse source).mapError Error.placeless =
      (parse source').mapError Error.placeless := by
    unfold parse
    cases hs : scan 1 source.toList with
    | error e =>
      cases hs' : scan 1 source'.toList with
      | error e' =>
        rw [hs, hs'] at h
        exact congrArg Except.error (Except.error.inj h)
      | ok tokens' =>
        rw [hs, hs'] at h
        cases h
    | ok tokens =>
      cases hs' : scan 1 source'.toList with
      | error e' =>
        rw [hs, hs'] at h
        cases h
      | ok tokens' =>
        rw [hs, hs'] at h
        exact build_placeless (Except.ok.inj h) _ _
  exact mapError_bind_congr hparse fun e => rfl

end Stencil.Expr
