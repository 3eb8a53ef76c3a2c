/-!
# Tokens of a template

A template is text with markers in it. An expression marker is written between `{{` and `}}`, a
block marker between `{%` and `%}`. A token is a run of text, a delimiter, or a word inside a
marker, and carries the line on which it starts.
-/

namespace Stencil.Markup

/-- The two kinds of marker. -/
inductive Delimiter where
  /-- `{{` and `}}`, around an expression. -/
  | expression
  /-- `{%` and `%}`, around a statement. -/
  | block
  deriving DecidableEq, Repr

namespace Delimiter

/-- The delimiter whose opening form ends in a given character, after a brace. -/
def ofChar? : Char → Option Delimiter
  | '{' => some .expression
  | '%' => some .block
  | _ => none

/-- The character behind the brace of the opening form. -/
def opener : Delimiter → Char
  | .expression => '{'
  | .block => '%'

/-- The character before the brace of the closing form. -/
def closer : Delimiter → Char
  | .expression => '}'
  | .block => '%'

/-- How the delimiter opens a marker. -/
def opening (d : Delimiter) : List Char := ['{', d.opener]

/-- How the delimiter closes a marker. -/
def closing (d : Delimiter) : List Char := [d.closer, '}']

theorem ofChar?_eq_some {c : Char} {d : Delimiter} : ofChar? c = some d ↔ c = d.opener := by
  constructor
  · intro h
    unfold ofChar? at h
    split at h <;> simp_all [opener] <;> subst h <;> rfl
  · rintro rfl
    cases d <;> rfl

end Delimiter

/-- What a token is. -/
inductive Lexeme where
  /-- The opening of a marker. -/
  | opening (delimiter : Delimiter)
  /-- The closing of a marker. -/
  | closing (delimiter : Delimiter)
  /-- One word inside a marker. -/
  | word (text : String)
  /-- A run of text outside markers. -/
  | content (text : String)
  /-- A place that no token fills; no source text gives it. -/
  | vacant
  deriving DecidableEq, Repr

/-- A lexeme and the line, counted from one, on which it starts. A word starts where its marker
does. -/
structure Token where
  lexeme : Lexeme
  line : Nat
  deriving DecidableEq, Repr

/-- How an error message names a lexeme. -/
def Lexeme.describe : Lexeme → String
  | .opening d => "'" ++ String.ofList d.opening ++ "'"
  | .closing d => "'" ++ String.ofList d.closing ++ "'"
  | .word text => "'" ++ text ++ "'"
  | .content _ => "content"
  | .vacant => "nothing"

end Stencil.Markup
