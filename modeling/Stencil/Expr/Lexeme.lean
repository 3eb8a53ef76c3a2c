import Stencil.Expr.Basic
import Stencil.Expr.Error

/-!
# Lexemes of expressions

The pieces an expression is written with. Besides the operators of the language there are foreign
symbols and reserved words: spellings that mean something in richer expression languages and
nothing here. They are recognised so that an error can name the construct that is left out.
-/

namespace Stencil.Expr

/-- Punctuation. -/
inductive Symbol where
  | operator (op : Operator)
  | comparison (op : Comparison)
  /-- An opening parenthesis. -/
  | opening
  /-- A closing parenthesis. -/
  | closing
  /-- Punctuation that no expression here contains. -/
  | foreign (spelling : String)
  deriving DecidableEq, Repr

/-- How a symbol is written. -/
def Symbol.spelling : Symbol → String
  | .operator op => op.symbol
  | .comparison op => op.symbol
  | .opening => "("
  | .closing => ")"
  | .foreign spelling => spelling

/-- All symbols. One that another one starts with comes after it, so that the first match is the
longest. -/
def symbols : List Symbol :=
  [.foreign "**=", .foreign "//=", .foreign ">>=", .foreign "<<=",
   .operator .pow, .foreign "//", .comparison .eq, .comparison .ne, .comparison .le,
   .comparison .ge, .foreign ":=", .foreign "<<", .foreign ">>", .foreign "->", .foreign "+=",
   .foreign "-=", .foreign "*=", .foreign "/=", .foreign "%=",
   .operator .add, .operator .sub, .operator .mul, .operator .div, .operator .mod,
   .comparison .lt, .comparison .gt, .opening, .closing, .foreign "[", .foreign "]",
   .foreign "\x7b", .foreign "\x7d", .foreign ",", .foreign ".", .foreign ":", .foreign ";",
   .foreign "=", .foreign "&", .foreign "|", .foreign "^", .foreign "~", .foreign "@",
   .foreign "!"]

/-- The construct that a foreign symbol would belong to, if one is known. -/
def foreignConstruct? (spelling : String) : Option String :=
  if spelling = "//" then some "floor division"
  else if spelling ∈ ["&", "|", "^", "~", "<<", ">>"] then some "bitwise operator"
  else if spelling = "@" then some "matrix multiplication"
  else if spelling ∈ ["=", "+=", "-=", "*=", "/=", "%=", "**=", "//=", ">>=", "<<="] then
    some "assignment"
  else if spelling = ":=" then some "assignment expression"
  else if spelling = "[" then some "list literal"
  else if spelling = "\x7b" then some "dict or set literal"
  else if spelling = "," then some "tuple"
  else if spelling = "." then some "attribute access"
  else if spelling = "!" then some "boolean operator"
  else if spelling ∈ [":", ";", "->"] then some "statement syntax"
  else none

/-- The construct that a symbol would belong to, if it is foreign and one is known. -/
def Symbol.construct? : Symbol → Option String
  | .foreign spelling => foreignConstruct? spelling
  | _ => none

/-- The construct that a reserved word belongs to; no other word has one. -/
def reservedConstruct? (word : String) : Option String :=
  if word ∈ ["and", "or", "not"] then some "boolean operator"
  else if word ∈ ["is", "in"] then some "identity or membership test"
  else if word = "lambda" then some "lambda"
  else if word ∈ ["if", "else"] then some "conditional expression"
  else if word ∈ ["await", "yield"] then some "generator or coroutine"
  else if word ∈ ["for", "while", "import", "from", "def", "class", "return", "del", "global",
      "nonlocal", "assert", "pass", "break", "continue", "raise", "try", "except", "finally",
      "with", "as", "async", "elif"] then some "keyword"
  else none

/-- What a token of an expression is. -/
inductive Lexeme where
  | integer (n : Int64)
  | decimal (x : Float)
  | text (s : String)
  | name (s : String)
  | symbol (s : Symbol)

/-- A lexeme, how it is written, and the column of its first character. -/
structure Token where
  lexeme : Lexeme
  spelling : List Char
  column : Nat

end Stencil.Expr
