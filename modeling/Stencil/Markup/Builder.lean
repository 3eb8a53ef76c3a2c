import Stencil.Markup.Error
import Stencil.Markup.Node
import Stencil.Markup.Scan

/-!
# Building the tree

The tree of a template is built in one pass over its tokens. The builder keeps the blocks that are
still open, innermost first, and in front of each the siblings that stand before it; a token
either extends the innermost list of siblings, opens a block, closes one, or is refused. Because a
token is refused the moment it is met, a source that starts with a refused one stays refused
whatever follows it (`foldlM_append`).

Main definitions: `Builder.step` reads one token, `Builder.finish` closes the template,
`build` does both for a list of tokens, and `parse` for a source.
-/

namespace Stencil.Markup

/-- A block that is open, with the siblings before it, latest first. -/
inductive Frame where
  /-- In the body of a conditional. -/
  | conditional (before : List Node) (condition : List String)
  /-- In the other branch of a conditional, whose body is complete. -/
  | alternative (before : List Node) (condition : List String) (body : List Node)
  /-- In the body of a region. -/
  | region (before : List Node) (name : String)

/-- A marker whose closing delimiter is still to come. -/
structure OpenMarker where
  delimiter : Delimiter
  line : Nat
  /-- The words so far, latest first. -/
  words : List String
  deriving DecidableEq, Repr

/-- What has been built from the tokens so far. -/
structure Builder where
  /-- The line of the last token; one if there was none. -/
  line : Nat := 1
  /-- The marker that is being read. -/
  marker : Option OpenMarker := none
  /-- The finished nodes of the innermost open block, latest first. -/
  nodes : List Node := []
  /-- The open blocks, innermost first. -/
  outer : List Frame := []

namespace Builder

/-- The builder with one more finished node. -/
def push (b : Builder) (node : Node) : Builder := { b with nodes := node :: b.nodes }

/-- The builder inside a new block. -/
def enter (b : Builder) (frame : Frame) : Builder :=
  { b with nodes := [], outer := frame :: b.outer }

/-- The builder back outside the innermost block, which has become `node`. -/
def leave (b : Builder) (before : List Node) (node : Node) (outer : List Frame) : Builder :=
  { b with nodes := node :: before, outer }

end Builder

/-! ## Arguments -/

/-- The text between two quotes of a kind, if it stands between such. -/
def betweenQuotes? (quote : Char) : List Char → Option (List Char)
  | c :: s => if c = quote ∧ s.getLast? = some quote then some s.dropLast else none
  | [] => none

/-- A name or reference without the pair of quotes around it, if there is one. -/
def unquote (argument : String) : String :=
  match betweenQuotes? '"' argument.toList <|> betweenQuotes? '\'' argument.toList with
  | some inner => String.ofList inner
  | none => argument

/-- The one argument that a keyword takes, without its quotes. -/
def soleArgument (keyword : String) : List String → Except Fault String
  | [] => .error (.missingArgument keyword)
  | [argument] => .ok (unquote argument)
  | _ :: extra :: _ => .error (.unexpectedArgument keyword extra)

/-- The arguments of a keyword that takes at least one. -/
def someArguments (keyword : String) : List String → Except Fault (List String)
  | [] => .error (.missingArgument keyword)
  | arguments => .ok arguments

/-- Checks the arguments of a keyword that takes none. -/
def noArguments (keyword : String) : List String → Except Fault Unit
  | [] => .ok ()
  | argument :: _ => .error (.unexpectedArgument keyword argument)

/-! ## Markers -/

namespace Builder

/-- Reads an `else`: the body of the innermost conditional is complete. -/
def alternate (b : Builder) : Except Fault Builder :=
  match b.outer with
  | .conditional before condition :: outer =>
    .ok { b with
      nodes := []
      outer := .alternative before condition b.nodes.reverse :: outer }
  | .alternative .. :: _ => .error (.unbalanced "else" "appears twice in the same if block")
  | .region .. :: _ => .error (.unbalanced "else" "cannot be used inside an insert block")
  | [] => .error (.unbalanced "else" "has no matching if")

/-- Reads an `endblock`: the innermost block is complete. -/
def close (b : Builder) : Except Fault Builder :=
  match b.outer with
  | .conditional before condition :: outer =>
    .ok (b.leave before (.conditional condition b.nodes.reverse none) outer)
  | .alternative before condition body :: outer =>
    .ok (b.leave before
      (.conditional condition body (some (.alternative b.nodes.reverse))) outer)
  | .region before name :: outer => .ok (b.leave before (.region name b.nodes.reverse) outer)
  | [] => .error (.unbalanced "endblock" "has no matching block")

/-- Reads a complete expression marker. -/
def expressionMarker (b : Builder) (first : String) (arguments : List String) :
    Except Fault Builder :=
  match Keyword.ofWord? first with
  | none => .ok (b.push (.output (first :: arguments)))
  | some .parent => return b.push (.parent (← soleArgument first arguments))
  | some _ => .error (.misplacedKeyword first)

/-- Reads a complete block marker. -/
def blockMarker (b : Builder) (first : String) (arguments : List String) :
    Except Fault Builder :=
  match Keyword.ofWord? first with
  | none => .error (.unknownKeyword first)
  | some .parent => return b.push (.parent (← soleArgument first arguments))
  | some .conditional =>
    return b.enter (.conditional b.nodes (← someArguments first arguments))
  | some .region => return b.enter (.region b.nodes (← soleArgument first arguments))
  | some .alternative => do
    noArguments first arguments
    b.alternate
  | some .finish => do
    noArguments first arguments
    b.close

/-- Reads a complete marker. -/
def marked (b : Builder) : Delimiter → String → List String → Except Fault Builder
  | .expression => b.expressionMarker
  | .block => b.blockMarker

/-! ## Tokens -/

/-- Reads a token outside markers. -/
def outside (b : Builder) (token : Token) : Except Error Builder :=
  match token.lexeme with
  | .content text => .ok (b.push (.content text))
  | .opening delimiter => .ok { b with marker := some ⟨delimiter, token.line, []⟩ }
  | lexeme => .error ⟨token.line, .unexpectedToken "content or marker" lexeme.describe⟩

/-- Reads a token inside a marker. -/
def inside (b : Builder) (m : OpenMarker) (token : Token) : Except Error Builder :=
  match token.lexeme, m.words with
  | .word text, words => .ok { b with marker := some { m with words := text :: words } }
  | lexeme, words =>
    if lexeme = .closing m.delimiter then
      match words.reverse with
      | [] => .error ⟨token.line, .emptyMarker⟩
      | first :: arguments =>
        (marked { b with marker := none } m.delimiter first arguments).mapError
          fun fault => ⟨m.line, fault⟩
    else
      let expected := if words = [] then "keyword or expression" else "end of marker"
      .error ⟨token.line, .unexpectedToken expected lexeme.describe⟩

/-- Reads one token. -/
def step (b : Builder) (token : Token) : Except Error Builder :=
  let b := { b with line := token.line }
  match b.marker with
  | none => b.outside token
  | some m => b.inside m token

/-- What has to follow before the template can end, if anything. -/
def awaits (b : Builder) : Option String :=
  match b.marker, b.outer with
  | some m, _ => some (if m.words = [] then "keyword" else "end of marker")
  | none, .conditional .. :: _ => some "\x7b% else %\x7d or \x7b% endblock %\x7d"
  | none, .alternative .. :: _ | none, .region .. :: _ => some "\x7b% endblock %\x7d"
  | none, [] => none

/-- The finished template. -/
def finish (b : Builder) : Except Error Node :=
  match b.awaits with
  | some expected => .error ⟨b.line, .unexpectedEndOf (some expected)⟩
  | none => .ok (.template b.nodes.reverse)

/-- Reads the tokens of one list and then those of another. -/
theorem foldlM_append (b : Builder) (tokens later : List Token) :
    (tokens ++ later).foldlM step b = (tokens.foldlM step b).bind (later.foldlM step) :=
  List.foldlM_append

end Builder

/-- The template that a list of tokens makes. -/
def build (tokens : List Token) : Except Error Node := do
  (← tokens.foldlM Builder.step {}).finish

/-- The template that a source spells. -/
def parse (source : String) : Except Error Node := build (tokenize source)

end Stencil.Markup
