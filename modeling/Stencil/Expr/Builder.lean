import Stencil.Expr.Lexeme

/-!
# Building expressions

An expression is built in one pass over its tokens. The builder either waits for an operand or
holds a complete one, and keeps what stands open to the left, innermost first: signs, operators
with their left operand, chains of comparisons, and parentheses.

An operator closes everything to its left that binds at least as tightly (`Frame.strength`). From
loose to tight these are comparisons, which make one flat chain; `+` and `-`; `*`, `/` and `%`,
all associating to the left; signs; and `**`, which closes nothing, so that it associates to the
right, binds tighter than a sign on its left and takes a signed right operand.

Main definitions: `Builder.step` reads one token, `Builder.finish` ends the expression, and
`build` does both for a list of tokens.
-/

namespace Stencil.Expr

/-! ## What stands open -/

/-- Something to the left that an operand completes. -/
inductive Frame where
  | signed (sign : Sign)
  /-- The base of `**`. -/
  | power (base : Expr)
  /-- The left operand of `*`, `/` or `%`. -/
  | product (left : Expr) (op : Operator)
  /-- The left operand of `+` or `-`. -/
  | sum (left : Expr) (op : Operator)
  /-- A first operand, the links behind it, latest first, and a comparison. -/
  | chain (first : Expr) (links : List (Comparison × Expr)) (op : Comparison)
  /-- An opening parenthesis. -/
  | group

/-- How tightly a frame binds to the operand on its right. -/
def Frame.strength : Frame → Nat
  | .signed _ | .power _ => 4
  | .product .. => 3
  | .sum .. => 2
  | .chain .. => 1
  | .group => 0

/-- The expression that a frame makes of its operand. -/
def Frame.complete : Frame → Expr → Expr
  | .signed sign, e => .signed sign e
  | .power base, e => .binary base .pow e
  | .product left op, e => .binary left op e
  | .sum left op, e => .binary left op e
  | .chain first links op, e => .chain first ((op, e) :: links).reverse
  | .group, e => e

/-- Completes the frames of at least a given strength, and keeps the others. -/
def reduce (strength : Nat) (e : Expr) : List Frame → Expr × List Frame
  | [] => (e, [])
  | frame :: frames =>
    if strength ≤ frame.strength then reduce strength (frame.complete e) frames
    else (e, frame :: frames)

/-! ## The builder -/

/-- What has been read so far. -/
inductive Builder where
  /-- An operand has to follow. -/
  | waiting (frames : List Frame)
  /-- An operand has been read; `isText` says that it is a quoted text, which a quoted text right
  behind it continues. -/
  | holding (e : Expr) (isText : Bool) (frames : List Frame)

/-- The failure of a token that cannot stand where it does. -/
def reject (token : Token) : Error :=
  let unexpected (what : String) := Error.malformed ("unexpected " ++ what) token.column
  match token.lexeme with
  | .symbol symbol =>
    let quoted := "'" ++ symbol.spelling ++ "'"
    match symbol.construct? with
    | some construct => .unsupported (construct ++ " " ++ quoted)
    | none => unexpected quoted
  | .name word =>
    let quoted := "'" ++ word ++ "'"
    match reservedConstruct? word with
    | some construct => .unsupported (construct ++ " " ++ quoted)
    | none => unexpected ("name " ++ quoted)
  | .integer _ | .decimal _ | .text _ => unexpected "literal"

/-- The expression that a word makes: a truth value or a name. -/
def ofWord (word : String) : Expr :=
  if word ∈ ["True", "true"] then .literal (.bool true)
  else if word ∈ ["False", "false"] then .literal (.bool false)
  else .name word

/-- Why parentheses behind an operand are no call. -/
def callConstruct : Expr → String
  | .name word => "function call '" ++ word ++ "(...)'"
  | _ => "function call"

namespace Builder

/-- Reads a token where an operand has to follow. -/
def operand (frames : List Frame) (token : Token) : Except Error Builder :=
  match token.lexeme, frames with
  | .integer n, _ => .ok (.holding (.literal (.int n)) false frames)
  | .decimal x, _ => .ok (.holding (.literal (.float x)) false frames)
  | .text s, _ => .ok (.holding (.literal (.str s)) true frames)
  | .name word, _ =>
    if (reservedConstruct? word).isSome then .error (reject token)
    else .ok (.holding (ofWord word) false frames)
  | .symbol (.operator .add), _ => .ok (.waiting (.signed .plus :: frames))
  | .symbol (.operator .sub), _ => .ok (.waiting (.signed .minus :: frames))
  | .symbol .opening, _ => .ok (.waiting (.group :: frames))
  | .symbol .closing, .group :: _ => .error (.unsupported "tuple '()'")
  | _, _ => .error (reject token)

/-- Reads an operator behind a complete operand. -/
def operator (e : Expr) (frames : List Frame) : Operator → Builder
  | .pow => .waiting (.power e :: frames)
  | .add => let (left, frames) := reduce 2 e frames; .waiting (.sum left .add :: frames)
  | .sub => let (left, frames) := reduce 2 e frames; .waiting (.sum left .sub :: frames)
  | op => let (left, frames) := reduce 3 e frames; .waiting (.product left op :: frames)

/-- Reads a comparison behind a complete operand: the next link of a chain, or the first. -/
def comparison (e : Expr) (frames : List Frame) (op : Comparison) : Builder :=
  match reduce 2 e frames with
  | (e, .chain first links last :: frames) =>
    .waiting (.chain first ((last, e) :: links) op :: frames)
  | (e, frames) => .waiting (.chain e [] op :: frames)

/-- Reads a token behind a complete operand. -/
def behind (e : Expr) (isText : Bool) (frames : List Frame) (token : Token) :
    Except Error Builder :=
  match token.lexeme with
  | .symbol (.operator op) => .ok (operator e frames op)
  | .symbol (.comparison op) => .ok (comparison e frames op)
  | .symbol .opening => .error (.unsupported (callConstruct e))
  | .symbol .closing =>
    match reduce 1 e frames with
    | (e, .group :: frames) => .ok (.holding e false frames)
    | _ => .error (reject token)
  | .symbol (.foreign spelling) =>
    if spelling = "." then .error (.unsupported "attribute access '.'")
    else if spelling = "[" then .error (.unsupported "subscript '[...]'")
    else .error (reject token)
  | .text s =>
    match e, isText with
    | .literal (.str t), true => .ok (.holding (.literal (.str (t ++ s))) true frames)
    | _, _ => .error (reject token)
  | _ => .error (reject token)

/-- Reads one token. -/
def step : Builder → Token → Except Error Builder
  | .waiting frames, token => operand frames token
  | .holding e isText frames, token => behind e isText frames token

/-- The finished expression; `column` is one past the end of the text. -/
def finish (column : Nat) : Builder → Except Error Expr
  | .waiting _ => .error (.malformed "unexpected end of expression" column)
  | .holding e _ frames =>
    match reduce 1 e frames with
    | (e, []) => .ok e
    | _ => .error (.malformed "expected ')'" column)

end Builder

/-- The expression that a list of tokens makes; `column` is one past the end of the text. -/
def build (column : Nat) (tokens : List Token) : Except Error Expr :=
  if tokens.isEmpty then .error (.malformed "empty expression" column)
  else do (← tokens.foldlM Builder.step (.waiting [])).finish column

end Stencil.Expr
