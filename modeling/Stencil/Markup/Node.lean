/-!
# The tree of a template

A template is a list of nodes: literal text, expressions to print, conditionals, named regions and
references to a parent template. The kind of a marker is decided by its first word.
-/

namespace Stencil.Markup

/-! ## Keywords -/

/-- The statements a marker can make. -/
inductive Keyword where
  /-- `if` opens a conditional. -/
  | conditional
  /-- `else` starts the other branch of a conditional. -/
  | alternative
  /-- `insert` and `block` open a region. A page that offers the region writes the first, a page
  that fills it the second, and they mean the same. -/
  | region
  /-- `extends` names the parent template. -/
  | parent
  /-- `endblock` ends a conditional or a region. -/
  | finish
  deriving DecidableEq, Repr

/-- The keyword that a word spells; every other word starts an expression. -/
def Keyword.ofWord? (word : String) : Option Keyword :=
  if word = "if" then some .conditional
  else if word = "else" then some .alternative
  else if word = "insert" ∨ word = "block" then some .region
  else if word = "extends" then some .parent
  else if word = "endblock" then some .finish
  else none

/-! ## Nodes -/

/-- A node of the template tree. -/
inductive Node where
  /-- A whole template. -/
  | template (children : List Node)
  /-- Literal text, copied to the page as it stands. -/
  | content (text : String)
  /-- An expression to print, as the words of its marker. -/
  | output (words : List String)
  /-- The parent template, by reference. -/
  | parent (reference : String)
  /-- A body for when the condition holds, and a branch for when it does not. Read from source,
  the branch is an `alternative`. -/
  | conditional (condition : List String) (body : List Node) (otherwise : Option Node)
  /-- The body of an `else`. -/
  | alternative (body : List Node)
  /-- A named region with its body. -/
  | region (name : String) (body : List Node)

/-- What a node, or the marker it came from, is for. -/
inductive Kind where
  | template
  | content
  | output
  | statement (keyword : Keyword)
  deriving DecidableEq, Repr

/-- The part that a node plays in the tree. -/
inductive Category where
  | template
  | content
  | expression
  | block
  deriving DecidableEq, Repr

/-- The kind of marker that starts with a given word. -/
def Kind.ofWord (word : String) : Kind :=
  match Keyword.ofWord? word with
  | some keyword => .statement keyword
  | none => .output

namespace Node

/-- The kind of a node. -/
def kind : Node → Kind
  | .template _ => .template
  | .content _ => .content
  | .output _ => .output
  | .parent _ => .statement .parent
  | .conditional .. => .statement .conditional
  | .alternative _ => .statement .alternative
  | .region .. => .statement .region

/-- The category of a node. -/
def category : Node → Category
  | .template _ => .template
  | .content _ => .content
  | .output _ | .parent _ => .expression
  | .conditional .. | .alternative _ | .region .. => .block

/-- The nodes inside a node, in order; the other branch of a conditional is not among them. -/
def children : Node → List Node
  | .template nodes | .conditional _ nodes _ | .alternative nodes | .region _ nodes => nodes
  | .content _ | .output _ | .parent _ => []

end Node

end Stencil.Markup
