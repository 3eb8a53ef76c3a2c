import Stencil.Markup.Node
import Stencil.Markup.Token

/-!
# The grammar of templates

A template is a sequence of runs of text, expressions, references to a parent, conditionals and
regions, and the last two hold sequences of the same kind. A `Derivation` is a proof tree of that
grammar. It carries the conditions that a word or an argument has to meet, so each derivation is a
right one; `Derivation.lexemes` are the lexemes that it stands over, each of them once and in
order, and `Derivation.nodes` the nodes that it derives from them.

Main statements: `Derivation.lexemes_injective`, that lexemes have at most one derivation, and
`Derivation.elseInPlace`, that a derived tree has the body of an `else` only where the
other branch of a conditional stands.
-/

namespace Stencil.Markup

/-! ## Markers and their words -/

/-- The lexemes of a marker. -/
def marker (delimiter : Delimiter) (words : List String) : List Lexeme :=
  .opening delimiter :: (words.map .word ++ [.closing delimiter])

/-- The words that a template cannot print by writing them first in a marker. -/
def reserved : List String := ["if", "else", "insert", "block", "extends", "endblock"]

/-- The argument is the name in a pair of quotes, both single or both double. -/
def Quoted (argument name : String) : Prop :=
  ∃ quote ∈ ['"', '\''], argument.toList = quote :: (name.toList ++ [quote])

/-- The name that an argument spells: what it quotes, or itself where it quotes nothing. -/
def Spells (argument name : String) : Prop :=
  Quoted argument name ∨ (∀ quoted, ¬ Quoted argument quoted) ∧ name = argument

/-- One name at most stands between quotes. -/
theorem Quoted.unique {argument name name' : String} (h : Quoted argument name)
    (h' : Quoted argument name') : name = name' := by
  obtain ⟨quote, -, hname⟩ := h
  obtain ⟨quote', -, hname'⟩ := h'
  rw [hname, List.cons.injEq] at hname'
  exact String.toList_inj.1 (List.append_inj_left' hname'.2 rfl)

/-- An argument spells one name at most. -/
theorem Spells.unique {argument name name' : String} (h : Spells argument name)
    (h' : Spells argument name') : name = name' := by
  obtain hquoted | ⟨hbare, rfl⟩ := h
  · obtain hquoted' | ⟨hbare', -⟩ := h'
    · exact hquoted.unique hquoted'
    · exact absurd hquoted (hbare' name)
  · obtain hquoted' | ⟨-, rfl⟩ := h'
    · exact absurd hquoted' (hbare name')
    · rfl

/-- A list of words is cut in one way only behind its closing delimiter. -/
theorem words_append_inj {delimiter delimiter' : Delimiter} {words words' : List String}
    {s s' : List Lexeme}
    (h : words.map Lexeme.word ++ .closing delimiter :: s
      = words'.map Lexeme.word ++ .closing delimiter' :: s') : words = words' ∧ s = s' := by
  induction words generalizing words' with
  | nil =>
    cases words' with
    | nil =>
      rw [List.map_nil, List.nil_append, List.nil_append, List.cons.injEq] at h
      exact ⟨rfl, h.2⟩
    | cons word' words' => cases h
  | cons word words ih =>
    cases words' with
    | nil => cases h
    | cons word' words' =>
      rw [List.map_cons, List.map_cons, List.cons_append, List.cons_append, List.cons.injEq,
        Lexeme.word.injEq] at h
      obtain ⟨rfl, h⟩ := h
      obtain ⟨rfl, rfl⟩ := ih h
      exact ⟨rfl, rfl⟩

/-- A list of lexemes is cut in one way only behind the marker that it starts with. -/
theorem marker_append_inj {delimiter delimiter' : Delimiter} {words words' : List String}
    {s s' : List Lexeme} :
    marker delimiter words ++ s = marker delimiter' words' ++ s' ↔
      delimiter = delimiter' ∧ words = words' ∧ s = s' := by
  constructor
  · intro h
    simp only [marker, List.cons_append, List.append_assoc, List.nil_append, List.cons.injEq,
      Lexeme.opening.injEq] at h
    exact ⟨h.1, words_append_inj h.2⟩
  · rintro ⟨rfl, rfl, rfl⟩
    rfl

/-! ## Derivations -/

/-- A proof tree of the grammar, from its first phrase on. -/
inductive Derivation where
  /-- Nothing more. -/
  | nil
  /-- A run of text. -/
  | content (text : String) (rest : Derivation)
  /-- An expression, which does not start with a reserved word. -/
  | output (first : String) (arguments : List String) (hfirst : first ∉ reserved)
      (rest : Derivation)
  /-- A reference to a parent, which stands in either kind of marker. -/
  | parent (delimiter : Delimiter) (argument reference : String)
      (hspells : Spells argument reference) (rest : Derivation)
  /-- A conditional without an `else`. -/
  | conditional (condition : List String) (hcondition : condition ≠ []) (body rest : Derivation)
  /-- A conditional with an `else`. -/
  | alternative (condition : List String) (hcondition : condition ≠ [])
      (body otherwise rest : Derivation)
  /-- A region, which two words can open. -/
  | region (keyword : String) (hkeyword : keyword = "insert" ∨ keyword = "block")
      (argument name : String) (hspells : Spells argument name) (body rest : Derivation)

namespace Derivation

/-- The lexemes that a derivation stands over. -/
def lexemes : Derivation → List Lexeme
  | nil => []
  | content text rest => .content text :: rest.lexemes
  | output first arguments _ rest => marker .expression (first :: arguments) ++ rest.lexemes
  | parent delimiter argument _ _ rest => marker delimiter ["extends", argument] ++ rest.lexemes
  | conditional condition _ body rest =>
    marker .block ("if" :: condition) ++ (body.lexemes ++
      (marker .block ["endblock"] ++ rest.lexemes))
  | alternative condition _ body otherwise rest =>
    marker .block ("if" :: condition) ++ (body.lexemes ++
      (marker .block ["else"] ++ (otherwise.lexemes ++
        (marker .block ["endblock"] ++ rest.lexemes))))
  | region keyword _ argument _ _ body rest =>
    marker .block [keyword, argument] ++ (body.lexemes ++
      (marker .block ["endblock"] ++ rest.lexemes))

/-- The nodes that a derivation derives. -/
def nodes : Derivation → List Node
  | nil => []
  | content text rest => .content text :: rest.nodes
  | output first arguments _ rest => .output (first :: arguments) :: rest.nodes
  | parent _ _ reference _ rest => .parent reference :: rest.nodes
  | conditional condition _ body rest => .conditional condition body.nodes none :: rest.nodes
  | alternative condition _ body otherwise rest =>
    .conditional condition body.nodes (some (.alternative otherwise.nodes)) :: rest.nodes
  | region _ _ _ name _ body rest => .region name body.nodes :: rest.nodes

/-- One derivation behind another. -/
def append : Derivation → Derivation → Derivation
  | nil, later => later
  | content text rest, later => content text (rest.append later)
  | output first arguments hfirst rest, later =>
    output first arguments hfirst (rest.append later)
  | parent delimiter argument reference hspells rest, later =>
    parent delimiter argument reference hspells (rest.append later)
  | conditional condition hcondition body rest, later =>
    conditional condition hcondition body (rest.append later)
  | alternative condition hcondition body otherwise rest, later =>
    alternative condition hcondition body otherwise (rest.append later)
  | region keyword hkeyword argument name hspells body rest, later =>
    region keyword hkeyword argument name hspells body (rest.append later)

@[simp] theorem lexemes_append (d later : Derivation) :
    (d.append later).lexemes = d.lexemes ++ later.lexemes := by
  induction d <;> simp_all [append, lexemes]

@[simp] theorem nodes_append (d later : Derivation) :
    (d.append later).nodes = d.nodes ++ later.nodes := by
  induction d <;> simp_all [append, nodes]

end Derivation

/-! ## Uniqueness -/

/-- What can stand behind a derivation: nothing, or a marker that ends the block around it. -/
inductive Ending : List Lexeme → Prop
  | nil : Ending []
  | close {word : String} (hword : word = "else" ∨ word = "endblock") (s : List Lexeme) :
      Ending (marker .block [word] ++ s)

/-- The kind of the phrase that lexemes start with, if they do not end a block there. -/
def phrase? : List Lexeme → Option Kind
  | .content _ :: _ => some .content
  | .opening _ :: .word first :: _ =>
    if first = "else" ∨ first = "endblock" then none else some (.ofWord first)
  | _ => none

/-- The first word of a marker says which phrase it starts, if it ends none. -/
theorem phrase?_marker (delimiter : Delimiter) (first : String) (arguments : List String)
    (s : List Lexeme) :
    phrase? (marker delimiter (first :: arguments) ++ s)
      = if first = "else" ∨ first = "endblock" then none else some (.ofWord first) := rfl

/-- What ends a block starts no phrase. -/
theorem phrase?_ending {s : List Lexeme} (hs : Ending s) : phrase? s = none := by
  cases hs with
  | nil => rfl
  | close hword s => rw [phrase?_marker, if_pos hword]

namespace Derivation

/-- The kind of the first phrase of a derivation. -/
def kind? : Derivation → Option Kind
  | nil => none
  | content .. => some .content
  | output .. => some .output
  | parent .. => some (.statement .parent)
  | conditional .. | alternative .. => some (.statement .conditional)
  | region .. => some (.statement .region)

/-- The lexemes of a derivation show the kind of its first phrase. -/
theorem phrase?_lexemes (d : Derivation) {s : List Lexeme} (hs : Ending s) :
    phrase? (d.lexemes ++ s) = d.kind? := by
  cases d with
  | nil => exact phrase?_ending hs
  | content text rest => rfl
  | output first arguments hfirst rest =>
    simp only [reserved, List.mem_cons, List.not_mem_nil, or_false, not_or] at hfirst
    rw [lexemes, List.append_assoc, phrase?_marker, if_neg (by simp [hfirst])]
    simp [kind?, Kind.ofWord, Keyword.ofWord?, hfirst]
  | parent delimiter argument reference hspells rest =>
    rw [lexemes, List.append_assoc, phrase?_marker, if_neg (by decide)]
    rfl
  | conditional condition hcondition body rest =>
    rw [lexemes, List.append_assoc, phrase?_marker, if_neg (by decide)]
    rfl
  | alternative condition hcondition body otherwise rest =>
    rw [lexemes, List.append_assoc, phrase?_marker, if_neg (by decide)]
    rfl
  | region keyword hkeyword argument name hspells body rest =>
    obtain rfl | rfl := hkeyword
    all_goals
      rw [lexemes, List.append_assoc, phrase?_marker, if_neg (by decide)]
      rfl

/-- The kind of a phrase is seen from its lexemes. -/
theorem kind?_unique {d e : Derivation} {s t : List Lexeme} (hs : Ending s) (ht : Ending t)
    (h : d.lexemes ++ s = e.lexemes ++ t) : e.kind? = d.kind? := by
  rw [← phrase?_lexemes d hs, ← phrase?_lexemes e ht, h]

/-- Behind the derivation `d` lexemes are cut in one way only. -/
def Cuts (d : Derivation) : Prop :=
  ∀ (e : Derivation) (s t : List Lexeme), Ending s → Ending t →
    d.lexemes ++ s = e.lexemes ++ t → d = e ∧ s = t

/-- A body is cut in one way only at the marker that ends it. -/
theorem Cuts.at_marker {d e : Derivation} {word word' : String} {s t : List Lexeme} (hd : d.Cuts)
    (hword : word = "else" ∨ word = "endblock") (hword' : word' = "else" ∨ word' = "endblock")
    (h : d.lexemes ++ (marker .block [word] ++ s) = e.lexemes ++ (marker .block [word'] ++ t)) :
    d = e ∧ word = word' ∧ s = t := by
  obtain ⟨rfl, hrest⟩ := hd e _ _ (.close hword s) (.close hword' t) h
  obtain ⟨-, hwords, rfl⟩ := marker_append_inj.1 hrest
  cases hwords
  exact ⟨rfl, rfl, rfl⟩

/-- A conditional is cut in one way where its body and the rest are. -/
theorem cuts_conditional {condition : List String} {hcondition : condition ≠ []}
    {body rest : Derivation} (hbody : body.Cuts) (hrest : rest.Cuts) :
    (conditional condition hcondition body rest).Cuts := by
  intro e s t hs ht h
  cases e with
  | conditional condition' hcondition' body' rest' =>
    simp only [lexemes, List.append_assoc, marker_append_inj] at h
    obtain ⟨-, hwords, hinside⟩ := h
    obtain ⟨rfl, -, hbehind⟩ := hbody.at_marker (.inr rfl) (.inr rfl) hinside
    obtain ⟨rfl, rfl⟩ := hrest _ _ _ hs ht hbehind
    cases hwords
    exact ⟨rfl, rfl⟩
  | alternative condition' hcondition' body' otherwise' rest' =>
    -- the bodies would end at an `endblock` and at an `else`
    simp only [lexemes, List.append_assoc, marker_append_inj] at h
    exact absurd (hbody.at_marker (.inr rfl) (.inl rfl) h.2.2).2.1 (by decide)
  | _ => cases kind?_unique hs ht h

/-- So is one with an `else`, where the body of that is as well. -/
theorem cuts_alternative {condition : List String} {hcondition : condition ≠ []}
    {body otherwise rest : Derivation} (hbody : body.Cuts) (hotherwise : otherwise.Cuts)
    (hrest : rest.Cuts) : (alternative condition hcondition body otherwise rest).Cuts := by
  intro e s t hs ht h
  cases e with
  | conditional condition' hcondition' body' rest' =>
    simp only [lexemes, List.append_assoc, marker_append_inj] at h
    exact absurd (hbody.at_marker (.inl rfl) (.inr rfl) h.2.2).2.1 (by decide)
  | alternative condition' hcondition' body' otherwise' rest' =>
    simp only [lexemes, List.append_assoc, marker_append_inj] at h
    obtain ⟨-, hwords, hinside⟩ := h
    obtain ⟨rfl, -, helse⟩ := hbody.at_marker (.inl rfl) (.inl rfl) hinside
    obtain ⟨rfl, -, hbehind⟩ := hotherwise.at_marker (.inr rfl) (.inr rfl) helse
    obtain ⟨rfl, rfl⟩ := hrest _ _ _ hs ht hbehind
    cases hwords
    exact ⟨rfl, rfl⟩
  | _ => cases kind?_unique hs ht h

/-- And so is a region. -/
theorem cuts_region {keyword argument name : String}
    {hkeyword : keyword = "insert" ∨ keyword = "block"} {hspells : Spells argument name}
    {body rest : Derivation} (hbody : body.Cuts) (hrest : rest.Cuts) :
    (region keyword hkeyword argument name hspells body rest).Cuts := by
  intro e s t hs ht h
  cases e with
  | region keyword' hkeyword' argument' name' hspells' body' rest' =>
    simp only [lexemes, List.append_assoc, marker_append_inj] at h
    obtain ⟨-, hwords, hinside⟩ := h
    obtain ⟨rfl, -, hbehind⟩ := hbody.at_marker (.inr rfl) (.inr rfl) hinside
    obtain ⟨rfl, rfl⟩ := hrest _ _ _ hs ht hbehind
    cases hwords
    cases hspells.unique hspells'
    exact ⟨rfl, rfl⟩
  | _ => cases kind?_unique hs ht h

/-- A list of lexemes is cut in one way only behind the derivation that it starts with: the kind of
its first phrase tells how the other one starts. -/
theorem cuts (d : Derivation) : d.Cuts := by
  induction d with
  | nil =>
    intro e s t hs ht h
    cases e with
    | nil => exact ⟨rfl, h⟩
    -- Lexemes that start with different phrases differ.
    | _ => cases kind?_unique hs ht h
  | content text rest ih =>
    intro e s t hs ht h
    cases e with
    | content text' rest' =>
      obtain ⟨htext, hbehind⟩ := List.cons.inj h
      obtain ⟨rfl, rfl⟩ := ih _ _ _ hs ht hbehind
      cases htext
      exact ⟨rfl, rfl⟩
    | _ => cases kind?_unique hs ht h
  | output first arguments hfirst rest ih =>
    intro e s t hs ht h
    cases e with
    | output first' arguments' hfirst' rest' =>
      simp only [lexemes, List.append_assoc, marker_append_inj] at h
      obtain ⟨-, hwords, hbehind⟩ := h
      obtain ⟨rfl, rfl⟩ := ih _ _ _ hs ht hbehind
      cases hwords
      exact ⟨rfl, rfl⟩
    | _ => cases kind?_unique hs ht h
  | parent delimiter argument reference hspells rest ih =>
    intro e s t hs ht h
    cases e with
    | parent delimiter' argument' reference' hspells' rest' =>
      simp only [lexemes, List.append_assoc, marker_append_inj] at h
      obtain ⟨rfl, hwords, hbehind⟩ := h
      obtain ⟨rfl, rfl⟩ := ih _ _ _ hs ht hbehind
      cases hwords
      cases hspells.unique hspells'
      exact ⟨rfl, rfl⟩
    | _ => cases kind?_unique hs ht h
  | conditional condition hcondition body rest ihbody ih => exact cuts_conditional ihbody ih
  | alternative condition hcondition body otherwise rest ihbody ihotherwise ih =>
    exact cuts_alternative ihbody ihotherwise ih
  | region keyword hkeyword argument name hspells body rest ihbody ih =>
    exact cuts_region ihbody ih

/-- Lexemes have at most one derivation. -/
theorem lexemes_injective : Function.Injective lexemes := by
  intro d e h
  refine (d.cuts e [] [] .nil .nil ?_).1
  rw [List.append_nil, List.append_nil, h]

end Derivation

/-! ## Branches -/

/-- The nodes at and below a node, by way of children and of other branches. -/
inductive Within (root : Node) : Node → Prop
  | root : Within root root
  | child {node child : Node} (h : Within root node) (hchild : child ∈ node.children) :
      Within root child
  | branch {condition : List String} {body : List Node} {otherwise : Node}
      (h : Within root (.conditional condition body (some otherwise))) : Within root otherwise

/-- At and below a node, the body of an `else` is the other branch of a conditional, where
nothing else stands, and is neither a child nor the node itself. -/
structure ElseInPlace (root : Node) : Prop where
  itself : root.kind ≠ .statement .alternative
  child (node : Node) (h : Within root node) :
    ∀ child ∈ node.children, child.kind ≠ .statement .alternative
  branch (condition : List String) (body : List Node) (otherwise : Node)
    (h : Within root (.conditional condition body (some otherwise))) :
    otherwise.kind = .statement .alternative

namespace Derivation

/-- The inside of a node is derived: its children are, and its other branch is the derived body
of an `else`. -/
structure Inside (node : Node) : Prop where
  children : ∃ d : Derivation, d.nodes = node.children
  branch (condition : List String) (body : List Node) (otherwise : Node)
    (h : node = .conditional condition body (some otherwise)) :
    ∃ d : Derivation, otherwise = .alternative d.nodes

/-- The inside of a node that has no children and no other branch is derived. -/
theorem inside_of_leaf {node : Node} (hchildren : node.children = [])
    (hkind : node.kind ≠ .statement .conditional) : Inside node := by
  refine ⟨⟨nil, hchildren.symm⟩, ?_⟩
  rintro condition body otherwise rfl
  exact absurd rfl hkind

/-- Among derived nodes stands no body of an `else`, and the inside of each is derived. -/
theorem inside_of_mem {d : Derivation} {node : Node} (h : node ∈ d.nodes) :
    node.kind ≠ .statement .alternative ∧ Inside node := by
  induction d with
  | nil => cases h
  | content text rest ih =>
    obtain rfl | hrest := List.mem_cons.1 h
    · exact ⟨by rintro ⟨⟩, inside_of_leaf rfl (by rintro ⟨⟩)⟩
    · exact ih hrest
  | output first arguments hfirst rest ih =>
    obtain rfl | hrest := List.mem_cons.1 h
    · exact ⟨by rintro ⟨⟩, inside_of_leaf rfl (by rintro ⟨⟩)⟩
    · exact ih hrest
  | parent delimiter argument reference hspells rest ih =>
    obtain rfl | hrest := List.mem_cons.1 h
    · exact ⟨by rintro ⟨⟩, inside_of_leaf rfl (by rintro ⟨⟩)⟩
    · exact ih hrest
  | conditional condition hcondition body rest ihbody ih =>
    obtain rfl | hrest := List.mem_cons.1 h
    · refine ⟨by rintro ⟨⟩, ⟨body, rfl⟩, ?_⟩
      rintro condition' body' otherwise' ⟨⟩
    · exact ih hrest
  | alternative condition hcondition body otherwise rest ihbody ihotherwise ih =>
    obtain rfl | hrest := List.mem_cons.1 h
    · refine ⟨by rintro ⟨⟩, ⟨body, rfl⟩, ?_⟩
      rintro condition' body' otherwise' ⟨⟩
      exact ⟨otherwise, rfl⟩
    · exact ih hrest
  | region keyword hkeyword argument name hspells body rest ihbody ih =>
    obtain rfl | hrest := List.mem_cons.1 h
    · refine ⟨by rintro ⟨⟩, ⟨body, rfl⟩, ?_⟩
      rintro condition' body' otherwise' ⟨⟩
    · exact ih hrest

/-- Everything in a derived template has a derived inside. -/
theorem inside_of_within (d : Derivation) {node : Node}
    (h : Within (.template d.nodes) node) : Inside node := by
  induction h with
  | root =>
    refine ⟨⟨d, rfl⟩, ?_⟩
    rintro condition body otherwise ⟨⟩
  | child h hchild ih =>
    obtain ⟨e, he⟩ := ih.children
    rw [← he] at hchild
    exact (inside_of_mem hchild).2
  | branch h ih =>
    obtain ⟨e, rfl⟩ := ih.branch _ _ _ rfl
    refine ⟨⟨e, rfl⟩, ?_⟩
    rintro condition body otherwise ⟨⟩

/-- In a derived template the body of an `else` is the other branch of a conditional. -/
theorem elseInPlace (d : Derivation) : ElseInPlace (.template d.nodes) where
  itself := by rintro ⟨⟩
  child node h child hchild := by
    obtain ⟨e, he⟩ := (inside_of_within d h).children
    rw [← he] at hchild
    exact (inside_of_mem hchild).1
  branch condition body otherwise h := by
    obtain ⟨e, rfl⟩ := (inside_of_within d h).branch _ _ _ rfl
    rfl

end Derivation

end Stencil.Markup
