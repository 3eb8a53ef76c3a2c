import Stencil.Markup.Builder
import Stencil.Proofs.Grammar
import Stencil.Proofs.Results

/-!
# What the builder accepts

The builder reads tokens one at a time, and the grammar says which lists of them are a template.
`Built` relates the two between markers: the lexemes so far are those of the frames that are open,
each opened behind a derivation of the siblings before it, and then those that derive the nodes at
hand. Reading a token keeps that (`holds_step`), so what the builder finishes is derived. In the
other direction the builder takes the lexemes of each derivation (`takes_lexemes`), whatever it has
open.

Main statement: `build_derives`, that the builder makes of a list of tokens what the grammar
derives from it.
-/

namespace Stencil.Markup

/-! ## Words and arguments -/

/-- The words that spell a keyword. -/
def Keyword.spellings : Keyword → List String
  | .conditional => ["if"]
  | .alternative => ["else"]
  | .region => ["insert", "block"]
  | .parent => ["extends"]
  | .finish => ["endblock"]

/-- A keyword is spelled by the word it is found from. -/
theorem ofWord?_eq_some {word : String} {keyword : Keyword}
    (h : Keyword.ofWord? word = some keyword) : word ∈ keyword.spellings := by
  unfold Keyword.ofWord? at h
  grind [Keyword.spellings]

/-- A keyword with one spelling is spelled so. -/
theorem eq_of_ofWord? {word spelling : String} {keyword : Keyword}
    (h : Keyword.ofWord? word = some keyword) (hspellings : keyword.spellings = [spelling]) :
    word = spelling := by
  have hword := ofWord?_eq_some h
  rwa [hspellings, List.mem_singleton] at hword

/-- A word is no keyword exactly if it is not reserved. -/
theorem ofWord?_eq_none {word : String} : Keyword.ofWord? word = none ↔ word ∉ reserved := by
  grind [Keyword.ofWord?, reserved]

/-- Something stands between quotes if the text starts and ends with one, and these are two. -/
theorem betweenQuotes?_eq_some {quote : Char} {s inner : List Char} :
    betweenQuotes? quote s = some inner ↔ s = quote :: (inner ++ [quote]) := by
  cases s with
  | nil => simp [betweenQuotes?]
  | cons c s =>
    simp only [betweenQuotes?, Option.ite_none_right_eq_some, List.getLast?_eq_some_iff,
      Option.some.injEq, List.cons.injEq]
    constructor
    · rintro ⟨⟨rfl, before, rfl⟩, rfl⟩
      exact ⟨rfl, by rw [List.dropLast_concat]⟩
    · rintro ⟨rfl, rfl⟩
      exact ⟨⟨rfl, inner, rfl⟩, List.dropLast_concat⟩

/-- The builder takes the quotes off an argument as the grammar does. -/
theorem spells_unquote (argument : String) : Spells argument (unquote argument) := by
  unfold unquote
  split
  · rename_i inner h
    rw [Option.orElse_eq_orElse, Option.orElse_eq_or] at h
    refine .inl ?_
    obtain h | ⟨-, h⟩ := Option.or_eq_some_iff.1 h
    · exact ⟨'"', by simp, by rw [String.toList_ofList, betweenQuotes?_eq_some.1 h]⟩
    · exact ⟨'\'', by simp, by rw [String.toList_ofList, betweenQuotes?_eq_some.1 h]⟩
  · rename_i h
    rw [Option.orElse_eq_orElse, Option.orElse_eq_or] at h
    refine .inr ⟨?_, rfl⟩
    rintro quoted ⟨quote, hquote, hargument⟩
    have hinner := betweenQuotes?_eq_some.2 hargument
    obtain ⟨hdouble, hsingle⟩ := Option.or_eq_none_iff.1 h
    simp only [List.mem_cons, List.not_mem_nil, or_false] at hquote
    obtain rfl | rfl := hquote
    · rw [hdouble] at hinner
      cases hinner
    · rw [hsingle] at hinner
      cases hinner

/-- The only argument of a keyword spells a name. -/
theorem soleArgument_eq_ok {keyword name : String} {arguments : List String}
    (h : soleArgument keyword arguments = .ok name) :
    ∃ argument, arguments = [argument] ∧ Spells argument name := by
  unfold soleArgument at h
  split at h
  · cases h
  · rename_i argument
    cases h
    exact ⟨argument, rfl, spells_unquote argument⟩
  · cases h

theorem soleArgument_of_spells (keyword : String) {argument name : String}
    (h : Spells argument name) : soleArgument keyword [argument] = .ok name :=
  congrArg Except.ok ((spells_unquote argument).unique h)

/-- Arguments are taken as they are, unless there are none. -/
theorem someArguments_eq_ok {keyword : String} {arguments condition : List String} :
    someArguments keyword arguments = .ok condition ↔ arguments = condition ∧ condition ≠ [] := by
  unfold someArguments
  split
  · refine ⟨by rintro ⟨⟩, ?_⟩
    rintro ⟨rfl, hne⟩
    exact absurd rfl hne
  · rename_i hne
    simp only [Except.ok.injEq]
    exact ⟨fun h => ⟨h, h ▸ hne⟩, And.left⟩

/-- Where no arguments are taken, there are none. -/
theorem noArguments_eq_ok {keyword : String} {arguments : List String} {u : Unit}
    (h : noArguments keyword arguments = .ok u) : arguments = [] := by
  unfold noArguments at h
  split at h
  · rfl
  · cases h

/-! ## What is built is derived -/

/-- The lexemes up to the inside of the innermost open block, and the frames that they leave
open, innermost first. -/
inductive Opened : List Lexeme → List Frame → Prop
  | nil : Opened [] []
  | conditional {lexemes : List Lexeme} {outer : List Frame} {before : List Node}
      {condition : List String} (h : Opened lexemes outer) (d : Derivation)
      (hbefore : d.nodes = before.reverse) (hcondition : condition ≠ []) :
      Opened (lexemes ++ (d.lexemes ++ marker .block ("if" :: condition)))
        (.conditional before condition :: outer)
  | alternative {lexemes : List Lexeme} {outer : List Frame} {before body : List Node}
      {condition : List String} (h : Opened lexemes outer) (d e : Derivation)
      (hbefore : d.nodes = before.reverse) (hbody : e.nodes = body)
      (hcondition : condition ≠ []) :
      Opened (lexemes ++ (d.lexemes ++ (marker .block ("if" :: condition) ++
        (e.lexemes ++ marker .block ["else"])))) (.alternative before condition body :: outer)
  | region {lexemes : List Lexeme} {outer : List Frame} {before : List Node}
      {keyword argument name : String} (h : Opened lexemes outer) (d : Derivation)
      (hbefore : d.nodes = before.reverse) (hkeyword : keyword = "insert" ∨ keyword = "block")
      (hspells : Spells argument name) :
      Opened (lexemes ++ (d.lexemes ++ marker .block [keyword, argument]))
        (.region before name :: outer)

/-- Between markers, the lexemes so far are those of the open blocks and then those that derive
the nodes at hand. -/
structure Built (lexemes : List Lexeme) (b : Builder) : Prop where
  marker : b.marker = none
  nodes : ∃ before, Opened before b.outer ∧
    ∃ d : Derivation, d.nodes = b.nodes.reverse ∧ lexemes = before ++ d.lexemes

/-- The lexemes so far of a marker that is open. -/
def OpenMarker.lexemes (m : OpenMarker) : List Lexeme :=
  .opening m.delimiter :: m.words.reverse.map .word

/-- At any moment, the lexemes so far are those that are built and those of the open marker. -/
def Holds (lexemes : List Lexeme) (b : Builder) : Prop :=
  match b.marker with
  | none => Built lexemes b
  | some m => ∃ finished, Built finished { b with marker := none } ∧ lexemes = finished ++ m.lexemes

variable {lexemes : List Lexeme} {b b' : Builder}

/-- A block that is complete is one more node behind the siblings before it. -/
theorem built_leave {outer : List Frame} {before : List Node} {node : Node}
    (h : Opened lexemes outer) (d : Derivation) (hbefore : d.nodes = before.reverse)
    (hmarker : b.marker = none) (phrase : Derivation) (hphrase : phrase.nodes = [node]) :
    Built (lexemes ++ (d.lexemes ++ phrase.lexemes)) (b.leave before node outer) := by
  refine ⟨hmarker, lexemes, h, d.append phrase, ?_, ?_⟩
  · rw [Derivation.nodes_append, hbefore, hphrase]
    exact List.reverse_cons.symm
  · rw [Derivation.lexemes_append]

/-- A phrase that derives one node is one more sibling. -/
theorem Built.push (h : Built lexemes b) {node : Node} (phrase : Derivation)
    (hphrase : phrase.nodes = [node]) : Built (lexemes ++ phrase.lexemes) (b.push node) := by
  obtain ⟨hmarker, before, hbefore, d, hd, rfl⟩ := h
  rw [List.append_assoc]
  exact built_leave hbefore d hd hmarker phrase hphrase

/-- Behind the marker that opens a block nothing is derived yet. -/
theorem Opened.built {frame : Frame} (h : Opened lexemes (frame :: b.outer))
    (hmarker : b.marker = none) : Built lexemes (b.enter frame) :=
  ⟨hmarker, lexemes, h, .nil, rfl, (List.append_nil _).symm⟩

/-- The marker `else` ends the first branch of a conditional. -/
theorem Built.alternate (h : Built lexemes b) (hstep : b.alternate = .ok b') :
    Built (lexemes ++ Markup.marker .block ["else"]) b' := by
  obtain ⟨hmarker, before, hbefore, e, he, rfl⟩ := h
  unfold Builder.alternate at hstep
  split at hstep
  · rename_i siblings condition outer houter
    cases hstep
    rw [houter] at hbefore
    obtain _ | ⟨hopened, d, hd, hcondition⟩ := hbefore
    refine ⟨hmarker, _, .alternative hopened d e hd he hcondition, .nil, rfl, ?_⟩
    simp [Derivation.lexemes]
  all_goals cases hstep

/-- The marker `endblock` makes one phrase of a block. -/
theorem Built.close (h : Built lexemes b) (hstep : b.close = .ok b') :
    Built (lexemes ++ Markup.marker .block ["endblock"]) b' := by
  -- the innermost frame says how its block was opened and what stands before it
  obtain ⟨hmarker, before, hbefore, e, he, rfl⟩ := h
  unfold Builder.close at hstep
  split at hstep
  · rename_i siblings condition outer houter
    cases hstep
    rw [houter] at hbefore
    obtain _ | ⟨hopened, d, hd, hcondition⟩ := hbefore
    have := built_leave hopened d hd hmarker (.conditional condition hcondition e .nil) rfl
    simpa [Derivation.lexemes, he] using this
  · rename_i siblings condition body outer houter
    cases hstep
    rw [houter] at hbefore
    obtain _ | _ | ⟨hopened, d, body, hd, rfl, hcondition⟩ := hbefore
    have := built_leave hopened d hd hmarker (.alternative condition hcondition body e .nil) rfl
    simpa [Derivation.lexemes, he] using this
  · rename_i siblings name outer houter
    cases hstep
    rw [houter] at hbefore
    obtain _ | _ | _ | ⟨hopened, d, hd, hkeyword, hspells⟩ := hbefore
    have := built_leave hopened d hd hmarker (.region _ hkeyword _ name hspells e .nil) rfl
    simpa [Derivation.lexemes, he] using this
  · cases hstep

/-- A marker that names a parent is one phrase. -/
theorem Built.parent (h : Built lexemes b) (delimiter : Delimiter) {first reference : String}
    {arguments : List String} (hfirst : Keyword.ofWord? first = some .parent)
    (harguments : soleArgument first arguments = .ok reference) :
    Built (lexemes ++ Markup.marker delimiter (first :: arguments))
      (b.push (.parent reference)) := by
  obtain ⟨argument, rfl, hspells⟩ := soleArgument_eq_ok harguments
  obtain rfl := eq_of_ofWord? hfirst rfl
  have := h.push (.parent delimiter argument reference hspells .nil) rfl
  rwa [Derivation.lexemes, Derivation.lexemes, List.append_nil] at this

/-- A marker of an expression is one phrase. -/
theorem Built.expressionMarker (h : Built lexemes b) {first : String} {arguments : List String}
    (hstep : b.expressionMarker first arguments = .ok b') :
    Built (lexemes ++ Markup.marker .expression (first :: arguments)) b' := by
  unfold Builder.expressionMarker at hstep
  split at hstep
  · rename_i hfirst
    cases hstep
    have := h.push (.output first arguments (ofWord?_eq_none.1 hfirst) .nil) rfl
    rwa [Derivation.lexemes, Derivation.lexemes, List.append_nil] at this
  · rename_i hfirst
    obtain ⟨reference, hreference, hpush⟩ := bind_eq_ok.1 hstep
    cases hpush
    exact h.parent .expression hfirst hreference
  · cases hstep

/-- A marker of a block is one phrase, opens a block, or ends one. -/
theorem Built.blockMarker (h : Built lexemes b) {first : String} {arguments : List String}
    (hstep : b.blockMarker first arguments = .ok b') :
    Built (lexemes ++ Markup.marker .block (first :: arguments)) b' := by
  unfold Builder.blockMarker at hstep
  -- The keywords in turn: `extends`, `if`, `insert` and `block`, `else`, `endblock`.
  split at hstep
  · cases hstep
  · rename_i hfirst
    obtain ⟨reference, hreference, hpush⟩ := bind_eq_ok.1 hstep
    cases hpush
    exact h.parent .block hfirst hreference
  · rename_i hfirst
    obtain ⟨condition, hcondition, henter⟩ := bind_eq_ok.1 hstep
    cases henter
    obtain ⟨rfl, hne⟩ := someArguments_eq_ok.1 hcondition
    obtain rfl := eq_of_ofWord? hfirst rfl
    obtain ⟨hmarker, before, hbefore, d, hd, rfl⟩ := h
    rw [List.append_assoc]
    exact (Opened.conditional hbefore d hd hne).built hmarker
  · rename_i hfirst
    obtain ⟨name, hname, henter⟩ := bind_eq_ok.1 hstep
    cases henter
    obtain ⟨argument, rfl, hspells⟩ := soleArgument_eq_ok hname
    have hword := ofWord?_eq_some hfirst
    rw [Keyword.spellings, List.mem_cons, List.mem_singleton] at hword
    obtain ⟨hmarker, before, hbefore, d, hd, rfl⟩ := h
    rw [List.append_assoc]
    exact (Opened.region hbefore d hd hword hspells).built hmarker
  · rename_i hfirst
    obtain ⟨_, hnone, halternate⟩ := bind_eq_ok.1 hstep
    cases noArguments_eq_ok hnone
    obtain rfl := eq_of_ofWord? hfirst rfl
    exact h.alternate halternate
  · rename_i hfirst
    obtain ⟨_, hnone, hclose⟩ := bind_eq_ok.1 hstep
    cases noArguments_eq_ok hnone
    obtain rfl := eq_of_ofWord? hfirst rfl
    exact h.close hclose

/-- A marker that is accepted keeps the derivation going, whichever its delimiters are. -/
theorem Built.marked (h : Built lexemes b) {delimiter : Delimiter} {first : String}
    {arguments : List String} (hstep : b.marked delimiter first arguments = .ok b') :
    Built (lexemes ++ Markup.marker delimiter (first :: arguments)) b' := by
  cases delimiter with
  | expression => exact h.expressionMarker hstep
  | block => exact h.blockMarker hstep

/-- Between markers the lexemes that hold are those that are built. -/
theorem Built.holds (h : Built lexemes b) : Holds lexemes b := by
  rw [Holds, h.marker]
  exact h

/-- A token between markers is content or opens a marker. -/
theorem Built.outside (h : Built lexemes b) {token : Token} (hstep : b.outside token = .ok b') :
    Holds (lexemes ++ [token.lexeme]) b' := by
  unfold Builder.outside at hstep
  split at hstep
  · rename_i text hlexeme
    cases hstep
    rw [hlexeme]
    exact (h.push (.content text .nil) rfl).holds
  · rename_i delimiter hlexeme
    cases hstep
    rw [hlexeme]
    exact ⟨lexemes, ⟨rfl, h.nodes⟩, rfl⟩
  · cases hstep

/-- A token in a marker is one more word of it or closes it. -/
theorem holds_inside {m : OpenMarker} {token : Token} {finished : List Lexeme}
    (h : Built finished { b with marker := none }) (hstep : b.inside m token = .ok b') :
    Holds (finished ++ m.lexemes ++ [token.lexeme]) b' := by
  unfold Builder.inside at hstep
  split at hstep
  · rename_i text words hlexeme
    cases hstep
    refine ⟨finished, h, ?_⟩
    simp [OpenMarker.lexemes, hlexeme]
  · rename_i hword
    split at hstep
    · rename_i hlexeme
      split at hstep
      · cases hstep
      · rename_i first arguments hwords
        have := (h.marked (mapError_eq_ok.1 hstep)).holds
        rw [← hwords] at this
        simpa [OpenMarker.lexemes, Markup.marker, hlexeme] using this
    · cases hstep

/-- Reading a token keeps the lexemes and what is built together. -/
theorem holds_step (h : Holds lexemes b) {token : Token} (hstep : b.step token = .ok b') :
    Holds (lexemes ++ [token.lexeme]) b' := by
  obtain ⟨line, marker, nodes, outer⟩ := b
  cases marker with
  | none =>
    have hbuilt : Built lexemes ⟨token.line, none, nodes, outer⟩ := ⟨rfl, h.nodes⟩
    exact hbuilt.outside hstep
  | some m =>
    obtain ⟨finished, hfinished, rfl⟩ := h
    have hbuilt : Built finished ⟨token.line, none, nodes, outer⟩ := ⟨rfl, hfinished.nodes⟩
    exact holds_inside hbuilt hstep

/-- So does reading tokens one after another. -/
theorem holds_foldlM {tokens : List Token} (h : Holds lexemes b)
    (hrun : tokens.foldlM Builder.step b = .ok b') :
    Holds (lexemes ++ tokens.map (·.lexeme)) b' :=
  foldlM_keeps (P := Holds) (fun h hstep => holds_step h hstep) h hrun

/-- What the builder finishes is derived from the lexemes so far. -/
theorem derives_of_finish (h : Holds lexemes b) {root : Node} (hfinish : b.finish = .ok root) :
    ∃ d : Derivation, d.lexemes = lexemes ∧ .template d.nodes = root := by
  unfold Builder.finish at hfinish
  split at hfinish
  · cases hfinish
  · rename_i hawaits
    cases hfinish
    unfold Builder.awaits at hawaits
    split at hawaits
    all_goals try cases hawaits
    rename_i hmarker houter
    rw [Holds, hmarker] at h
    obtain ⟨-, before, hbefore, d, hd, rfl⟩ := h
    rw [houter] at hbefore
    cases hbefore
    exact ⟨d, rfl, by rw [hd]⟩

/-! ## What is derived is built -/

/-- The builder with the line of its last token changed. -/
def Builder.atLine (b : Builder) (line : Nat) : Builder := { b with line }

/-- Wherever the tokens stand, the builder takes their lexemes from one state to another. -/
def Takes (lexemes : List Lexeme) (b b' : Builder) : Prop :=
  ∀ (tokens : List Token) (line : Nat), tokens.map (·.lexeme) = lexemes →
    ∃ line', tokens.foldlM Builder.step (b.atLine line) = .ok (b'.atLine line')

theorem takes_nil (b : Builder) : Takes [] b b := by
  intro tokens line h
  rw [List.map_eq_nil_iff.1 h]
  exact ⟨line, rfl⟩

/-- The builder takes one list of lexemes after the other. -/
theorem Takes.append {later : List Lexeme} {b'' : Builder} (h : Takes lexemes b b')
    (h' : Takes later b' b'') : Takes (lexemes ++ later) b b'' := by
  intro tokens line htokens
  obtain ⟨front, back, rfl, hfront, hback⟩ := List.map_eq_append_iff.1 htokens
  obtain ⟨middle, hmiddle⟩ := h front line hfront
  rw [Builder.foldlM_append, hmiddle]
  exact h' back middle hback

/-- One step takes one lexeme. -/
theorem takes_of_step {lexeme : Lexeme}
    (h : ∀ (token : Token) (line : Nat), token.lexeme = lexeme →
      (b.atLine line).step token = .ok (b'.atLine token.line)) : Takes [lexeme] b b' := by
  intro tokens line htokens
  obtain ⟨token, later, rfl, htoken, hlater⟩ := List.map_eq_cons_iff.1 htokens
  rw [List.map_eq_nil_iff.1 hlater, List.foldlM_cons, h token line htoken]
  exact ⟨token.line, rfl⟩

/-- The builder with a marker open. -/
def Builder.reading (b : Builder) (delimiter : Delimiter) (line : Nat) (words : List String) :
    Builder :=
  { b with marker := some ⟨delimiter, line, words⟩ }

/-- Words are collected in the marker that is open, latest first. -/
theorem takes_words (b : Builder) (delimiter : Delimiter) (line : Nat)
    (words before : List String) :
    Takes (words.map .word) (b.reading delimiter line before)
      (b.reading delimiter line (words.reverse ++ before)) := by
  induction words generalizing before with
  | nil => exact takes_nil _
  | cons word words ih =>
    have hword : Takes [.word word] (b.reading delimiter line before)
        (b.reading delimiter line (word :: before)) := by
      apply takes_of_step
      intro token _ htoken
      show Builder.inside _ _ token = _
      rw [Builder.inside, htoken]
      rfl
    rw [List.reverse_cons, List.append_assoc]
    exact hword.append (ih (word :: before))

/-- The delimiter that closes a marker lets its words take effect, on the line where it opened. -/
theorem inside_closing (b : Builder) {m : OpenMarker} {token : Token} {first : String}
    {arguments : List String} (hwords : m.words.reverse = first :: arguments)
    (hlexeme : token.lexeme = .closing m.delimiter) :
    b.inside m token = (({ b with marker := none } : Builder).marked m.delimiter first
      arguments).mapError fun fault => ⟨m.line, fault⟩ := by
  simp only [Builder.inside, hlexeme, if_true, hwords]

/-- A complete marker does what its words say. -/
theorem takes_marker {delimiter : Delimiter} {first : String} {arguments : List String}
    (hmarker : b.marker = none)
    (h : ∀ line, (b.atLine line).marked delimiter first arguments = .ok (b'.atLine line)) :
    Takes (marker delimiter (first :: arguments)) b b' := by
  -- the open marker keeps the line of its first token, so that token is read on its own
  intro tokens line htokens
  obtain ⟨token, later, rfl, htoken, hlater⟩ := List.map_eq_cons_iff.1 htokens
  have hopening : (b.atLine line).step token
      = .ok ((b.reading delimiter token.line []).atLine token.line) := by
    obtain ⟨_, _, nodes, outer⟩ := b
    cases hmarker
    show Builder.outside _ token = _
    rw [Builder.outside, htoken]
    rfl
  have hclosing : Takes [.closing delimiter]
      (b.reading delimiter token.line ((first :: arguments).reverse ++ [])) b' := by
    apply takes_of_step
    intro closing _ hlexeme
    show Builder.inside _ _ closing = _
    rw [List.append_nil, inside_closing _ (List.reverse_reverse _) hlexeme]
    obtain ⟨_, _, nodes, outer⟩ := b
    cases hmarker
    exact mapError_eq_ok.2 (h closing.line)
  rw [List.foldlM_cons, hopening]
  exact (takes_words b delimiter token.line (first :: arguments) []).append hclosing
    later token.line hlater

/-- The builder with more finished nodes, in order. -/
def Builder.extend (b : Builder) (nodes : List Node) : Builder :=
  { b with nodes := nodes.reverse ++ b.nodes }

theorem extend_cons (b : Builder) (node : Node) (nodes : List Node) :
    b.extend (node :: nodes) = (b.push node).extend nodes := by
  rw [Builder.extend, List.reverse_cons, List.append_assoc]
  rfl

/-- Content between markers is a node of its own. -/
theorem takes_content (hmarker : b.marker = none) (text : String) :
    Takes [.content text] b (b.push (.content text)) := by
  apply takes_of_step
  intro token line htoken
  obtain ⟨_, _, nodes, outer⟩ := b
  cases hmarker
  show Builder.outside _ token = _
  rw [Builder.outside, htoken]
  rfl

/-- A marker that starts with no keyword puts out its words. -/
theorem takes_output (hmarker : b.marker = none) {first : String} (arguments : List String)
    (hfirst : first ∉ reserved) :
    Takes (marker .expression (first :: arguments)) b (b.push (.output (first :: arguments))) := by
  apply takes_marker hmarker
  intro line
  rw [Builder.marked, Builder.expressionMarker, ofWord?_eq_none.2 hfirst]
  rfl

/-- The marker `extends` names the parent that its argument spells. -/
theorem takes_parent (hmarker : b.marker = none) (delimiter : Delimiter)
    {argument reference : String} (hspells : Spells argument reference) :
    Takes (marker delimiter ["extends", argument]) b (b.push (.parent reference)) := by
  apply takes_marker hmarker
  intro line
  have hargument := soleArgument_of_spells "extends" hspells
  cases delimiter with
  | expression =>
    show (do return (b.atLine line).push (.parent (← soleArgument "extends" [argument]))) = _
    rw [hargument]
    rfl
  | block =>
    show (do return (b.atLine line).push (.parent (← soleArgument "extends" [argument]))) = _
    rw [hargument]
    rfl

/-- The marker `if` opens a conditional. -/
theorem takes_if (hmarker : b.marker = none) {condition : List String}
    (hcondition : condition ≠ []) :
    Takes (marker .block ("if" :: condition)) b (b.enter (.conditional b.nodes condition)) := by
  apply takes_marker hmarker
  intro line
  show (do return (b.atLine line).enter (.conditional b.nodes (← someArguments "if" condition))) = _
  rw [someArguments_eq_ok.2 ⟨rfl, hcondition⟩]
  rfl

/-- The markers `insert` and `block` open the region that their argument spells. -/
theorem takes_region (hmarker : b.marker = none) {keyword argument name : String}
    (hkeyword : keyword = "insert" ∨ keyword = "block") (hspells : Spells argument name) :
    Takes (marker .block [keyword, argument]) b (b.enter (.region b.nodes name)) := by
  apply takes_marker hmarker
  intro line
  have hargument := soleArgument_of_spells keyword hspells
  obtain rfl | rfl := hkeyword
  all_goals
    show (do return (b.atLine line).enter (.region b.nodes (← soleArgument _ [argument]))) = _
    rw [hargument]
    rfl

/-- The siblings before a block. -/
def Frame.before : Frame → List Node
  | .conditional before _ => before
  | .alternative before _ _ => before
  | .region before _ => before

/-- What a block is when the innermost of its bodies is complete. -/
def Frame.complete (body : List Node) : Frame → Node
  | .conditional _ condition => .conditional condition body none
  | .alternative _ condition first => .conditional condition first (some (.alternative body))
  | .region _ name => .region name body

/-- The innermost block can be closed, whatever block it is. -/
theorem close_of_outer {frame : Frame} {outer : List Frame} (houter : b.outer = frame :: outer) :
    b.close = .ok (b.leave frame.before (frame.complete b.nodes.reverse) outer) := by
  unfold Builder.close
  rw [houter]
  cases frame <;> rfl

/-- The marker `endblock` completes the innermost block. -/
theorem takes_endblock (hmarker : b.marker = none) {frame : Frame} {outer : List Frame}
    (houter : b.outer = frame :: outer) :
    Takes (marker .block ["endblock"]) b
      (b.leave frame.before (frame.complete b.nodes.reverse) outer) :=
  takes_marker hmarker fun _ => close_of_outer houter

/-- The `endblock` of a block whose last body has been read makes it a node. -/
theorem takes_complete (hmarker : b.marker = none) {frame : Frame}
    (hbefore : frame.before = b.nodes) (body : List Node) :
    Takes (marker .block ["endblock"]) ((b.enter frame).extend body)
      (b.push (frame.complete body)) := by
  have h := @takes_endblock ((b.enter frame).extend body) hmarker frame b.outer rfl
  have hnodes : ((b.enter frame).extend body).nodes.reverse = body := by
    simp [Builder.extend, Builder.enter]
  rwa [hnodes, hbefore] at h

/-- The `else` of a conditional whose body has been read. -/
theorem takes_else (hmarker : b.marker = none) (condition : List String) (body : List Node) :
    Takes (marker .block ["else"]) ((b.enter (.conditional b.nodes condition)).extend body)
      (b.enter (.alternative b.nodes condition body)) := by
  let inside := (b.enter (.conditional b.nodes condition)).extend body
  have halternate : ∀ line, (inside.atLine line).alternate =
      .ok ((b.enter (.alternative b.nodes condition body)).atLine line) := by
    intro line
    simp [inside, Builder.enter, Builder.extend, Builder.atLine, Builder.alternate]
  exact @takes_marker inside _ _ _ _ hmarker halternate

/-- The builder takes the lexemes of a derivation, and then has what they derive. -/
theorem takes_lexemes (d : Derivation) (hmarker : b.marker = none) :
    Takes d.lexemes b (b.extend d.nodes) := by
  induction d generalizing b with
  | nil => exact takes_nil b
  | content text rest ih =>
    rw [Derivation.nodes, extend_cons]
    exact (takes_content hmarker text).append (ih hmarker)
  | output first arguments hfirst rest ih =>
    rw [Derivation.nodes, extend_cons]
    exact (takes_output hmarker arguments hfirst).append (ih hmarker)
  | parent delimiter argument reference hspells rest ih =>
    rw [Derivation.nodes, extend_cons]
    exact (takes_parent hmarker delimiter hspells).append (ih hmarker)
  | conditional condition hcondition body rest ihbody ih =>
    have hif := takes_if hmarker hcondition
    have hbody := @ihbody (b.enter (.conditional b.nodes condition)) hmarker
    have hendblock := @takes_complete b hmarker (.conditional b.nodes condition) rfl body.nodes
    rw [Derivation.nodes, extend_cons]
    exact hif.append (hbody.append (hendblock.append (ih hmarker)))
  | alternative condition hcondition body otherwise rest ihbody ihotherwise ih =>
    have hif := takes_if hmarker hcondition
    have hbody := @ihbody (b.enter (.conditional b.nodes condition)) hmarker
    have helse := takes_else hmarker condition body.nodes
    have hotherwise :=
      @ihotherwise (b.enter (.alternative b.nodes condition body.nodes)) hmarker
    have hendblock :=
      @takes_complete b hmarker (.alternative b.nodes condition body.nodes) rfl otherwise.nodes
    rw [Derivation.nodes, extend_cons]
    exact hif.append (hbody.append
      (helse.append (hotherwise.append (hendblock.append (ih hmarker)))))
  | region keyword hkeyword argument name hspells body rest ihbody ih =>
    have hregion := takes_region hmarker hkeyword hspells
    have hbody := @ihbody (b.enter (.region b.nodes name)) hmarker
    have hendblock := @takes_complete b hmarker (.region b.nodes name) rfl body.nodes
    rw [Derivation.nodes, extend_cons]
    exact hregion.append (hbody.append (hendblock.append (ih hmarker)))

/-! ## The builder and the grammar -/

/-- The builder makes of tokens the template that their lexemes derive, and makes nothing else. -/
theorem build_eq_ok_iff {tokens : List Token} {root : Node} :
    build tokens = .ok root ↔
      ∃ d : Derivation, d.lexemes = tokens.map (·.lexeme) ∧ .template d.nodes = root := by
  constructor
  · intro h
    obtain ⟨b, hrun, hfinish⟩ := bind_eq_ok.1 h
    have hempty : Holds [] ({} : Builder) := ⟨rfl, [], .nil, .nil, rfl, rfl⟩
    exact derives_of_finish (holds_foldlM hempty hrun) hfinish
  · rintro ⟨d, hlexemes, rfl⟩
    obtain ⟨line, hrun⟩ := takes_lexemes d (b := {}) rfl tokens 1 hlexemes.symm
    refine bind_eq_ok.2 ⟨_, hrun, ?_⟩
    simp [Builder.extend, Builder.atLine, Builder.finish, Builder.awaits]

/-- The builder makes of tokens the template that their lexemes derive, and makes nothing else.
Lexemes have at most one derivation, and in what it derives the body of an `else` is the other
branch of a conditional. -/
theorem build_derives :
    (∀ (tokens : List Token) (root : Node), build tokens = .ok root ↔
      ∃ d : Derivation, d.lexemes = tokens.map (·.lexeme) ∧ .template d.nodes = root) ∧
    Function.Injective Derivation.lexemes ∧
    ∀ d : Derivation, ElseInPlace (.template d.nodes) := by
  refine ⟨?_, Derivation.lexemes_injective, Derivation.elseInPlace⟩
  intro tokens root
  exact build_eq_ok_iff

end Stencil.Markup
