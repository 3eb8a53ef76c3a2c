import Stencil.Proofs.Building

/-!
# Whole markers

The tokens of a source are runs of text and whole markers: the opening delimiter, words, and the
closing delimiter of the same kind (`Composed`). So the builder comes to the end of every marker
that it opens, and a source is read marker by marker (`foldlM_markerTokens`). A marker can only be
refused for what its words say, and behind the last one nothing can be missing but the end of a
block.

Main statement: `faults_of_parse`, which lists what can be wrong with a source.
-/

namespace Stencil.Markup

/-! ## The tokens of a source -/

/-- Tokens that are runs of text and whole markers. -/
inductive Composed : List Token → Prop
  | nil : Composed []
  | content (text : String) (line : Nat) {later : List Token} (hlater : Composed later) :
    Composed (⟨.content text, line⟩ :: later)
  | marker (line : Nat) (delimiter : Delimiter) (interior : List Char) {later : List Token}
    (hlater : Composed later) : Composed (markerTokens line delimiter interior ++ later)

/-- A run of text in front of composed tokens is composed with them, also if it is empty. -/
theorem Composed.contentToken_append (line : Nat) (text : List Char) {later : List Token}
    (hlater : Composed later) : Composed (contentToken line text ++ later) := by
  unfold contentToken
  split
  · exact hlater
  · exact .content _ line hlater

/-- A run of text by itself is composed. -/
theorem composed_contentToken (line : Nat) (text : List Char) :
    Composed (contentToken line text) := by
  have h := Composed.nil.contentToken_append line text
  rwa [List.append_nil] at h

/-- Every source is read as runs of text and whole markers. -/
theorem composed_scan (line : Nat) (s : List Char) : Composed (scan line s) := by
  fun_induction scan line s with
  | case1 line s text hs => exact composed_contentToken line text
  | case2 line s text delimiter rest hs markerLine hr =>
    exact (composed_contentToken _ _).contentToken_append line text
  | case3 line s text delimiter rest hs markerLine interior after hr ih =>
    rw [List.append_assoc]
    exact (ih.marker markerLine delimiter interior).contentToken_append line text

/-! ## What a marker can be refused for -/

/-- The faults of a single marker: it has no words, its words are no statement, or the blocks around
it do not admit it. -/
inductive Fault.OfMarker : Fault → Prop
  | emptyMarker : OfMarker .emptyMarker
  | unknownKeyword (keyword : String) : OfMarker (.unknownKeyword keyword)
  | misplacedKeyword (keyword : String) : OfMarker (.misplacedKeyword keyword)
  | missingArgument (keyword : String) : OfMarker (.missingArgument keyword)
  | unexpectedArgument (keyword argument : String) :
    OfMarker (.unexpectedArgument keyword argument)
  | unbalanced (keyword reason : String) : OfMarker (.unbalanced keyword reason)

/-- A marker that needs one argument fails as a marker does. -/
theorem yields_soleArgument (keyword : String) (arguments : List String) :
    Yields (fun _ => True) Fault.OfMarker (soleArgument keyword arguments) := by
  unfold soleArgument
  split
  · exact .missingArgument keyword
  · trivial
  · exact .unexpectedArgument keyword _

/-- So does one that needs some argument. -/
theorem yields_someArguments (keyword : String) (arguments : List String) :
    Yields (fun _ => True) Fault.OfMarker (someArguments keyword arguments) := by
  unfold someArguments
  split
  · exact .missingArgument keyword
  · trivial

/-- So does one that takes none. -/
theorem yields_noArguments (keyword : String) (arguments : List String) :
    Yields (fun _ => True) Fault.OfMarker (noArguments keyword arguments) := by
  unfold noArguments
  split
  · trivial
  · exact .unexpectedArgument keyword _

namespace Builder

/-- The builder stands between markers. -/
def Between (b : Builder) : Prop := b.marker = none

/-- Two builders are at the same place of a source: on the same line, and in the same marker if they
are in one. -/
def SamePlace (b b' : Builder) : Prop := b'.line = b.line ∧ b'.marker = b.marker

theorem SamePlace.between {b b' : Builder} (h : b.SamePlace b') (hbetween : b.Between) :
    b'.Between := h.2.trans hbetween

variable (b : Builder)

/-- The marker `else` keeps the place, or fails as a marker does. -/
theorem yields_alternate : Yields b.SamePlace Fault.OfMarker b.alternate := by
  unfold alternate
  split
  · exact ⟨rfl, rfl⟩
  all_goals exact .unbalanced _ _

/-- So does the marker `endblock`. -/
theorem yields_close : Yields b.SamePlace Fault.OfMarker b.close := by
  unfold close
  split
  all_goals first | exact ⟨rfl, rfl⟩ | exact .unbalanced _ _

/-- So does a marker of an expression. -/
theorem yields_expressionMarker (first : String) (arguments : List String) :
    Yields b.SamePlace Fault.OfMarker (b.expressionMarker first arguments) := by
  unfold expressionMarker
  split
  · exact ⟨rfl, rfl⟩
  · exact (yields_soleArgument first arguments).bind fun _ _ => ⟨rfl, rfl⟩
  · exact .misplacedKeyword first

/-- So does a marker of a block. -/
theorem yields_blockMarker (first : String) (arguments : List String) :
    Yields b.SamePlace Fault.OfMarker (b.blockMarker first arguments) := by
  unfold blockMarker
  split
  · exact .unknownKeyword first
  · exact (yields_soleArgument first arguments).bind fun _ _ => ⟨rfl, rfl⟩
  · exact (yields_someArguments first arguments).bind fun _ _ => ⟨rfl, rfl⟩
  · exact (yields_soleArgument first arguments).bind fun _ _ => ⟨rfl, rfl⟩
  · exact (yields_noArguments first arguments).bind fun _ _ => b.yields_alternate
  · exact (yields_noArguments first arguments).bind fun _ _ => b.yields_close

/-- What the words of a marker do, on the line of the marker. -/
def wholeMarker (b : Builder) (line : Nat) (delimiter : Delimiter) :
    List String → Except Error Builder
  | [] => .error ⟨line, .emptyMarker⟩
  | first :: arguments =>
    (b.marked delimiter first arguments).mapError fun fault => ⟨line, fault⟩

/-- A marker leaves the builder where it is, or is refused on its line. -/
theorem yields_wholeMarker (line : Nat) (delimiter : Delimiter) (words : List String) :
    Yields b.SamePlace (fun e => e.fault.OfMarker ∧ e.line = line)
      (b.wholeMarker line delimiter words) := by
  cases words with
  | nil => exact ⟨.emptyMarker, rfl⟩
  | cons first arguments =>
    have hmarked : Yields b.SamePlace Fault.OfMarker (b.marked delimiter first arguments) := by
      cases delimiter with
      | expression => exact b.yields_expressionMarker first arguments
      | block => exact b.yields_blockMarker first arguments
    exact hmarked.mapError fun fault hfault => ⟨hfault, rfl⟩

variable {b}

/-! ## Reading marker by marker -/

/-- Text between markers is one more node. -/
theorem step_content (h : b.Between) (token : Token) {text : String}
    (hlexeme : token.lexeme = .content text) :
    b.step token = .ok ((b.atLine token.line).push (.content text)) := by
  obtain ⟨_, _, nodes, outer⟩ := b
  cases h
  show outside _ token = _
  rw [outside, hlexeme]
  rfl

/-- An opening delimiter opens a marker on its line. -/
theorem step_opening (h : b.Between) (line : Nat) (delimiter : Delimiter) :
    b.step ⟨.opening delimiter, line⟩ = .ok ((b.atLine line).reading delimiter line []) := by
  obtain ⟨_, _, nodes, outer⟩ := b
  cases h
  rfl

/-- Words are collected in the marker that is open, latest first. -/
theorem foldlM_words (b : Builder) (delimiter : Delimiter) (line : Nat)
    (words before : List String) :
    (words.map fun word => (⟨.word word, line⟩ : Token)).foldlM step
        ((b.atLine line).reading delimiter line before)
      = .ok ((b.atLine line).reading delimiter line (words.reverse ++ before)) := by
  induction words generalizing before with
  | nil => rfl
  | cons word words ih =>
    rw [List.reverse_cons, List.append_assoc]
    exact ih (word :: before)

/-- A closing delimiter ends the marker that is open, which does what its words say. -/
theorem step_closing (h : b.Between) (token : Token) {delimiter : Delimiter}
    (hlexeme : token.lexeme = .closing delimiter) (words : List String) :
    ((b.atLine token.line).reading delimiter token.line words.reverse).step token
      = (b.atLine token.line).wholeMarker token.line delimiter words := by
  show inside _ _ token = _
  obtain ⟨_, _, nodes, outer⟩ := b
  cases h
  cases words with
  | nil => simp [inside, wholeMarker, hlexeme]
  | cons first arguments =>
    rw [inside_closing _ (List.reverse_reverse _) hlexeme]
    rfl

/-- The tokens of a marker are read as its words say. -/
theorem foldlM_markerTokens (h : b.Between) (line : Nat) (delimiter : Delimiter)
    (interior : List Char) :
    (markerTokens line delimiter interior).foldlM step b
      = (b.atLine line).wholeMarker line delimiter
          ((Text.words interior).map String.ofList) := by
  let words := (Text.words interior).map String.ofList
  have htokens : markerTokens line delimiter interior
      = ⟨.opening delimiter, line⟩ :: (words.map fun word => (⟨.word word, line⟩ : Token)) ++
          [⟨.closing delimiter, line⟩] := by
    simp [markerTokens, words, Function.comp_def]
  calc (markerTokens line delimiter interior).foldlM step b
      = ((words.map fun word => (⟨.word word, line⟩ : Token)) ++
          [(⟨.closing delimiter, line⟩ : Token)]).foldlM step
            ((b.atLine line).reading delimiter line []) := by
        rw [htokens, List.cons_append, List.foldlM_cons, step_opening h]
        rfl
    _ = ((b.atLine line).reading delimiter line words.reverse).step
          (⟨.closing delimiter, line⟩ : Token) := by
        rw [List.foldlM_append, foldlM_words, List.append_nil]
        simp only [List.foldlM_cons, List.foldlM_nil, bind_pure]
        rfl
    _ = (b.atLine line).wholeMarker line delimiter words :=
        step_closing h ⟨.closing delimiter, line⟩ rfl words

/-- The line of the last of some tokens, or `line` if there are none. -/
def lastLine (line : Nat) (tokens : List Token) : Nat := (tokens.getLast?.map (·.line)).getD line

/-- The line of the last token does not depend on what was there before the first. -/
theorem lastLine_cons (line : Nat) (token : Token) (tokens : List Token) :
    lastLine line (token :: tokens) = lastLine token.line tokens := by
  cases tokens with
  | nil => rfl
  | cons next tokens => simp [lastLine, List.getLast?_cons]

/-- All tokens of a marker stand on its line. -/
theorem lastLine_markerTokens (line markerLine : Nat) (delimiter : Delimiter)
    (interior : List Char) (later : List Token) :
    lastLine line (markerTokens markerLine delimiter interior ++ later)
      = lastLine markerLine later := by
  rw [lastLine, List.getLast?_append, markerTokens, List.getLast?_append]
  cases hlast : later.getLast? <;> simp [lastLine, hlast]

/-- Reading whole markers leaves the builder between markers and on the line of the last token, or
ends at a marker that is refused. -/
theorem yields_foldlM {tokens : List Token} (htokens : Composed tokens) (h : b.Between) :
    Yields (fun b' => b'.Between ∧ b'.line = lastLine b.line tokens) (fun e => e.fault.OfMarker)
      (tokens.foldlM step b) := by
  induction htokens generalizing b with
  | nil => exact ⟨h, rfl⟩
  | content text line _ ih =>
    rw [List.foldlM_cons, step_content h ⟨.content text, line⟩ rfl, lastLine_cons]
    exact ih h
  | marker line delimiter interior _ ih =>
    rw [List.foldlM_append, foldlM_markerTokens h, lastLine_markerTokens]
    have hmarker := (b.atLine line).yields_wholeMarker line delimiter
      ((Text.words interior).map String.ofList)
    refine Yields.bind (hmarker.mono (fun _ => id) fun _ he => he.1) fun b' hplace => ?_
    have hline : b'.line = line := hplace.1
    rw [← hline]
    exact ih (hplace.between h)

end Builder

/-! ## What can be wrong with a source -/

/-- What a block that is open still needs. -/
def Frame.needs : Frame → String
  | .conditional .. => "\x7b% else %\x7d or \x7b% endblock %\x7d"
  | .alternative .. | .region .. => "\x7b% endblock %\x7d"

/-- Between markers, a template can only end too early inside a block. -/
theorem Builder.open_of_finish {b : Builder} (h : b.Between) {e : Error}
    (hfinish : b.finish = .error e) :
    ∃ frame outer, b.outer = frame :: outer ∧ e.fault = .unexpectedEndOf (some frame.needs) := by
  obtain ⟨line, _, nodes, outer⟩ := b
  cases h
  cases outer with
  | nil => cases hfinish
  | cons frame outer =>
    refine ⟨frame, outer, rfl, ?_⟩
    cases frame
    all_goals
      cases hfinish
      rfl

/-- The faults of a source: those of one of its markers, and that it ends inside a block. -/
inductive Fault.OfSource (source : String) : Fault → Prop
  | marker {fault : Fault} (h : fault.OfMarker) : OfSource source fault
  | openBlock {b : Builder} {frame : Frame} {outer : List Frame}
    (hread : (tokenize source).foldlM Builder.step {} = .ok b) (hbetween : b.Between)
    (houter : b.outer = frame :: outer) :
    OfSource source (.unexpectedEndOf (some frame.needs))

/-- The fault names what was expected. -/
theorem unexpectedEndOf_inj {expected expected' : String}
    (h : Fault.unexpectedEndOf (some expected) = .unexpectedEndOf (some expected')) :
    expected = expected' := by
  simpa [Fault.unexpectedEndOf] using h

/-- Where a source ends too early, what it lacks is what an open block needs. -/
theorem Fault.OfSource.exists_needs {source expected : String}
    (h : OfSource source (.unexpectedEndOf (some expected))) :
    ∃ frame : Frame, expected = frame.needs := by
  generalize hfault : Fault.unexpectedEndOf (some expected) = fault at h
  cases h with
  | marker h =>
    subst hfault
    cases h
  | openBlock => exact ⟨_, unexpectedEndOf_inj hfault⟩

/-- A source that is no template has a marker that is refused for its words, or ends inside a block.
No token of it stands out of place, and it does not end where a keyword or the end of a marker is
still to come. -/
theorem faults_of_parse {source : String} {e : Error} (h : parse source = .error e) :
    e.fault.OfSource source ∧
      (∀ expected found, e.fault ≠ .unexpectedToken expected found) ∧
      e.fault ≠ .unexpectedEndOf (some "keyword") ∧
      e.fault ≠ .unexpectedEndOf (some "end of marker") := by
  have hsource : e.fault.OfSource source := by
    have hyields := Builder.yields_foldlM (b := {}) (composed_scan 1 source.toList) rfl
    obtain hread | ⟨b, hread, hfinish⟩ := bind_eq_error.1 h
    · exact .marker (hyields.of_error hread)
    · have hbetween := (hyields.of_ok hread).1
      obtain ⟨frame, outer, houter, hfault⟩ := Builder.open_of_finish hbetween hfinish
      rw [hfault]
      exact .openBlock hread hbetween houter
  refine ⟨hsource, fun expected found hfault => ?_, fun hfault => ?_, fun hfault => ?_⟩
  all_goals rw [hfault] at hsource
  · obtain ⟨⟨⟩⟩ := hsource
  · obtain ⟨frame, hneeds⟩ := hsource.exists_needs
    cases frame <;> simp [Frame.needs] at hneeds
  · obtain ⟨frame, hneeds⟩ := hsource.exists_needs
    cases frame <;> simp [Frame.needs] at hneeds

/-- An `if` that nothing ends. -/
theorem fault_of_open_if :
    parse "a\x7b% if x %\x7db"
        = .error ⟨1, .unexpectedEndOf (some "\x7b% else %\x7d or \x7b% endblock %\x7d")⟩ ∧
      (Fault.unexpectedEndOf (some "\x7b% else %\x7d or \x7b% endblock %\x7d")).OfSource
        "a\x7b% if x %\x7db" := by
  have h : parse "a\x7b% if x %\x7db"
      = .error ⟨1, .unexpectedEndOf (some "\x7b% else %\x7d or \x7b% endblock %\x7d")⟩ := by
    with_unfolding_all rfl
  exact ⟨h, (faults_of_parse h).1⟩

end Stencil.Markup
