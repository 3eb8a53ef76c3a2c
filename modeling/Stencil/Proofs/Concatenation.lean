import Stencil.Proofs.Sources
import Stencil.Proofs.Writes

/-!
# Rendering two sources, one behind the other

The template of two sources has the nodes of both, except that a run of text at the end of the one
and a run of text at the start of the other come to be one run (`parse_append`). What it writes is
what both of them write, so every region holds the text that it has from the one and then the text
that it has from the other.

Main statement: `interpret_parse_append`. It also says that a source without a complete marker is
rendered to itself.
-/

namespace Stencil

namespace Markup

/-! ## Runs of text at the ends -/

namespace Derivation

/-- The derivation of a run of text, of nothing if it is empty. -/
def text (t : List Char) : Derivation :=
  if t = [] then nil else content (String.ofList t) nil

/-- A text derives the lexemes of its run. -/
theorem lexemes_text (t : List Char) : (text t).lexemes = (runs t).flatMap Piece.lexemes := by
  unfold text runs
  split <;> rfl

theorem append_nil (d : Derivation) : d.append nil = d :=
  lexemes_injective (by simp [lexemes])

theorem append_assoc (d e f : Derivation) : (d.append e).append f = d.append (e.append f) :=
  lexemes_injective (by simp)

/-- A derivation whose last lexemes are those of a marker. -/
def EndsMarked (d : Derivation) : Prop :=
  ∃ (front : List Lexeme) (delimiter : Delimiter) (words : List String),
    d.lexemes = front ++ marker delimiter words

/-- A derivation is empty, ends in a run of text, or ends with a marker. -/
inductive Ends : Derivation → Prop
  | nil : Ends nil
  | content (d : Derivation) (text : String) : Ends (d.append (content text nil))
  | marked {d : Derivation} (h : d.EndsMarked) : Ends d

/-- Behind what ends with a marker, a derivation ends as it does, or with that marker. -/
theorem Ends.append {d e : Derivation} (hd : d.EndsMarked) (he : Ends e) :
    Ends (d.append e) := by
  cases he with
  | nil =>
    rw [append_nil]
    exact .marked hd
  | content e text =>
    rw [← append_assoc]
    exact .content (d.append e) text
  | marked he =>
    obtain ⟨front, delimiter, words, he⟩ := he
    exact .marked ⟨d.lexemes ++ front, delimiter, words, by
      rw [lexemes_append, he, List.append_assoc]⟩

/-- Every derivation is empty, ends in a run of text, or ends with a marker. -/
theorem ends (d : Derivation) : Ends d := by
  induction d with
  | nil => exact .nil
  | content text rest ih =>
    cases ih with
    | nil => exact .content nil text
    | content rest text' => exact .content (.content text rest) text'
    | marked h =>
      obtain ⟨front, delimiter, words, h⟩ := h
      exact .marked ⟨.content text :: front, delimiter, words, by rw [lexemes, h]; rfl⟩
  -- Every other phrase ends with a marker by itself.
  | output first arguments hfirst rest ih =>
    have hmarked : EndsMarked (.output first arguments hfirst nil) :=
      ⟨[], .expression, first :: arguments, List.append_nil _⟩
    exact ih.append hmarked
  | parent delimiter argument reference hspells rest ih =>
    have hmarked : EndsMarked (.parent delimiter argument reference hspells nil) :=
      ⟨[], delimiter, ["extends", argument], List.append_nil _⟩
    exact ih.append hmarked
  | conditional condition hcondition body rest _ ih =>
    have hmarked : EndsMarked (.conditional condition hcondition body nil) :=
      ⟨marker .block ("if" :: condition) ++ body.lexemes, .block, ["endblock"], by simp [lexemes]⟩
    exact ih.append hmarked
  | alternative condition hcondition body otherwise rest _ _ ih =>
    have hmarked : EndsMarked (.alternative condition hcondition body otherwise nil) :=
      ⟨marker .block ("if" :: condition) ++ (body.lexemes ++
        (marker .block ["else"] ++ otherwise.lexemes)), .block, ["endblock"], by simp [lexemes]⟩
    exact ih.append hmarked
  | region keyword hkeyword argument name hspells body rest _ ih =>
    have hmarked : EndsMarked (.region keyword hkeyword argument name hspells body nil) :=
      ⟨marker .block [keyword, argument] ++ body.lexemes, .block, ["endblock"], by simp [lexemes]⟩
    exact ih.append hmarked

/-- A run of text at the end of lexemes is one at the end of the derivation. -/
theorem exists_append_text {d : Derivation} {before : List Lexeme} {t : List Char}
    (h : d.lexemes = before ++ (text t).lexemes) :
    ∃ e : Derivation, d = e.append (text t) ∧ e.lexemes = before := by
  by_cases ht : t = []
  · rw [text, if_pos ht, lexemes, List.append_nil] at h
    rw [text, if_pos ht]
    exact ⟨d, d.append_nil.symm, h⟩
  · rw [text, if_neg ht, lexemes, lexemes] at h
    rw [text, if_neg ht]
    cases d.ends with
    | nil => simp [lexemes] at h
    | content e text =>
      rw [lexemes_append, lexemes, lexemes] at h
      obtain ⟨rfl, hlast⟩ := List.append_inj' h rfl
      cases hlast
      exact ⟨e, rfl, rfl⟩
    | marked hmarked =>
      -- the last lexeme would be both a run of text and the end of a marker
      obtain ⟨front, delimiter, words, hmarked⟩ := hmarked
      rw [hmarked, marker, ← List.cons_append, ← List.append_assoc] at h
      cases (List.append_inj' h rfl).2

/-- So is one at the start. -/
theorem exists_text_append {d : Derivation} {behind : List Lexeme} {t : List Char}
    (h : d.lexemes = (text t).lexemes ++ behind) :
    ∃ e : Derivation, d = (text t).append e ∧ e.lexemes = behind := by
  by_cases ht : t = []
  · rw [text, if_pos ht] at h ⊢
    exact ⟨d, rfl, h⟩
  · rw [text, if_neg ht] at h ⊢
    cases d with
    | content text rest =>
      obtain ⟨htext, hrest⟩ := List.cons.inj h
      cases htext
      exact ⟨rest, rfl, hrest⟩
    | _ => cases h

end Derivation

/-! ## The template of two sources -/

/-- The nodes of a run of text. -/
abbrev textNodes (t : List Char) : List Node := (Derivation.text t).nodes

/-- Two sources, of which the first leaves nothing unclosed, one behind the other, have the nodes of
both, but for one run of text where they meet. -/
theorem parse_append {a b : String} {nodeA nodeB : Node} {r : Reading}
    (ha : parse a = .ok nodeA) (hb : parse b = .ok nodeB) (hr : Reads r a.toList)
    (hunclosed : r.unclosed = []) (hseam : ¬ OpensBetween a.toList b.toList) :
    ∃ before t t' behind, nodeA = .template (before ++ textNodes t) ∧
      nodeB = .template (textNodes t' ++ behind) ∧
      parse (a ++ b) = .ok (.template (before ++ (textNodes (t ++ t') ++ behind))) := by
  obtain ⟨r', hr', -⟩ := scan_reads 1 b.toList
  obtain ⟨d, hd, rfl⟩ := (parse_eq_ok_iff hr).1 ha
  obtain ⟨e, he, rfl⟩ := (parse_eq_ok_iff hr').1 hb
  have hreads := hr.append hr' hunclosed hseam
  rw [← String.toList_append] at hreads
  obtain ⟨before, behind, t, t', hpieces, hpieces', happend⟩ := r.pieces_append r' hunclosed
  rw [hpieces, List.flatMap_append, ← Derivation.lexemes_text] at hd
  rw [hpieces', List.flatMap_append, ← Derivation.lexemes_text] at he
  obtain ⟨d, rfl, hbefore⟩ := Derivation.exists_append_text hd
  obtain ⟨e, rfl, hbehind⟩ := Derivation.exists_text_append he
  refine ⟨d.nodes, t, t', e.nodes, ?_, ?_, ?_⟩
  · rw [Derivation.nodes_append]
  · rw [Derivation.nodes_append]
  · refine (parse_eq_ok_iff hreads).2 ⟨d.append ((Derivation.text (t ++ t')).append e), ?_, ?_⟩
    · simp only [Derivation.lexemes_append, Derivation.lexemes_text, happend, List.flatMap_append,
        hbefore, hbehind]
    · simp only [Derivation.nodes_append]

end Markup

/-! ## The parents of two templates -/

/-- No two different parents. -/
def Agree (parent parent' : Option String) : Prop :=
  ∀ first second, parent = some first → parent' = some second → first = second

/-- A reference that does not fail is the parent then. -/
theorem eq_of_judge_adopt {parent next : Option String} {reference : String}
    (h : judge parent (.adopt reference) = .ok next) : next = some reference := by
  cases parent with
  | none =>
    cases h
    rfl
  | some first =>
    rw [judge] at h
    split at h
    · rename_i hfirst
      cases h
      rw [hfirst]
    · cases h

/-- Once there is a parent it stays. -/
theorem eq_of_judgement_some {first : String} {writes : List Write} {parent : Option String}
    (h : judgement (some first) writes = .ok parent) : parent = some first := by
  induction writes with
  | nil =>
    cases h
    rfl
  | cons write writes ih =>
    rw [judgement_cons] at h
    obtain ⟨next, hjudge, hlater⟩ := bind_eq_ok.1 h
    cases write with
    | adopt reference =>
      rw [judge] at hjudge
      split at hjudge
      · cases hjudge
        exact ih hlater
      · cases hjudge
    | fail failure => cases hjudge
    | _ =>
      cases hjudge
      exact ih hlater

/-- Writes that leave a parent, or none, leave the one that is there before if it is no other. -/
theorem judgement_some {first : String} {parent parent' : Option String} {writes : List Write}
    (h : judgement parent writes = .ok parent') (hagree : Agree (some first) parent') :
    judgement (some first) writes = .ok (some first) := by
  induction writes generalizing parent with
  | nil => rfl
  | cons write writes ih =>
    rw [judgement_cons] at h ⊢
    obtain ⟨next, hjudge, hlater⟩ := bind_eq_ok.1 h
    refine bind_eq_ok.2 ⟨some first, ?_, ih hlater⟩
    cases write with
    | adopt reference =>
      -- the reference is what the writes leave in the end, so it is no other than `first`
      cases eq_of_judge_adopt hjudge
      cases eq_of_judgement_some hlater
      rw [judge, if_pos (hagree first reference rfl rfl)]
    | fail failure => cases hjudge
    | _ => rfl

/-- Writes that leave a parent, or none, behind others that did, leave the parent of those if there
is one. -/
theorem judgement_append_of_agree {writes later : List Write} {parent parent' : Option String}
    (h : judgement none writes = .ok parent) (h' : judgement none later = .ok parent')
    (hagree : Agree parent parent') :
    judgement none (writes ++ later) = .ok (parent.or parent') := by
  rw [judgement_append, h]
  cases parent with
  | none => exact h'
  | some first => exact judgement_some h' hagree

/-! ## The regions of two templates -/

/-- That a region is there can be said of the whole text or of both of its parts. -/
theorem joined_there (there : Prop) [Decidable there] (text later : Option String) :
    joined (if there then some "" else none) (joined text later)
      = joined (joined (if there then some "" else none) text)
          (joined (if there then some "" else none) later) := by
  split <;> cases text <;> cases later <;> simp [joined]

section

variable (scene : Scene) (region : String)

/-- What nodes of a template write. -/
def Scene.writesAll (nodes : List Markup.Node) : List Write :=
  Markup.writesAll scene.context scene.names rootName nodes

/-- Nodes write one list after the other. -/
theorem Scene.writesAll_append (nodes later : List Markup.Node) :
    scene.writesAll (nodes ++ later) = scene.writesAll nodes ++ scene.writesAll later :=
  Markup.writesAll_append _ _ _ nodes later

/-- A template makes its root and writes its nodes. -/
theorem writesIn_template (nodes : List Markup.Node) :
    (Markup.Node.template nodes).writesIn scene = .ensure rootName :: scene.writesAll nodes := by
  rw [Markup.Node.writesIn, Markup.Node.writes, Scene.writesAll]

/-- The text that a template adds to a region. -/
theorem written_template (nodes : List Markup.Node) :
    written scene.regions region ((Markup.Node.template nodes).writesIn scene)
      = joined (if region = rootName then some "" else none)
          (written scene.regions region (scene.writesAll nodes)) := by
  rw [writesIn_template, written_cons, Write.parts]
  split <;> rfl

/-- A template adds to a region what the first of its nodes add and then what the others add. -/
theorem written_template_append (nodes later : List Markup.Node) :
    written scene.regions region ((Markup.Node.template (nodes ++ later)).writesIn scene)
      = joined (written scene.regions region ((Markup.Node.template nodes).writesIn scene))
          (written scene.regions region ((Markup.Node.template later).writesIn scene)) := by
  rw [written_template, written_template, written_template, ← joined_there, ← written_append,
    ← scene.writesAll_append]

/-- A run of text adds to the root only. -/
theorem written_textNodes (t : List Char) :
    written scene.regions region (scene.writesAll (Markup.textNodes t))
      = if region = rootName ∧ t ≠ [] then some (String.ofList t) else none := by
  by_cases ht : t = []
  · subst ht
    rw [if_neg (fun h => h.2 rfl)]
    rfl
  · rw [Markup.textNodes, Markup.Derivation.text, if_neg ht, Markup.Derivation.nodes,
      Markup.Derivation.nodes, Scene.writesAll, Markup.writesAll, Markup.Node.writes,
      Markup.writesAll, List.append_nil, written_cons, Write.parts]
    by_cases hregion : region = rootName
    · simp [hregion, ht, fill, written, outline]
    · simp [hregion, written, outline]

/-- Two runs of text add what one run of both texts adds. -/
theorem written_textNodes_append (t t' : List Char) :
    written scene.regions region (scene.writesAll (Markup.textNodes (t ++ t')))
      = joined (written scene.regions region (scene.writesAll (Markup.textNodes t)))
          (written scene.regions region (scene.writesAll (Markup.textNodes t'))) := by
  rw [written_textNodes, written_textNodes, written_textNodes]
  by_cases hregion : region = rootName
  · by_cases ht : t = []
    · simp [ht]
    · by_cases ht' : t' = []
      · simp [ht']
      · simp [hregion, ht, ht', String.ofList_append]
  · simp [hregion]

end

/-- A run of text has nothing to do with parents. -/
theorem judgement_textNodes_append (scene : Scene) (t : List Char) (writes : List Write)
    (parent : Option String) :
    judgement parent (scene.writesAll (Markup.textNodes t) ++ writes)
      = judgement parent writes := by
  have htext : judgement parent (scene.writesAll (Markup.textNodes t)) = .ok parent := by
    unfold Markup.textNodes Markup.Derivation.text
    split <;> rfl
  rw [judgement_append, htext]
  rfl

/-- Nor has that the root is there. -/
theorem judgement_template (scene : Scene) (nodes : List Markup.Node) :
    judgement none ((Markup.Node.template nodes).writesIn scene)
      = judgement none (scene.writesAll nodes) := by
  rw [writesIn_template, judgement_cons]
  rfl

/-- A template with one run of two texts is rendered as one that has two runs in that place. -/
theorem interpret_textNodes_append {scene : Scene} {before behind : List Markup.Node}
    {t t' : List Char} {page : Page}
    (h : interpret (.template ((before ++ Markup.textNodes t) ++ (Markup.textNodes t' ++ behind)))
      scene = .ok page) :
    interpret (.template (before ++ (Markup.textNodes (t ++ t') ++ behind))) scene = .ok page := by
  have hjudge (parent : Option String) :
      judgement parent (scene.writesAll (Markup.textNodes (t ++ t') ++ behind))
        = judgement parent
            (scene.writesAll (Markup.textNodes t ++ (Markup.textNodes t' ++ behind))) := by
    simp only [scene.writesAll_append, judgement_textNodes_append]
  have hwritten (region : String) :
      written scene.regions region (scene.writesAll (Markup.textNodes (t ++ t') ++ behind))
        = written scene.regions region
            (scene.writesAll (Markup.textNodes t ++ (Markup.textNodes t' ++ behind))) := by
    simp only [scene.writesAll_append, written_append, written_textNodes_append, joined_assoc]
  rw [List.append_assoc, interpret_eq_ok, judgement_template] at h
  rw [interpret_eq_ok, judgement_template]
  refine ⟨?_, fun region => ?_⟩
  · rw [← h.1, scene.writesAll_append before, scene.writesAll_append before, judgement_append,
      judgement_append]
    simp only [hjudge]
  · rw [h.2, written_template, written_template, scene.writesAll_append before,
      scene.writesAll_append before, written_append, written_append, hwritten]

/-- A template is rendered as its first nodes are and then as the others are, if they do not refer
to two parents. -/
theorem interpret_template_append {scene : Scene} {nodes later : List Markup.Node}
    {page page' : Page} (h : interpret (.template nodes) scene = .ok page)
    (h' : interpret (.template later) scene = .ok page') (hagree : Agree page.parent page'.parent) :
    ∃ both, interpret (.template (nodes ++ later)) scene = .ok both ∧
      both.parent = page.parent.or page'.parent ∧
      ∀ region, both.regions.get? region
        = joined (page.regions.get? region) (page'.regions.get? region) := by
  rw [interpret_eq_ok, judgement_template] at h h'
  have hjudge := judgement_append_of_agree h.1 h'.1 hagree
  rw [← scene.writesAll_append, ← judgement_template] at hjudge
  obtain ⟨both, hboth, hparent, hregions⟩ := interpret_of_judgement_ok hjudge
  refine ⟨both, hboth, hparent, fun region => ?_⟩
  rw [hregions, written_template_append, h.2, h'.2]

/-- A template of two runs of text is rendered to these texts. -/
theorem interpret_texts (scene : Scene) (t t' : List Char) :
    interpret (.template (Markup.textNodes t ++ Markup.textNodes t')) scene
      = .ok ⟨(∅ : Regions).insert rootName (String.ofList (t ++ t')), none⟩ := by
  refine interpret_eq_root ?_ fun region => ?_
  · rw [judgement_template, scene.writesAll_append, judgement_textNodes_append,
      ← List.append_nil (scene.writesAll _), judgement_textNodes_append]
    rfl
  · rw [written_template, scene.writesAll_append, written_append, ← written_textNodes_append,
      written_textNodes]
    by_cases hregion : region = rootName
    · by_cases ht : t ++ t' = []
      · simp [hregion, ht]
      · simp [hregion, ht]
    · simp [hregion]

/-- A source without a complete marker is rendered to itself. -/
theorem interpret_parse_of_passages_eq_nil {source : String} {r : Markup.Reading}
    (hr : Markup.Reads r source.toList) (hpassages : r.passages = []) :
    ∃ node, Markup.parse source = .ok node ∧ ∀ scene : Scene,
      interpret node scene = .ok ⟨(∅ : Regions).insert rootName source, none⟩ := by
  obtain ⟨passages, text, unclosed⟩ := r
  cases hpassages
  have hsource : text ++ unclosed = source.toList := by
    rw [← hr.written]
    simp [Markup.Reading.pieces, Markup.written_runs]
  refine ⟨.template (Markup.textNodes text ++ Markup.textNodes unclosed), ?_, fun scene => ?_⟩
  · refine (Markup.parse_eq_ok_iff hr).2
      ⟨(Markup.Derivation.text text).append (.text unclosed), ?_, ?_⟩
    · simp [Markup.Reading.pieces, Markup.Derivation.lexemes_text]
    · rw [Markup.Derivation.nodes_append]
  · rw [interpret_texts, hsource, String.ofList_toList]

/-- Of two sources that parse, where the first does not end inside a marker that is never closed and
no delimiter opens where they meet, the one behind the other parses. Where both are rendered, and
not with two different parents, it is rendered: every region that one of them has holds the text
from the first and then the text from the second, and the parent is that of the first if it has one
and else that of the second. A source without a complete marker is rendered to itself, with no
region but the root. -/
theorem interpret_parse_append :
    (∀ (a b : String) (nodeA nodeB : Markup.Node) (r : Markup.Reading),
      Markup.parse a = .ok nodeA → Markup.parse b = .ok nodeB →
      Markup.Reads r a.toList → r.unclosed = [] → ¬ Markup.OpensBetween a.toList b.toList →
      ∃ node, Markup.parse (a ++ b) = .ok node ∧
        ∀ (scene : Scene) (pageA pageB : Page), interpret nodeA scene = .ok pageA →
          interpret nodeB scene = .ok pageB → Agree pageA.parent pageB.parent →
          ∃ page, interpret node scene = .ok page ∧
            page.parent = pageA.parent.or pageB.parent ∧
            ∀ region, page.regions.get? region
              = joined (pageA.regions.get? region) (pageB.regions.get? region)) ∧
    ∀ (source : String) (r : Markup.Reading), Markup.Reads r source.toList → r.passages = [] →
      ∃ node, Markup.parse source = .ok node ∧ ∀ scene : Scene,
        interpret node scene = .ok ⟨(∅ : Regions).insert rootName source, none⟩ := by
  refine ⟨?_, fun source r => interpret_parse_of_passages_eq_nil⟩
  intro a b nodeA nodeB r ha hb hr hunclosed hseam
  obtain ⟨before, t, t', behind, rfl, rfl, hparse⟩ :=
    Markup.parse_append ha hb hr hunclosed hseam
  refine ⟨_, hparse, ?_⟩
  intro scene pageA pageB hpageA hpageB hagree
  obtain ⟨page, hpage, hparent, hregions⟩ := interpret_template_append hpageA hpageB hagree
  exact ⟨page, interpret_textNodes_append hpage, hparent, hregions⟩

/-- A source with a parent and a region that ends in a brace. -/
def navStart : String := "{% extends base %}{% insert nav %}A{% endblock %}x\x7b"

/-- One with the same parent and region to stand behind it. -/
def navEnd : String := "y{% insert nav %}B{% endblock %}{% extends base %}"

/-- The first has three markers, and then two characters of text. -/
theorem reads_navStart : Markup.Reads ⟨[⟨[], .block, " extends base ".toList⟩,
    ⟨[], .block, " insert nav ".toList⟩, ⟨['A'], .block, " endblock ".toList⟩],
    ['x', '\x7b'], []⟩ navStart.toList :=
  .of_cuts rfl rfl (.of_cuts rfl rfl (.of_cuts rfl rfl (.of_untilOpening_none rfl)))

/-- Its reference and its region are derived from them. -/
theorem parse_navStart : Markup.parse navStart = .ok (.template
    [.parent "base", .region "nav" [.content "A"], .content "x\x7b"]) :=
  (Markup.parse_eq_ok_iff reads_navStart).2 ⟨.parent .block "base" _ (Markup.spells_unquote _)
    (.region "insert" (.inl rfl) "nav" _ (Markup.spells_unquote _) (.content "A" .nil)
      (.content "x\x7b" .nil)), by decide +kernel, rfl⟩

/-- The second has the reference behind the region. -/
theorem parse_navEnd : Markup.parse navEnd = .ok (.template
    [.content "y", .region "nav" [.content "B"], .parent "base"]) := by
  have hreads : Markup.Reads ⟨[⟨['y'], .block, " insert nav ".toList⟩,
      ⟨['B'], .block, " endblock ".toList⟩, ⟨[], .block, " extends base ".toList⟩], [], []⟩
      navEnd.toList :=
    .of_cuts rfl rfl (.of_cuts rfl rfl (.of_cuts rfl rfl (.of_untilOpening_none rfl)))
  exact (Markup.parse_eq_ok_iff hreads).2 ⟨.content "y" (.region "insert" (.inl rfl) "nav" _
    (Markup.spells_unquote _) (.content "B" .nil) (.parent .block "base" _
      (Markup.spells_unquote _) .nil)), by decide +kernel, rfl⟩

/-- The region holds both texts, the parent is the common one, and the brace opens nothing where no
brace follows it. The text that this leaves in the root is a source that is rendered to itself. -/
theorem interpret_brace_append :
    (∃ node, Markup.parse (navStart ++ navEnd) = .ok node ∧
      ∀ context : Option Context, ∃ page, interpret node ⟨context, none⟩ = .ok page ∧
        page.parent = some "base" ∧ page.regions.get? "nav" = some "AB" ∧
        page.regions.get? rootName = some "x\x7by") ∧
    ∃ node, Markup.parse "x\x7by" = .ok node ∧ ∀ scene : Scene,
      interpret node scene = .ok ⟨(∅ : Regions).insert rootName "x\x7by", none⟩ := by
  obtain ⟨happend, hwhole⟩ := interpret_parse_append
  refine ⟨?_, hwhole _ _ (.of_untilOpening_none rfl) rfl⟩
  have hseam : ¬ Markup.OpensBetween navStart.toList navEnd.toList := by
    simp [Markup.OpensBetween, navStart, navEnd]
  obtain ⟨node, hnode, hpage⟩ :=
    happend _ _ _ _ _ parse_navStart parse_navEnd reads_navStart rfl hseam
  refine ⟨node, hnode, fun context => ?_⟩
  obtain ⟨page, hrender, hparent, hregions⟩ := hpage ⟨context, none⟩ _ _ rfl rfl (by
    rintro first second ⟨⟩ ⟨⟩
    rfl)
  refine ⟨page, hrender, hparent.trans rfl, ?_, ?_⟩ <;>
    simp [hregions, Markup.Node.render, Markup.renderAll, Outcome.andThen, Page.append,
      Page.ensure, Page.adopt, Table.get?_insert, rootName, joined]

end Stencil
