import Stencil.Page
import Stencil.Proofs.Results

/-!
# What rendering writes

Rendering a node only ever adds to a page, and what it adds is settled before: the context and the
names of the supplied regions decide on it, not what the page holds or what was supplied. So a node
has a list of writes (`Node.writes`), and rendering it is carrying these out one after the other
(`render_eq_replay`).

Of a list of writes, its `judgement` says whether carrying it out fails, and which parent it leaves;
its `outline` says for each region which pieces of text it adds there, where a piece may be the text
that was supplied for a region. Main statements: `interpret_of_judgement_error` and
`interpret_eq_ok`, that a template is rendered as the judgement and the outlines of its writes say.
-/

namespace Stencil

/-! ## Writes -/

/-- Something that is done to a page. -/
inductive Write where
  /-- A region is there from now on. -/
  | ensure (region : String)
  /-- A text goes to the end of a region. -/
  | append (region text : String)
  /-- The text that was supplied for the region `name` goes to the end of a region. -/
  | copy (region name : String)
  /-- The template refers to a parent. -/
  | adopt (reference : String)
  /-- Rendering ends with a failure. -/
  | fail (failure : Failure)

/-- Carries out a write. -/
def Write.apply (supplied : Regions) : Write → Page → Outcome
  | .ensure region, page => ⟨page.ensure region, none⟩
  | .append region text, page => ⟨page.append region text, none⟩
  | .copy region name, page => ⟨page.append region ((supplied.get? name).getD ""), none⟩
  | .adopt reference, page => page.adopt reference
  | .fail failure, page => ⟨page, some failure⟩

/-- Carries out writes one after the other, up to the first that fails. -/
def replay (supplied : Regions) : List Write → Page → Outcome
  | [], page => ⟨page, none⟩
  | write :: writes, page => (write.apply supplied page).andThen (replay supplied writes)

namespace Markup

mutual

/-- What a node writes into the region `key`, where `names` are the names of the supplied regions,
if there are such. -/
def Node.writes (context : Option Context) (names : Option (List String)) (key : String) :
    Node → List Write
  | .template children => .ensure key :: writesAll context names key children
  | .content text => [.append key text]
  | .output words =>
    match Scene.evaluate ⟨context, none⟩ words with
    | .ok value => [.append key value.text]
    | .error failure => [.ensure key, .fail failure]
  | .parent reference => [.ensure key, .adopt reference]
  | .conditional condition body otherwise =>
    .ensure key ::
      match Scene.evaluate ⟨context, none⟩ condition with
      | .ok value =>
        if value.truthy then writesAll context names key body
        else writesOption context names key otherwise
      | .error failure => [.fail failure]
  | .alternative body => .ensure key :: writesAll context names key body
  | .region name body =>
    .ensure key :: .ensure name ::
      match names with
      | none => writesAll context names name body
      | some supplied =>
        if name ∈ supplied then [.copy key name]
        else if name = key then []
        else writesAll context names name body

/-- What nodes write, one after the other. -/
def writesAll (context : Option Context) (names : Option (List String)) (key : String) :
    List Node → List Write
  | [] => []
  | node :: nodes => node.writes context names key ++ writesAll context names key nodes

/-- What a node writes if there is one. -/
def writesOption (context : Option Context) (names : Option (List String)) (key : String) :
    Option Node → List Write
  | none => []
  | some node => node.writes context names key

end

/-- Nodes write what the first of them write and then what the others do. -/
theorem writesAll_append (context : Option Context) (names : Option (List String)) (key : String)
    (nodes later : List Node) :
    writesAll context names key (nodes ++ later)
      = writesAll context names key nodes ++ writesAll context names key later := by
  induction nodes with
  | nil => rfl
  | cons node nodes ih => rw [List.cons_append, writesAll, writesAll, ih, List.append_assoc]

end Markup

/-- The names of the regions that are supplied, if a child has supplied any. -/
def Scene.names (scene : Scene) : Option (List String) := scene.supplied.map (·.names)

/-- What is supplied; nothing where there is no child. -/
def Scene.regions (scene : Scene) : Regions := scene.supplied.getD ∅

/-! ## Rendering is carrying out writes -/

theorem Outcome.andThen_ok (page : Page) (next : Page → Outcome) :
    Outcome.andThen ⟨page, none⟩ next = next page := rfl

/-- Doing nothing more changes nothing. -/
theorem Outcome.andThen_pure (outcome : Outcome) :
    outcome.andThen (fun page => ⟨page, none⟩) = outcome := by
  obtain ⟨page, failure⟩ := outcome
  cases failure <;> rfl

/-- Three steps in a row can be grouped either way. -/
theorem Outcome.andThen_assoc (outcome : Outcome) (next last : Page → Outcome) :
    (outcome.andThen next).andThen last = outcome.andThen fun page => (next page).andThen last := by
  obtain ⟨page, failure⟩ := outcome
  cases failure <;> rfl

/-- Writes are carried out one list after the other. -/
theorem replay_append (supplied : Regions) (writes later : List Write) (page : Page) :
    replay supplied (writes ++ later) page
      = (replay supplied writes page).andThen (replay supplied later) := by
  induction writes generalizing page with
  | nil => rfl
  | cons write writes ih =>
    rw [List.cons_append, replay, replay, Outcome.andThen_assoc]
    exact congrArg _ (funext ih)

/-- The value of words depends on the context only. -/
theorem Scene.evaluate_eq (scene : Scene) (words : List String) :
    scene.evaluate words = Scene.evaluate ⟨scene.context, none⟩ words := rfl

namespace Markup

/-- An insertion point writes what rendering it does, if its body does. -/
theorem region_eq_replay {scene : Scene} {key name : String} {body : List Node} {page : Page}
    (hbody : renderAll scene name body ((page.ensure key).ensure name)
      = replay scene.regions (writesAll scene.context scene.names name body)
          ((page.ensure key).ensure name)) :
    (Node.region name body).render scene key page
      = replay scene.regions ((Node.region name body).writes scene.context scene.names key)
          page := by
  rw [Node.render, Node.writes.eq_def]
  dsimp only
  rw [replay, Write.apply, Outcome.andThen_ok, replay, Write.apply, Outcome.andThen_ok]
  obtain ⟨context, supplied⟩ := scene
  cases supplied with
  | none => exact hbody
  | some regions =>
    have hnames : Scene.names ⟨context, some regions⟩ = some regions.names := rfl
    -- The writes look at the names only, rendering at the regions themselves.
    have hmem : name ∈ regions.names ↔ (regions.get? name).isSome :=
      Table.contains_iff_mem_names.symm
    rw [hnames] at hbody ⊢
    dsimp only
    split
    · rename_i text hname
      rw [hname, Option.isSome_some, eq_self, iff_true] at hmem
      rw [if_pos hmem, replay, Write.apply, Outcome.andThen_ok, replay]
      simp only [Scene.regions, Option.getD_some, hname]
    · rename_i hname
      have hnot : name ∉ regions.names := by
        rw [hmem, hname]
        exact Bool.false_ne_true
      rw [if_neg hnot]
      split
      · rfl
      · exact hbody

mutual

/-- Rendering a node is carrying out what it writes. -/
theorem render_eq_replay (scene : Scene) (key : String) : ∀ (node : Node) (page : Page),
    node.render scene key page
      = replay scene.regions (node.writes scene.context scene.names key) page
  | .template children, page => by
    rw [Node.render, Node.writes, replay]
    exact renderAll_eq_replay scene key children (page.ensure key)
  | .content text, page => by
    rw [Node.render, Node.writes]
    rfl
  | .output words, page => by
    rw [Node.render, Node.writes.eq_def]
    dsimp only
    rw [← scene.evaluate_eq]
    cases scene.evaluate words with
    | ok value => rfl
    | error failure => rfl
  | .parent reference, page => by
    rw [Node.render, Node.writes, replay, Write.apply, Outcome.andThen_ok, replay]
    exact (Outcome.andThen_pure _).symm
  | .conditional condition body otherwise, page => by
    rw [Node.render, Node.writes.eq_def]
    dsimp only
    rw [replay, Write.apply, Outcome.andThen_ok, ← scene.evaluate_eq]
    cases scene.evaluate condition with
    | error failure => rfl
    | ok value =>
      dsimp only
      split
      · exact renderAll_eq_replay scene key body (page.ensure key)
      · exact renderOption_eq_replay scene key otherwise (page.ensure key)
  | .alternative body, page => by
    rw [Node.render, Node.writes, replay]
    exact renderAll_eq_replay scene key body (page.ensure key)
  | .region name body, page =>
    region_eq_replay (renderAll_eq_replay scene name body ((page.ensure key).ensure name))

/-- Rendering several nodes carries out their writes. -/
theorem renderAll_eq_replay (scene : Scene) (key : String) : ∀ (nodes : List Node) (page : Page),
    renderAll scene key nodes page
      = replay scene.regions (writesAll scene.context scene.names key nodes) page
  | [], page => by
    rw [renderAll, writesAll, replay]
  | node :: nodes, page => by
    rw [renderAll, writesAll, replay_append, render_eq_replay scene key node page]
    exact congrArg _ (funext (renderAll_eq_replay scene key nodes))

/-- Rendering a branch that may be missing carries out its writes. -/
theorem renderOption_eq_replay (scene : Scene) (key : String) :
    ∀ (node : Option Node) (page : Page), renderOption scene key node page
      = replay scene.regions (writesOption scene.context scene.names key node) page
  | none, page => by
    rw [renderOption, writesOption, replay]
  | some node, page => by
    rw [renderOption, writesOption]
    exact render_eq_replay scene key node page

end

end Markup

/-! ## The judgement of writes -/

/-- What becomes of the parent by a write, or how the write fails. -/
def judge (parent : Option String) : Write → Except Failure (Option String)
  | .ensure _ | .append _ _ | .copy _ _ => .ok parent
  | .adopt reference =>
    match parent with
    | none => .ok (some reference)
    | some first =>
      if first = reference then .ok (some first)
      else .error (.lineage (.multipleParents first reference))
  | .fail failure => .error failure

/-- The parent that writes leave, or the failure that they end with. -/
def judgement (parent : Option String) (writes : List Write) : Except Failure (Option String) :=
  writes.foldlM judge parent

theorem judgement_cons (parent : Option String) (write : Write) (writes : List Write) :
    judgement parent (write :: writes) = judge parent write >>= (judgement · writes) :=
  List.foldlM_cons

/-- Writes are judged one list after the other. -/
theorem judgement_append (parent : Option String) (writes later : List Write) :
    judgement parent (writes ++ later) = judgement parent writes >>= (judgement · later) :=
  List.foldlM_append

/-! ## The outline of writes -/

/-- A piece of the text of a region. -/
inductive Part where
  /-- A text that stays the same whatever is supplied. -/
  | fixed (text : String)
  /-- The text that is supplied for the region `name`. -/
  | supplied (name : String)

/-- The text that parts come to where the regions `supplied` are supplied. -/
def fill (supplied : Regions) : List Part → String
  | [] => ""
  | .fixed text :: parts => text ++ fill supplied parts
  | .supplied name :: parts => (supplied.get? name).getD "" ++ fill supplied parts

/-- Parts are filled one list after the other. -/
theorem fill_append (supplied : Regions) (parts later : List Part) :
    fill supplied (parts ++ later) = fill supplied parts ++ fill supplied later := by
  induction parts with
  | nil => exact String.empty_append.symm
  | cons part parts ih =>
    cases part with
    | fixed text => rw [List.cons_append, fill, fill, ih, String.append_assoc]
    | supplied name => rw [List.cons_append, fill, fill, ih, String.append_assoc]

/-- What a write adds to a region, if it writes there at all. -/
def Write.parts (region : String) : Write → Option (List Part)
  | .ensure key => if region = key then some [] else none
  | .append key text => if region = key then some [.fixed text] else none
  | .copy key name => if region = key then some [.supplied name] else none
  | .adopt _ | .fail _ => none

/-- What writes add to a region, if any of them writes there. -/
def outline (region : String) : List Write → Option (List Part)
  | [] => none
  | write :: writes => (write.parts region).merge (· ++ ·) (outline region writes)

/-- The text that writes add to a region, if any of them writes there. -/
def written (supplied : Regions) (region : String) (writes : List Write) : Option String :=
  (outline region writes).map (fill supplied)

/-- What is there and what comes behind it; what is absent counts as empty. -/
abbrev joined (text later : Option String) : Option String := text.merge (· ++ ·) later

/-- Texts that may be absent are joined in any grouping. -/
theorem joined_assoc (first second third : Option String) :
    joined (joined first second) third = joined first (joined second third) := by
  cases first <;> cases second <;> cases third <;> simp [joined, String.append_assoc]

/-- Filling merged parts joins what they are filled to. -/
theorem map_fill_merge (supplied : Regions) (parts later : Option (List Part)) :
    (parts.merge (· ++ ·) later).map (fill supplied)
      = joined (parts.map (fill supplied)) (later.map (fill supplied)) := by
  cases parts <;> cases later <;> simp [joined, fill_append]

theorem written_cons (supplied : Regions) (region : String) (write : Write)
    (writes : List Write) :
    written supplied region (write :: writes)
      = joined ((write.parts region).map (fill supplied)) (written supplied region writes) :=
  map_fill_merge supplied _ _

/-- Writes add their texts one list after the other. -/
theorem written_append (supplied : Regions) (region : String) (writes later : List Write) :
    written supplied region (writes ++ later)
      = joined (written supplied region writes) (written supplied region later) := by
  induction writes with
  | nil => exact Option.merge_none_left.symm
  | cons write writes ih => rw [List.cons_append, written_cons, written_cons, ih, joined_assoc]

/-! ## Carrying writes out -/

/-- Appending adds to one region, and to no other. -/
theorem Page.get?_append (page : Page) (key text region : String) :
    (page.append key text).regions.get? region
      = joined (page.regions.get? region) (if region = key then some text else none) := by
  rw [Page.append, Table.get?_insert]
  split
  · rename_i h
    subst h
    cases page.regions.get? region <;> simp [joined]
  · exact Option.merge_none_right.symm

/-- That a region is there comes to the empty text being added to it. -/
theorem Page.ensure_eq_append (page : Page) (key : String) :
    page.ensure key = page.append key "" := by
  rw [Page.append, String.append_empty, Page.ensure]

/-- A write fails as it is judged. -/
theorem apply_of_judge_error (supplied : Regions) {write : Write} {page : Page} {failure : Failure}
    (h : judge page.parent write = .error failure) :
    (write.apply supplied page).failure = some failure := by
  cases write with
  | adopt reference =>
    obtain ⟨regions, parent⟩ := page
    cases parent with
    | none => cases h
    | some first =>
      rw [judge] at h
      split at h
      · cases h
      · rename_i hne
        cases h
        simp only [Write.apply, Page.adopt, if_neg hne]
  | fail failure' =>
    cases h
    rfl
  | _ => cases h

/-- A reference that does not fail is the parent then, and no region changes. -/
theorem adopt_of_judge_ok {page : Page} {reference : String} {parent : Option String}
    (h : judge page.parent (.adopt reference) = .ok parent) :
    page.adopt reference = ⟨{ page with parent := parent }, none⟩ := by
  obtain ⟨regions, before⟩ := page
  cases before with
  | none =>
    cases h
    rfl
  | some first =>
    rw [judge] at h
    split at h
    · rename_i heq
      cases h
      simp only [Page.adopt, if_pos heq]
    · cases h

/-- A write that does not fail leaves the parent that it is judged to leave, and adds its parts to
every region. -/
theorem apply_of_judge_ok (supplied : Regions) {write : Write} {page : Page}
    {parent : Option String} (h : judge page.parent write = .ok parent) :
    ∃ page', write.apply supplied page = ⟨page', none⟩ ∧ page'.parent = parent ∧
      ∀ region, page'.regions.get? region
        = joined (page.regions.get? region) ((write.parts region).map (fill supplied)) := by
  cases write with
  | ensure key =>
    cases h
    refine ⟨_, rfl, rfl, fun region => ?_⟩
    rw [Page.ensure_eq_append, Page.get?_append, Write.parts]
    split <;> rfl
  | append key text =>
    cases h
    refine ⟨_, rfl, rfl, fun region => ?_⟩
    rw [Page.get?_append, Write.parts]
    split <;> simp [fill]
  | copy key name =>
    cases h
    refine ⟨_, rfl, rfl, fun region => ?_⟩
    rw [Page.get?_append, Write.parts]
    split <;> simp [fill]
  | adopt reference =>
    exact ⟨_, adopt_of_judge_ok h, rfl, fun region => Option.merge_none_right.symm⟩
  | fail failure => cases h

/-- Writes that are judged to fail do. -/
theorem replay_of_judgement_error (supplied : Regions) {writes : List Write} (page : Page)
    {failure : Failure} (h : judgement page.parent writes = .error failure) :
    (replay supplied writes page).failure = some failure := by
  induction writes generalizing page with
  | nil => cases h
  | cons write writes ih =>
    rw [judgement_cons] at h
    rw [replay]
    cases hjudge : judge page.parent write with
    | error failure' =>
      rw [hjudge] at h
      cases h
      have hfailure := apply_of_judge_error supplied hjudge
      rw [Outcome.andThen, hfailure]
      exact hfailure
    | ok parent =>
      obtain ⟨page', happly, rfl, -⟩ := apply_of_judge_ok supplied hjudge
      rw [happly, Outcome.andThen_ok]
      rw [hjudge] at h
      exact ih page' h

/-- Writes that are not judged to fail leave the parent that they are judged to leave, and add
their outlines to the regions. -/
theorem replay_of_judgement_ok (supplied : Regions) {writes : List Write} (page : Page)
    {parent : Option String} (h : judgement page.parent writes = .ok parent) :
    ∃ page', replay supplied writes page = ⟨page', none⟩ ∧ page'.parent = parent ∧
      ∀ region, page'.regions.get? region
        = joined (page.regions.get? region) (written supplied region writes) := by
  induction writes generalizing page with
  | nil =>
    cases h
    exact ⟨page, rfl, rfl, fun region => Option.merge_none_right.symm⟩
  | cons write writes ih =>
    rw [judgement_cons] at h
    obtain ⟨next, hjudge, hlater⟩ := bind_eq_ok.1 h
    obtain ⟨between, happly, rfl, hbetween⟩ := apply_of_judge_ok supplied hjudge
    obtain ⟨page', hreplay, hparent, hpage⟩ := ih between hlater
    refine ⟨page', ?_, hparent, fun region => ?_⟩
    · rw [replay, happly, Outcome.andThen_ok, hreplay]
    · rw [hpage, hbetween, joined_assoc, written_cons]

/-! ## Rendering a template -/

/-- What rendering a template in a scene writes. -/
abbrev Markup.Node.writesIn (node : Markup.Node) (scene : Scene) : List Write :=
  node.writes scene.context scene.names rootName

/-- Templates that write the same from the same supplied regions are rendered alike. -/
theorem interpret_congr {node node' : Markup.Node} {scene scene' : Scene}
    (hwrites : node.writesIn scene = node'.writesIn scene')
    (hregions : scene.regions = scene'.regions) :
    interpret node scene = interpret node' scene' := by
  unfold Markup.Node.writesIn at hwrites
  rw [interpret, interpret, Markup.render_eq_replay, Markup.render_eq_replay, hwrites, hregions]

/-- A template whose writes are judged to fail is not rendered. -/
theorem interpret_of_judgement_error {node : Markup.Node} {scene : Scene} {failure : Failure}
    (h : judgement none (node.writesIn scene) = .error failure) :
    interpret node scene = .error failure := by
  have hfailure := replay_of_judgement_error scene.regions {} h
  rw [interpret, Markup.render_eq_replay]
  split
  · rename_i hreplay
    rw [hreplay] at hfailure
    cases hfailure
  · rename_i hreplay
    rw [hreplay] at hfailure
    cases hfailure
    rfl

/-- A template whose writes are not judged to fail is rendered, with the parent that they are judged
to leave, and its regions hold what the writes add. -/
theorem interpret_of_judgement_ok {node : Markup.Node} {scene : Scene} {parent : Option String}
    (h : judgement none (node.writesIn scene) = .ok parent) :
    ∃ page, interpret node scene = .ok page ∧ page.parent = parent ∧
      ∀ region, page.regions.get? region
        = written scene.regions region (node.writesIn scene) := by
  obtain ⟨page, hreplay, hparent, hpage⟩ :=
    replay_of_judgement_ok scene.regions {} h
  refine ⟨page, ?_, hparent, fun region => ?_⟩
  · rw [interpret, Markup.render_eq_replay, hreplay]
  · rw [hpage, Table.get?_empty]
    exact Option.merge_none_left

/-- A template is rendered exactly when its writes are not judged to fail, with the parent that they
are judged to leave, and its regions hold what the writes add. -/
theorem interpret_eq_ok {node : Markup.Node} {scene : Scene} {page : Page} :
    interpret node scene = .ok page
      ↔ judgement none (node.writesIn scene) = .ok page.parent ∧
        ∀ region, page.regions.get? region
          = written scene.regions region (node.writesIn scene) := by
  cases hjudge : judgement none (node.writesIn scene) with
  | error failure =>
    rw [interpret_of_judgement_error hjudge]
    constructor
    · rintro ⟨⟩
    · rintro ⟨⟨⟩, -⟩
  | ok parent =>
    obtain ⟨page', hinterpret, rfl, hpage'⟩ := interpret_of_judgement_ok hjudge
    rw [hinterpret]
    constructor
    · rintro ⟨⟩
      exact ⟨rfl, hpage'⟩
    · rintro ⟨hparent, hpage⟩
      -- A page is given by its regions and its parent.
      have hregions : page'.regions = page.regions :=
        Table.ext_get? fun region => (hpage' region).trans (hpage region).symm
      have hparents : page'.parent = page.parent := Except.ok.inj hparent
      cases page
      cases page'
      cases hregions
      cases hparents
      rfl

/-- A template that refers to no parent and writes to the root only is rendered to what it writes
there. -/
theorem interpret_eq_root {node : Markup.Node} {scene : Scene} {text : String}
    (hjudge : judgement none (node.writesIn scene) = .ok none)
    (hwritten : ∀ region, written scene.regions region (node.writesIn scene)
      = if region = rootName then some text else none) :
    interpret node scene = .ok ⟨(∅ : Regions).insert rootName text, none⟩ := by
  refine interpret_eq_ok.2 ⟨hjudge, fun region => ?_⟩
  rw [hwritten, Table.get?_insert, Table.get?_empty]

end Stencil
