import Stencil.Chain
import Stencil.Disk.Library
import Stencil.Proofs.Rendering

/-!
# Chains as they are declared

Compiling keeps an account of the way it has come: the ids so far, the regions to supply, the child
and the reference that led to the template at hand. Here a chain is declared without that account.
`Climbs` says which levels a reference leads through, each rendered with the regions of the level
below it, and `Ends` how a chain ends behind its last level.

The main statements are `compile_eq_iff`, that compiling returns the end of the one chain that
repeats no template, and `shelf_and_disk_follow_chain`, which spells out what that means where the
templates lie in memory or on a disk.
-/

namespace Stencil

namespace Chain

/-! ## Levels -/

/-- One level of a chain: a template and the page that it fills. -/
structure Level where
  id : String
  page : Page

/-- The ids of some levels, from the first to the last. Levels are listed last first. -/
def ids : List Level → List String
  | [] => []
  | level :: below => ids below ++ [level.id]

/-- The id of the template behind some levels: at first what the reference stands for, and then
what the parent that the last level refers to stands for, if it refers to one. -/
def next? (library : Library) (reference : String) : List Level → Option (Except Failure String)
  | [] => some (library.resolve none reference)
  | level :: _ => level.page.parent.map (library.resolve (some level.id))

/-- The regions that the template behind some levels is rendered with: those of the last level. -/
def supply : List Level → Option Regions
  | [] => none
  | level :: _ => some level.page.regions

/-- The child behind which a template stands, and the reference there. -/
def origin : List Level → Option (String × String)
  | [] => none
  | level :: _ => level.page.parent.map fun path => (level.id, path)

/-- How it is reported that a template cannot be loaded: as it is where nothing refers to the
template, and else as a parent that cannot be resolved. -/
def unloaded (levels : List Level) (failure : Failure) : Failure :=
  match origin levels with
  | none => failure
  | some (child, path) => .lineage (.unresolvable path child failure.message)

section

variable (library : Library) (context : Option Context)

/-- A template loads, parses and renders to a page. -/
def Renders (supplied : Option Regions) (id : String) (page : Page) : Prop :=
  ∃ source node, library.load id = .ok source ∧ Markup.parse source = .ok node ∧
    interpret node ⟨context, supplied⟩ = .ok page

/-- The template behind some levels fails at the first step that it does not pass. -/
inductive Fails (levels : List Level) (id : String) : Failure → Prop
  | load {failure : Failure} (hload : library.load id = .error failure) :
    Fails levels id (unloaded levels failure)
  | parse {source : String} {error : Markup.Error} (hload : library.load id = .ok source)
    (hparse : Markup.parse source = .error error) : Fails levels id (.markup error)
  | render {source : String} {node : Markup.Node} {failure : Failure}
    (hload : library.load id = .ok source) (hparse : Markup.parse source = .ok node)
    (hrender : interpret node ⟨context, supply levels⟩ = .error failure) : Fails levels id failure

variable (reference : String)

/-- The levels that a reference leads through. -/
inductive Climbs : List Level → Prop
  | start : Climbs []
  | level {below : List Level} {id : String} {page : Page} (hbelow : Climbs below)
    (hnext : next? library reference below = some (.ok id))
    (hpage : Renders library context (supply below) id page) : Climbs (⟨id, page⟩ :: below)

/-- How a chain ends behind its last level. -/
inductive Ends : List Level → Except Failure Regions → Prop
  /-- The last level has no parent, and its regions are the result. -/
  | complete {level : Level} {below : List Level} (hparent : level.page.parent = none) :
    Ends (level :: below) (.ok level.page.regions)
  /-- The next template is one of the chain. -/
  | cycle {levels : List Level} {id : String}
    (hnext : next? library reference levels = some (.ok id)) (hseen : id ∈ ids levels) :
    Ends levels (.error (.lineage (.cycle (ids levels ++ [id]))))
  /-- The next template is not found. -/
  | unresolved {levels : List Level} {failure : Failure}
    (hnext : next? library reference levels = some (.error failure)) : Ends levels (.error failure)
  /-- The next template is new and has no page. -/
  | failed {levels : List Level} {id : String} {failure : Failure}
    (hnext : next? library reference levels = some (.ok id)) (hnew : id ∉ ids levels)
    (hfails : Fails library context levels id failure) : Ends levels (.error failure)

end

variable {library : Library} {context : Option Context} {reference : String}

/-! ## One level -/

/-- A template has the page that it renders to. -/
theorem page_eq_ok_iff {levels : List Level} {id : String} {page : Page} :
    Chain.page library context id (origin levels) (supply levels) = .ok page ↔
      Renders library context (supply levels) id page := by
  unfold Chain.page Renders
  constructor
  · intro h
    cases hload : library.load id with
    | error failure => simp [hload, bind, Except.bind] at h
    | ok source =>
      cases hparse : Markup.parse source with
      | error error => simp [hload, hparse, bind, Except.bind] at h
      | ok node =>
        refine ⟨source, node, rfl, hparse, ?_⟩
        simpa [hload, hparse, bind, Except.bind] using h
  · rintro ⟨source, node, hload, hparse, hrender⟩
    simp [hload, hparse, hrender, bind, Except.bind]

/-- A template without a page fails at the first step that it does not pass. -/
theorem page_eq_error_iff {levels : List Level} {id : String} {failure : Failure} :
    Chain.page library context id (origin levels) (supply levels) = .error failure ↔
      Fails library context levels id failure := by
  unfold Chain.page
  constructor
  · intro h
    -- Loading, parsing and rendering in turn; the first that fails tells which of the three it is.
    cases hload : library.load id with
    | error found =>
      have hfound : unloaded levels found = failure := by
        unfold unloaded
        cases horigin : origin levels <;>
          simpa [hload, horigin, bind, Except.bind] using h
      exact hfound ▸ .load hload
    | ok source =>
      cases hparse : Markup.parse source with
      | error error =>
        have herror : Failure.markup error = failure := by
          simpa [hload, hparse, bind, Except.bind] using h
        exact herror ▸ .parse hload hparse
      | ok node =>
        refine .render hload hparse ?_
        simpa [hload, hparse, bind, Except.bind] using h
  · intro h
    cases h with
    | load hload =>
      unfold unloaded
      cases horigin : origin levels <;>
        simp [hload, bind, Except.bind]
    | parse hload hparse => simp [hload, hparse, bind, Except.bind]
    | render hload hparse hrender =>
      simp [hload, hparse, hrender, bind, Except.bind]

/-- A template does not both fail and have a page. -/
theorem not_fails_of_renders {levels : List Level} {id : String} {page : Page} {failure : Failure}
    (hpage : Renders library context (supply levels) id page) :
    ¬ Fails library context levels id failure := by
  intro hfails
  rw [← page_eq_ok_iff] at hpage
  rw [← page_eq_error_iff, hpage] at hfails
  cases hfails

/-! ## The account -/

/-- The account that compiling keeps where it has come to the template `id` behind some levels. -/
structure Account (library : Library) (context : Option Context) (reference : String)
    (levels : List Level) (chain : List String) (id : String)
    (extendedBy : Option (String × String)) (supplied : Option Regions) : Prop where
  climbs : Climbs library context reference levels
  next_eq : next? library reference levels = some (.ok id)
  chain_eq : chain = ids levels ++ [id]
  distinct : chain.Nodup
  extendedBy_eq : extendedBy = origin levels
  supplied_eq : supplied = supply levels

namespace Account

variable {levels : List Level} {chain : List String} {id : String}
  {extendedBy : Option (String × String)} {supplied : Option Regions}

/-- The account at the entry of a chain. -/
theorem entry (hentry : library.resolve none reference = .ok id) :
    Account library context reference [] [id] id none none where
  climbs := .start
  next_eq := congrArg some hentry
  chain_eq := rfl
  distinct := by simp
  extendedBy_eq := rfl
  supplied_eq := rfl

/-- The template at hand is not one of the levels. -/
theorem new (account : Account library context reference levels chain id extendedBy supplied) :
    id ∉ ids levels := by
  intro hmem
  have hdistinct := account.distinct
  rw [account.chain_eq, List.nodup_append] at hdistinct
  exact hdistinct.2.2 id hmem id (List.mem_singleton_self id) rfl

/-- A page makes the template at hand the last level. -/
theorem climbs_level
    (account : Account library context reference levels chain id extendedBy supplied)
    {page : Page} (hpage : Chain.page library context id extendedBy supplied = .ok page) :
    Climbs library context reference (⟨id, page⟩ :: levels) := by
  refine .level account.climbs account.next_eq ?_
  rw [account.extendedBy_eq, account.supplied_eq] at hpage
  exact page_eq_ok_iff.1 hpage

/-- The levels with the template at hand repeat no template. -/
theorem distinct_level
    (account : Account library context reference levels chain id extendedBy supplied)
    {page : Page} : (ids (⟨id, page⟩ :: levels)).Nodup := by
  rw [ids, ← account.chain_eq]
  exact account.distinct

/-- Going on with a new parent keeps the account. -/
theorem up (account : Account library context reference levels chain id extendedBy supplied)
    {page : Page} (hpage : Chain.page library context id extendedBy supplied = .ok page)
    {path parent : String} (hpath : page.parent = some path)
    (hparent : library.resolve (some id) path = .ok parent) (hnew : parent ∉ chain) :
    Account library context reference (⟨id, page⟩ :: levels) (chain ++ [parent]) parent
      (some (id, path)) (some page.regions) where
  climbs := account.climbs_level hpage
  next_eq := by simp [next?, hpath, hparent]
  chain_eq := by rw [account.chain_eq, ids]
  distinct := by
    rw [List.nodup_append]
    refine ⟨account.distinct, by simp, ?_⟩
    intro a ha b hb hab
    rw [List.mem_singleton] at hb
    exact hnew (hb ▸ hab ▸ ha)
  extendedBy_eq := by simp [origin, hpath]
  supplied_eq := rfl

end Account

/-! ## The whole chain -/

/-- The template that an event reports as rendered. -/
def rendered? : Event → Option String
  | .compiled id _ => some id
  | _ => none

/-- Climbing on comes to the end of a chain that repeats no template, and notes the templates that
it renders. -/
theorem climb_ends {levels : List Level} {chain : List String} {id : String}
    {extendedBy : Option (String × String)} {supplied : Option Regions}
    (account : Account library context reference levels chain id extendedBy supplied) :
    ∃ all, Climbs library context reference all ∧ (ids all).Nodup ∧
      Ends library context reference all
        (climb library context chain id extendedBy supplied).1 ∧
      ids levels ++ (climb library context chain id extendedBy supplied).2.filterMap rendered? =
        ids all := by
  -- each turn keeps the account, so wherever the loop is left the levels at hand have an end there
  fun_induction climb library context chain id extendedBy supplied generalizing levels with
  | case1 chain id extendedBy supplied failure hpage =>
    have hdistinct := account.distinct
    rw [account.chain_eq, List.nodup_append] at hdistinct
    rw [account.extendedBy_eq, account.supplied_eq, page_eq_error_iff] at hpage
    exact ⟨levels, account.climbs, hdistinct.1, .failed account.next_eq account.new hpage,
      List.append_nil _⟩
  | case2 chain id extendedBy supplied page hpage compiled =>
    rename_i hparent
    exact ⟨⟨id, page⟩ :: levels, account.climbs_level hpage, account.distinct_level,
      .complete hparent, rfl⟩
  | case3 chain id extendedBy supplied page hpage compiled path hpath failure =>
    rename_i hresolve
    have hnext : next? library reference (⟨id, page⟩ :: levels) = some (.error failure) := by
      simp [next?, hpath, hresolve]
    exact ⟨⟨id, page⟩ :: levels, account.climbs_level hpage, account.distinct_level,
      .unresolved hnext, rfl⟩
  | case4 chain id extendedBy supplied page hpage compiled path hpath parent hresolve =>
    rename_i hseen
    have hnext : next? library reference (⟨id, page⟩ :: levels) = some (.ok parent) := by
      simp [next?, hpath, hresolve]
    have hids : chain = ids (⟨id, page⟩ :: levels) := account.chain_eq
    rw [hids] at hseen ⊢
    exact ⟨⟨id, page⟩ :: levels, account.climbs_level hpage, account.distinct_level,
      .cycle hnext hseen, rfl⟩
  | case5 chain id extendedBy supplied page hpage compiled path hpath parent hresolve hnew result
      later hclimb =>
    rename_i ih
    obtain ⟨all, hall, hdistinct, hends, hids⟩ := ih (account.up hpage hpath hresolve hnew)
    rw [hclimb] at hends hids
    refine ⟨all, hall, hdistinct, hends, ?_⟩
    rw [← hids, ids, List.append_assoc]
    rfl

/-- Compiling comes to the end of a chain that repeats no template, and notes the templates that it
renders. -/
theorem compile_ends (library : Library) (context : Option Context) (reference : String) :
    ∃ levels, Climbs library context reference levels ∧ (ids levels).Nodup ∧
      Ends library context reference levels (library.compile reference context).1 ∧
      (library.compile reference context).2.filterMap rendered? = ids levels := by
  unfold Library.compile
  split
  · rename_i failure hentry
    exact ⟨[], .start, List.nodup_nil, .unresolved (congrArg some hentry), rfl⟩
  · rename_i id hentry
    exact climb_ends (.entry hentry)

/-! ## There is only one chain -/

/-- What the levels of a chain stand on is a chain. -/
theorem Climbs.of_append {levels above : List Level}
    (h : Climbs library context reference (above ++ levels)) :
    Climbs library context reference levels := by
  induction above with
  | nil => exact h
  | cons level above ih =>
    cases h with
    | level hbelow => exact ih hbelow

/-- The level behind some levels is determined by them. -/
theorem Climbs.level_unique {a b : Level} {below : List Level}
    (ha : Climbs library context reference (a :: below))
    (hb : Climbs library context reference (b :: below)) : a = b := by
  cases ha with
  | level _ hnext hpage =>
    cases hb with
    | level _ hnext' hpage' =>
      rw [hnext, Option.some.injEq, Except.ok.injEq] at hnext'
      subst hnext'
      rw [← page_eq_ok_iff] at hpage hpage'
      rw [hpage, Except.ok.injEq] at hpage'
      rw [hpage']

/-- A chain that has come to its end does not go on to a new template. -/
theorem Ends.not_climbs_level {level : Level} {below : List Level}
    {result : Except Failure Regions} (hends : Ends library context reference below result)
    (hclimbs : Climbs library context reference (level :: below)) :
    ¬ (ids (level :: below)).Nodup := by
  intro hdistinct
  cases hclimbs with
  | level _ hnext hpage =>
    cases hends with
    | complete hparent => simp [next?, hparent] at hnext
    | cycle hnext' hseen =>
      rw [hnext', Option.some.injEq, Except.ok.injEq] at hnext
      rw [ids, List.nodup_append] at hdistinct
      exact hdistinct.2.2 _ (hnext ▸ hseen) _ (List.mem_singleton_self _) rfl
    | unresolved hnext' => simp [hnext'] at hnext
    | failed hnext' _ hfails =>
      rw [hnext', Option.some.injEq, Except.ok.injEq] at hnext
      exact not_fails_of_renders hpage (hnext ▸ hfails)

/-- A chain that repeats no template is a part of any one that has come to its end. -/
theorem Climbs.part_of_ends {levels all : List Level} {result : Except Failure Regions}
    (hlevels : Climbs library context reference levels) (hdistinct : (ids levels).Nodup)
    (hall : Climbs library context reference all)
    (hends : Ends library context reference all result) : ∃ above, all = above ++ levels := by
  induction hlevels with
  | start => exact ⟨all, (List.append_nil all).symm⟩
  | @level below id page hbelow hnext hpage ih =>
    have hbelow_distinct : (ids below).Nodup := (List.nodup_append.1 hdistinct).1
    obtain ⟨above, habove⟩ := ih hbelow_distinct
    rcases List.eq_nil_or_concat above with rfl | ⟨above, top, rfl⟩
    · rw [List.nil_append] at habove
      exact absurd hdistinct ((habove ▸ hends).not_climbs_level (.level hbelow hnext hpage))
    · -- the level that `all` has behind `below` is determined, so it is the one at hand
      have heq : all = above ++ top :: below := by simp [habove]
      have hwhole : Climbs library context reference (above ++ top :: below) := heq ▸ hall
      have htop : Climbs library context reference (top :: below) := hwhole.of_append
      rw [htop.level_unique (.level hbelow hnext hpage)] at heq
      exact ⟨above, heq⟩

/-- Behind the same levels a chain ends in one way. -/
theorem Ends.result_unique {levels : List Level} {a b : Except Failure Regions}
    (ha : Ends library context reference levels a)
    (hb : Ends library context reference levels b) : a = b := by
  -- How a chain ends is decided by the next template, which both ends agree on.
  cases ha with
  | complete hparent =>
    cases hb with
    | complete => rfl
    | cycle hnext | unresolved hnext | failed hnext => simp [next?, hparent] at hnext
  | cycle hnext hseen =>
    cases hb with
    | complete hparent => simp [next?, hparent] at hnext
    | cycle hnext' =>
      rw [hnext, Option.some.injEq, Except.ok.injEq] at hnext'
      rw [hnext']
    | unresolved hnext' => simp [hnext] at hnext'
    | failed hnext' hnew =>
      rw [hnext, Option.some.injEq, Except.ok.injEq] at hnext'
      exact absurd (hnext' ▸ hseen) hnew
  | unresolved hnext =>
    cases hb with
    | complete hparent => simp [next?, hparent] at hnext
    | cycle hnext' | failed hnext' => simp [hnext] at hnext'
    | unresolved hnext' =>
      rw [hnext, Option.some.injEq, Except.error.injEq] at hnext'
      rw [hnext']
  | failed hnext hnew hfails =>
    cases hb with
    | complete hparent => simp [next?, hparent] at hnext
    | cycle hnext' hseen =>
      rw [hnext, Option.some.injEq, Except.ok.injEq] at hnext'
      exact absurd (hnext' ▸ hseen) hnew
    | unresolved hnext' => simp [hnext] at hnext'
    | failed hnext' _ hfails' =>
      rw [hnext, Option.some.injEq, Except.ok.injEq] at hnext'
      subst hnext'
      rw [← page_eq_error_iff] at hfails hfails'
      rw [hfails, Except.error.injEq] at hfails'
      rw [hfails']

/-- Two chains that repeat no template and have come to their ends have the same result. -/
theorem Ends.unique {levels levels' : List Level} {a b : Except Failure Regions}
    (hlevels : Climbs library context reference levels) (hdistinct : (ids levels).Nodup)
    (ha : Ends library context reference levels a)
    (hlevels' : Climbs library context reference levels') (hdistinct' : (ids levels').Nodup)
    (hb : Ends library context reference levels' b) : a = b := by
  -- each chain is a part of the other
  obtain ⟨above, habove⟩ := hlevels'.part_of_ends hdistinct' hlevels ha
  obtain ⟨above', habove'⟩ := hlevels.part_of_ends hdistinct hlevels' hb
  have hlength := congrArg List.length habove
  have hlength' := congrArg List.length habove'
  rw [List.length_append] at hlength hlength'
  have hnil : above = [] := List.length_eq_zero_iff.1 (by omega)
  rw [hnil, List.nil_append] at habove
  exact ha.result_unique (habove ▸ hb)

/-- Compiling returns the end of the chain that repeats no template. -/
theorem compile_eq_iff {result : Except Failure Regions} :
    (library.compile reference context).1 = result ↔
      ∃ levels, Climbs library context reference levels ∧ (ids levels).Nodup ∧
        Ends library context reference levels result := by
  obtain ⟨levels, hlevels, hdistinct, hends, -⟩ := compile_ends library context reference
  constructor
  · rintro rfl
    exact ⟨levels, hlevels, hdistinct, hends⟩
  · rintro ⟨levels', hlevels', hdistinct', hends'⟩
    exact hends.unique hlevels hdistinct hlevels' hdistinct' hends'

/-- The ids of a chain are ids of the library. -/
theorem Climbs.ids_subset {levels : List Level} (h : Climbs library context reference levels) :
    ids levels ⊆ library.ids := by
  induction h with
  | start => exact List.nil_subset _
  | @level below id page hbelow hnext hpage ih =>
    have hid : id ∈ library.ids := by
      cases below with
      | nil => exact library.mem_ids (Option.some.inj hnext)
      | cons last below =>
        obtain ⟨path, -, hresolve⟩ := Option.map_eq_some_iff.1 hnext
        exact library.mem_ids hresolve
    intro a ha
    rcases List.mem_append.1 ha with ha | ha
    · exact ih ha
    · rw [List.mem_singleton.1 ha]
      exact hid

theorem length_ids (levels : List Level) : (ids levels).length = levels.length := by
  induction levels with
  | nil => rfl
  | cons level below ih =>
    rw [ids, List.length_append, ih]
    rfl

/-! ## Chains of a shelf and of a disk -/

/-- The failure is a cycle. -/
def IsCycle (failure : Failure) : Prop := ∃ chain, failure = .lineage (.cycle chain)

/-- Rendering does not find cycles. -/
theorem not_isCycle_of_ofRendering {failure : Failure} (h : failure.OfRendering) :
    ¬ IsCycle failure := by
  rintro ⟨chain, rfl⟩
  cases h

/-- A library that reports no cycle itself: following a chain is the only way to find one. -/
structure Candid (library : Library) : Prop where
  resolve {child : Option String} {reference : String} {failure : Failure} :
    library.resolve child reference = .error failure → ¬ IsCycle failure
  load {id : String} {failure : Failure} :
    library.load id = .error failure → ¬ IsCycle failure

/-- A shelf does not report cycles. -/
theorem candid_shelf (shelf : Shelf) : Candid shelf.library where
  resolve {child reference failure} h := by
    rintro ⟨chain, rfl⟩
    change shelf.resolve child reference = _ at h
    unfold Shelf.resolve at h
    split at h
    · cases h
    · split at h <;> cases h
  load {id failure} h := by
    rintro ⟨chain, rfl⟩
    change shelf.load id = _ at h
    unfold Shelf.load at h
    split at h <;> cases h

/-- A disk does not report cycles. -/
theorem candid_disk (disk : Disk) : Candid disk.library where
  resolve {child reference failure} h := by
    rintro ⟨chain, rfl⟩
    change disk.resolve child reference = _ at h
    unfold Disk.resolve at h
    split at h <;> cases h
  load {id failure} h := by
    rintro ⟨chain, rfl⟩
    change disk.load id = _ at h
    unfold Disk.load at h
    cases hread : disk.readText? id with
    | ok text => simp [hread] at h
    | error fault => simp [hread] at h

/-- In a candid library the template behind some levels does not fail with a cycle. -/
theorem Fails.not_isCycle (hcandid : Candid library) {levels : List Level} {id : String}
    {failure : Failure} (h : Fails library context levels id failure) : ¬ IsCycle failure := by
  cases h with
  | load hload =>
    unfold unloaded
    split
    · exact hcandid.load hload
    · rintro ⟨chain, h⟩
      cases h
  | parse =>
    rintro ⟨chain, h⟩
    cases h
  | render _ _ hrender => exact not_isCycle_of_ofRendering (ofRendering_of_interpret hrender)

/-- The first step that a chain does not pass: the next template is not found, or it is new and
has no page. -/
def Stops (library : Library) (context : Option Context) (reference : String)
    (levels : List Level) (failure : Failure) : Prop :=
  next? library reference levels = some (.error failure) ∨
    ∃ id, next? library reference levels = some (.ok id) ∧ id ∉ ids levels ∧
      Fails library context levels id failure

/-- A chain that stops at a level does not stop for a cycle. -/
theorem Stops.not_isCycle (hcandid : Candid library) {levels : List Level} {failure : Failure}
    (h : Stops library context reference levels failure) : ¬ IsCycle failure := by
  rcases h with hnext | ⟨id, -, -, hfails⟩
  · cases levels with
    | nil => exact hcandid.resolve (Option.some.inj hnext)
    | cons last below =>
      obtain ⟨path, -, hresolve⟩ := Option.map_eq_some_iff.1 hnext
      exact hcandid.resolve hresolve
  · exact hfails.not_isCycle hcandid

/-- What compiling from a library returns is what the chains of the library say. -/
structure FollowsChain (library : Library) : Prop where
  /-- Regions come from a last level without a parent, reached without a repeated template. -/
  ok_iff (reference : String) (context : Option Context) (regions : Regions) :
    (library.compile reference context).1 = .ok regions ↔
      ∃ level below, Climbs library context reference (level :: below) ∧
        (ids (level :: below)).Nodup ∧ level.page.parent = none ∧ level.page.regions = regions
  /-- A cycle is a chain of distinct templates, all rendered, and one of them behind the last. -/
  cycle_iff (reference : String) (context : Option Context) (chain : List String) :
    (library.compile reference context).1 = .error (.lineage (.cycle chain)) ↔
      ∃ levels id, Climbs library context reference levels ∧ (ids levels).Nodup ∧
        next? library reference levels = some (.ok id) ∧ id ∈ ids levels ∧
        chain = ids levels ++ [id]
  /-- Any other failure is that of the first step that the chain does not pass. -/
  error_iff (reference : String) (context : Option Context) (failure : Failure)
    (hother : ¬ IsCycle failure) :
    (library.compile reference context).1 = .error failure ↔
      ∃ levels, Climbs library context reference levels ∧ (ids levels).Nodup ∧
        Stops library context reference levels failure
  /-- Nothing but the levels of a chain is rendered, each once, and so no more than the library
  holds. -/
  rendered_once (reference : String) (context : Option Context) :
    ∃ levels, Climbs library context reference levels ∧
      (library.compile reference context).2.filterMap rendered? = ids levels ∧
      (ids levels).Nodup ∧ levels.length ≤ library.ids.length

/-- Compiling follows the chain in every library that reports no cycles itself. -/
theorem followsChain_of_candid (hcandid : Candid library) : FollowsChain library where
  ok_iff reference context regions := by
    rw [compile_eq_iff]
    constructor
    · rintro ⟨levels, hlevels, hdistinct, hends⟩
      cases hends with
      | @complete level below hparent => exact ⟨level, below, hlevels, hdistinct, hparent, rfl⟩
    · rintro ⟨level, below, hlevels, hdistinct, hparent, rfl⟩
      exact ⟨_, hlevels, hdistinct, .complete hparent⟩
  cycle_iff reference context chain := by
    rw [compile_eq_iff]
    constructor
    · rintro ⟨levels, hlevels, hdistinct, hends⟩
      -- Only the chain itself comes to a cycle, as the library does not report one.
      have hcycle : IsCycle (.lineage (.cycle chain)) := ⟨chain, rfl⟩
      cases hends with
      | cycle hnext hseen => exact ⟨levels, _, hlevels, hdistinct, hnext, hseen, rfl⟩
      | unresolved hnext =>
        have hstops : Stops library context reference levels _ := .inl hnext
        exact absurd hcycle (hstops.not_isCycle hcandid)
      | failed hnext hnew hfails => exact absurd hcycle (hfails.not_isCycle hcandid)
    · rintro ⟨levels, id, hlevels, hdistinct, hnext, hseen, rfl⟩
      exact ⟨levels, hlevels, hdistinct, .cycle hnext hseen⟩
  error_iff reference context failure hother := by
    rw [compile_eq_iff]
    constructor
    · rintro ⟨levels, hlevels, hdistinct, hends⟩
      refine ⟨levels, hlevels, hdistinct, ?_⟩
      cases hends with
      | cycle => exact absurd ⟨_, rfl⟩ hother
      | unresolved hnext => exact .inl hnext
      | failed hnext hnew hfails => exact .inr ⟨_, hnext, hnew, hfails⟩
    · rintro ⟨levels, hlevels, hdistinct, hnext | ⟨id, hnext, hnew, hfails⟩⟩
      · exact ⟨levels, hlevels, hdistinct, .unresolved hnext⟩
      · exact ⟨levels, hlevels, hdistinct, .failed hnext hnew hfails⟩
  rendered_once reference context := by
    obtain ⟨levels, hlevels, hdistinct, -, hrendered⟩ := compile_ends library context reference
    refine ⟨levels, hlevels, hrendered, hdistinct, ?_⟩
    rw [← length_ids]
    exact hdistinct.length_le_of_subset hlevels.ids_subset

/-- Compiling from a shelf or from a disk follows the chain that a reference leads through. -/
theorem shelf_and_disk_follow_chain :
    (∀ shelf : Shelf, FollowsChain shelf.library) ∧ ∀ disk : Disk, FollowsChain disk.library :=
  ⟨fun shelf => followsChain_of_candid (candid_shelf shelf),
    fun disk => followsChain_of_candid (candid_disk disk)⟩

end Chain

end Stencil
