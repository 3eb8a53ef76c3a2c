import Mathlib.Data.List.Basic
import Stencil.Proofs.Ascent

/-!
# Adding templates

A template comes to a shelf under a free name only, so a shelf keeps what it holds: after any calls
to add templates, each name that it held still has its first source (`Shelf.within_afterAll`). A
chain of templates that are all there is then the same chain as before (`Climbs.within`), and it
ends alike, unless it ended for want of a template (`Ends.within`).

Main statement: `compile_afterAll`.
-/

namespace Stencil

/-! ## What a shelf keeps -/

namespace Shelf

/-- The shelf after a call to add a template, given by its name and source. A call that is rejected
leaves the shelf as it was. -/
def after (shelf : Shelf) (call : String × String) : Shelf :=
  match shelf.add call.1 call.2 with
  | .ok more => more
  | .error _ => shelf

/-- The shelf after calls to add templates, one after the other. -/
def afterAll (shelf : Shelf) (calls : List (String × String)) : Shelf := calls.foldl after shelf

/-- The templates of one shelf are on another, with the same sources. -/
def Within (shelf larger : Shelf) : Prop :=
  ∀ name source, shelf.sources.get? name = some source → larger.sources.get? name = some source

theorem Within.refl (shelf : Shelf) : shelf.Within shelf := fun _ _ h => h

theorem Within.trans {shelf larger largest : Shelf} (h : shelf.Within larger)
    (h' : larger.Within largest) : shelf.Within largest :=
  fun name source hsource => h' name source (h name source hsource)

/-- A template that is added replaces none. -/
theorem within_of_add {shelf more : Shelf} {name source : String}
    (h : shelf.add name source = .ok more) : shelf.Within more := by
  intro other found hfound
  unfold add at h
  split at h
  · cases h
  · rename_i hfree
    cases h
    -- the new name was free, so it is none of those that the shelf held
    have hne : other ≠ name := by
      rintro rfl
      rw [Table.contains, hfound] at hfree
      exact hfree rfl
    rw [Table.get?_insert_of_ne _ hne]
    exact hfound

/-- One call keeps what was there. -/
theorem within_after (shelf : Shelf) (call : String × String) :
    shelf.Within (shelf.after call) := by
  unfold after
  split
  · rename_i hadd
    exact within_of_add hadd
  · exact .refl shelf

/-- So do any calls, one after the other. -/
theorem within_afterAll (shelf : Shelf) (calls : List (String × String)) :
    shelf.Within (shelf.afterAll calls) := by
  induction calls generalizing shelf with
  | nil => exact .refl shelf
  | cons call calls ih => exact (shelf.within_after call).trans (ih (shelf.after call))

/-- A call that is refused leaves the shelf as it is. -/
theorem after_of_rejected {shelf : Shelf} {name source : String} {failure : Failure}
    (h : shelf.add name source = .error failure) : shelf.after (name, source) = shelf := by
  simp only [after, h]

end Shelf

/-! ## For want of a template -/

/-- The failures that say that a template is not there. -/
inductive Failure.OfAbsence : Failure → Prop
  | missingTemplate (name : String) : OfAbsence (.missingTemplate name)
  | unresolvable (reference child reason : String) :
    OfAbsence (.lineage (.unresolvable reference child reason))

/-- A shelf only fails to resolve a reference for want of a template. -/
theorem Shelf.ofAbsence_of_resolve {shelf : Shelf} {child : Option String} {reference : String}
    {failure : Failure} (h : shelf.library.resolve child reference = .error failure) :
    failure.OfAbsence := by
  change shelf.resolve child reference = _ at h
  unfold resolve at h
  split at h
  · cases h
  · split at h
    · cases h
      exact .unresolvable _ _ _
    · cases h
      exact .missingTemplate _

/-- A shelf fails to load a template only for want of it. -/
theorem Shelf.ofAbsence_of_load {shelf : Shelf} {id : String} {failure : Failure}
    (h : shelf.library.load id = .error failure) : failure.OfAbsence := by
  change shelf.load id = _ at h
  unfold load at h
  split at h
  · cases h
  · cases h
    exact .missingTemplate _

/-! ## Chains -/

/-- What one library finds another one finds as well. -/
structure Library.Within (library larger : Library) : Prop where
  resolve {child : Option String} {reference id : String} :
    library.resolve child reference = .ok id → larger.resolve child reference = .ok id
  load {id source : String} : library.load id = .ok source → larger.load id = .ok source

/-- As libraries, a shelf and one that holds more find the same templates where the first finds any.
-/
theorem Shelf.Within.library {shelf larger : Shelf} (h : shelf.Within larger) :
    shelf.library.Within larger.library where
  resolve {child reference id} hresolve := by
    obtain ⟨hthere, rfl⟩ := Shelf.resolve_eq_ok.1 hresolve
    obtain ⟨source, hsource⟩ := Option.isSome_iff_exists.1 hthere
    exact Shelf.resolve_eq_ok.2 ⟨Option.isSome_iff_exists.2 ⟨source, h _ _ hsource⟩, rfl⟩
  load {id source} hload := Shelf.load_eq_ok.2 (h _ _ (Shelf.load_eq_ok.1 hload))

namespace Chain

variable {library larger : Library} {context : Option Context} {reference : String}

/-- The template behind some levels stays the same once it is found. -/
theorem next?_within (h : library.Within larger) {levels : List Level} {id : String}
    (hnext : next? library reference levels = some (.ok id)) :
    next? larger reference levels = some (.ok id) := by
  cases levels with
  | nil => exact congrArg some (h.resolve (Option.some.inj hnext))
  | cons level below =>
    obtain ⟨path, hpath, hresolve⟩ := Option.map_eq_some_iff.1 hnext
    exact Option.map_eq_some_iff.2 ⟨path, hpath, h.resolve hresolve⟩

/-- A chain is one in every larger library. -/
theorem Climbs.within (h : library.Within larger) {levels : List Level}
    (hclimbs : Climbs library context reference levels) :
    Climbs larger context reference levels := by
  induction hclimbs with
  | start => exact .start
  | level _ hnext hpage ih =>
    obtain ⟨source, node, hload, hparse, hrender⟩ := hpage
    exact .level ih (next?_within h hnext) ⟨source, node, h.load hload, hparse, hrender⟩

variable {shelf : Shelf}

/-- The template behind some levels is only not found on a shelf because it is not there. -/
theorem ofAbsence_of_next? {levels : List Level} {failure : Failure}
    (hnext : next? shelf.library reference levels = some (.error failure)) :
    failure.OfAbsence := by
  cases levels with
  | nil => exact Shelf.ofAbsence_of_resolve (Option.some.inj hnext)
  | cons level below =>
    obtain ⟨path, -, hresolve⟩ := Option.map_eq_some_iff.1 hnext
    exact Shelf.ofAbsence_of_resolve hresolve

/-- A template that is not loaded is not there, also where this is reported of its child. -/
theorem ofAbsence_of_unloaded (levels : List Level) {id : String} {failure : Failure}
    (hload : shelf.library.load id = .error failure) : (unloaded levels failure).OfAbsence := by
  unfold unloaded
  split
  · exact Shelf.ofAbsence_of_load hload
  · exact .unresolvable _ _ _

/-- A chain that does not end for want of a template ends alike on every larger shelf. -/
theorem Ends.within (h : shelf.library.Within larger) {levels : List Level}
    {result : Except Failure Regions} (hends : Ends shelf.library context reference levels result)
    (hthere : ∀ failure, result = .error failure → ¬ failure.OfAbsence) :
    Ends larger context reference levels result := by
  cases hends with
  -- the ends for want of a template are those that more templates could change
  | complete hparent => exact .complete hparent
  | cycle hnext hseen => exact .cycle (next?_within h hnext) hseen
  | unresolved hnext => exact absurd (ofAbsence_of_next? hnext) (hthere _ rfl)
  | failed hnext hnew hfails =>
    refine .failed (next?_within h hnext) hnew ?_
    cases hfails with
    | load hload => exact absurd (ofAbsence_of_unloaded levels hload) (hthere _ rfl)
    | parse hload hparse => exact .parse (h.load hload) hparse
    | render hload hparse hrender => exact .render (h.load hload) hparse hrender

/-- A page comes out the same with more on the shelf, unless a template was missing. -/
theorem compile_within (h : shelf.library.Within larger)
    (hthere : ∀ failure, (shelf.library.compile reference context).1 = .error failure →
      ¬ failure.OfAbsence) :
    (larger.compile reference context).1 = (shelf.library.compile reference context).1 := by
  obtain ⟨levels, hclimbs, hdistinct, hends, -⟩ := compile_ends shelf.library context reference
  exact compile_eq_iff.2 ⟨levels, hclimbs.within h, hdistinct, hends.within h hthere⟩

end Chain

/-- Adding templates changes nothing that was settled. What compiling returned, regions or a failure
other than for want of a template, it returns after all further calls to add templates, whatever
their names and sources and whether or not they are accepted. A call that is rejected changes no
answer: no id, no source, and no result of compiling. -/
theorem compile_afterAll (shelf : Shelf) :
    (∀ reference context, (∀ failure, (shelf.library.compile reference context).1 = .error failure →
        ¬ failure.OfAbsence) →
      ∀ calls, ((shelf.afterAll calls).library.compile reference context).1
        = (shelf.library.compile reference context).1) ∧
    ∀ name source failure, shelf.add name source = .error failure →
      (∀ child reference, (shelf.after (name, source)).library.resolve child reference
        = shelf.library.resolve child reference) ∧
      (∀ id, (shelf.after (name, source)).library.load id = shelf.library.load id) ∧
      ∀ reference context, (shelf.after (name, source)).library.compile reference context
        = shelf.library.compile reference context := by
  constructor
  · intro reference context hthere calls
    exact Chain.compile_within (shelf.within_afterAll calls).library hthere
  · intro name source failure hrejected
    rw [Shelf.after_of_rejected hrejected]
    exact ⟨fun _ _ => rfl, fun _ => rfl, fun _ _ => rfl⟩

/-- A page with its parent, and a template that is its own parent. -/
def pageAndRing : Shelf :=
  ⟨(((∅ : Table String).insert "base" "A").insert "page" "\x7b% extends base %\x7d").insert "ring"
    "\x7b% extends ring %\x7d"⟩

/-- The page and the cycle stay the same behind a call that is accepted and one that is not. -/
theorem compile_afterAll_pageAndRing :
    let calls := [("extra", "B"), ("base", "C")]
    ((∀ failure, (pageAndRing.library.compile "page" none).1 = .error failure →
        ¬ failure.OfAbsence) ∧
      ((pageAndRing.afterAll calls).library.compile "page" none).1
        = (pageAndRing.library.compile "page" none).1) ∧
    ((∀ failure, (pageAndRing.library.compile "ring" none).1 = .error failure →
        ¬ failure.OfAbsence) ∧
      ((pageAndRing.afterAll calls).library.compile "ring" none).1
        = (pageAndRing.library.compile "ring" none).1) ∧
    pageAndRing.add "base" "C" = .error (.templateExists "base") ∧
      (pageAndRing.after ("base", "C")).library.compile "page" none
        = pageAndRing.library.compile "page" none := by
  have hpage : (pageAndRing.library.compile "page" none).1
      = .ok ((∅ : Regions).insert rootName "A") := by decide +kernel
  have hring : (pageAndRing.library.compile "ring" none).1
      = .error (.lineage (.cycle ["ring", "ring"])) := by decide +kernel
  have hrejected : pageAndRing.add "base" "C" = .error (.templateExists "base") := by decide +kernel
  have hpageThere : ∀ failure, (pageAndRing.library.compile "page" none).1 = .error failure →
      ¬ failure.OfAbsence := by
    intro failure h
    cases hpage.symm.trans h
  have hringThere : ∀ failure, (pageAndRing.library.compile "ring" none).1 = .error failure →
      ¬ failure.OfAbsence := by
    intro failure h
    cases hring.symm.trans h
    rintro ⟨⟩
  obtain ⟨hcompile, hsame⟩ := compile_afterAll pageAndRing
  exact ⟨⟨hpageThere, hcompile "page" none hpageThere _⟩,
    ⟨hringThere, hcompile "ring" none hringThere _⟩, hrejected,
    (hsame "base" "C" _ hrejected).2.2 "page" none⟩

end Stencil
