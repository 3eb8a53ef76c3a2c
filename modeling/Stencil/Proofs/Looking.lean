import Stencil.Proofs.Ascent
import Stencil.Proofs.Saving

/-!
# What compiling looks at

Compiling a template that lies on a disk follows the paths of the templates of its chain, and looks
at certain locations on the way: `Reads`. What lies elsewhere does not matter (`compile_congr`).
-/

namespace Stencil

namespace Disk

variable {disk : Disk}

/-- The locations that are looked at where a path is followed. -/
def Looks (disk : Disk) (path : String) (location : Location) : Prop :=
  disk.Visits (disk.origin path) (partsOf path.toList) location

/-- Where there are no links only locations on the way are looked at. -/
theorem prefix_of_visits {pos : Position} {parts : List String} {location : Location}
    (hplain : disk.IsPlain pos.location) (hnames : ∀ name ∈ leading parts, IsFileName name)
    (h : disk.Visits pos parts location) :
    ∃ front, front <+: leading parts ∧ location = pos.location ++ front := by
  induction h with
  | here pos parts => exact ⟨[], List.nil_prefix, (List.append_nil _).symm⟩
  | @entry pos part parts hstart hname hshort =>
    rw [leading_of_not_idle hname.1]
    exact ⟨[part], (List.prefix_cons_inj part).2 List.nil_prefix, rfl⟩
  | @later pos next part ahead parts location hpart _ ih =>
    rcases hpart with
      ⟨-, hidle⟩ | hstart | ⟨-, hname, -, -⟩ | @⟨_, target, links, -, -, -, hentry, -⟩
    · rw [leading_idle hidle] at hnames ⊢
      exact ih hplain hnames
    · have hup : ".." ∈ leading (".." :: parts) := by
        rw [leading_of_not_idle (by decide)]
        exact List.mem_cons_self
      exact absurd rfl (hnames _ hup).1.2
    · rw [leading_of_not_idle hname.1] at hnames ⊢
      obtain ⟨front, hfront, heq⟩ := ih (hplain.below [part]) fun name hname =>
        hnames name (List.mem_cons_of_mem _ hname)
      refine ⟨part :: front, (List.prefix_cons_inj part).2 hfront, ?_⟩
      rw [heq, List.append_assoc]
      rfl
    · exact absurd hentry (hplain [part] target)

section

variable {other : Disk} {path : String} (hworking : other.working = disk.working)
  (h : ∀ location, disk.Looks path location → other.get? location = disk.get? location)

include hworking in
/-- Paths start at the same places. -/
theorem origin_congr : other.origin path = disk.origin path := by
  unfold origin
  rw [hworking]

include hworking h in
/-- A path leads to the same on a disk that does not differ where it looks. -/
theorem reach_origin_congr :
    other.reach (other.origin path) (partsOf path.toList) =
        disk.reach (disk.origin path) (partsOf path.toList) ∧
      ∀ last, disk.reach (disk.origin path) (partsOf path.toList) = .ok last →
        other.get? last.location = disk.get? last.location := by
  rw [origin_congr hworking]
  exact ⟨reach_congr h, fun last hlast => h _ (visits_of_reach hlast)⟩

include hworking h in
/-- Nothing else is looked at on a disk that does not differ where following a path looks. -/
theorem Looks.of_congr {location : Location} (hlooks : other.Looks path location) :
    disk.Looks path location := by
  unfold Looks at hlooks
  rw [origin_congr hworking] at hlooks
  exact Visits.of_congr h hlooks

include hworking h in
/-- The path has the same canonical form. -/
theorem canonical?_congr : other.canonical? path = disk.canonical? path := by
  obtain ⟨hreach, hlast⟩ := reach_origin_congr hworking h
  unfold canonical? startOf?
  split
  · rfl
  · split
    · rfl
    · change (other.follow false maxLinks (other.origin path).location _ >>= _) =
        disk.follow false maxLinks (disk.origin path).location _ >>= _
      rw [follow_eq_reach, follow_eq_reach]
      change ((other.reach (other.origin path) _).map _ >>= _) =
        (disk.reach (disk.origin path) _).map _ >>= _
      rw [hreach]
      cases hfound : disk.reach (disk.origin path) (partsOf path.toList) with
      | error fault => rfl
      | ok last =>
        change (if _ then _ else if (other.get? last.location).isSome then _ else _) =
          if _ then _ else if (disk.get? last.location).isSome then _ else _
        rw [hlast last hfound]

include hworking h in
/-- The same text is read. -/
theorem readText?_congr : other.readText? path = disk.readText? path := by
  obtain ⟨hreach, hlast⟩ := reach_origin_congr hworking h
  unfold readText? read?
  by_cases husable : IsUsable path
  · rw [locate?_eq_reach husable, locate?_eq_reach husable, hreach]
    cases hfound : disk.reach (disk.origin path) (partsOf path.toList) with
    | error fault => rfl
    | ok last =>
      rw [Except.map, ok_bind, ok_bind, hlast last hfound]
  · rw [locate?_of_not_isUsable husable, locate?_of_not_isUsable husable]
    rfl

end

end Disk

namespace Chain

open Disk

/-- The path of the template behind some levels: at first that of the reference, and then that of
the parent that the last level refers to, if it refers to one. -/
def nextPath? (reference : String) : List Level → Option String
  | [] => some (candidate none reference)
  | level :: _ => level.page.parent.map (candidate (some level.id))

/-- The locations that are looked at while a template is compiled. -/
inductive Reads (disk : Disk) (context : Option Context) (reference : String) : Location → Prop
  /-- To find the template behind some levels. -/
  | find {levels : List Level} {path : String} {location : Location}
    (hclimbs : Climbs disk.library context reference levels) (hdistinct : (ids levels).Nodup)
    (hpath : nextPath? reference levels = some path) (hlooks : disk.Looks path location) :
    Reads disk context reference location
  /-- To load it. -/
  | load {levels : List Level} {id : String} {location : Location}
    (hclimbs : Climbs disk.library context reference levels)
    (hnext : next? disk.library reference levels = some (.ok id))
    (hdistinct : (ids levels ++ [id]).Nodup) (hlooks : disk.Looks id location) :
    Reads disk context reference location

/-- The first template of a chain on a disk. -/
theorem climbs_first {disk : Disk} {context : Option Context} {path source : String}
    {location : Location} {node : Markup.Node} {page : Page}
    (hcanonical : disk.canonical? path = .ok location)
    (hload : disk.load (pathOf location) = .ok source) (hparse : Markup.parse source = .ok node)
    (hrender : interpret node ⟨context, none⟩ = .ok page) :
    Climbs disk.library context path [⟨pathOf location, page⟩] := by
  have hresolve : disk.resolve none path = .ok (pathOf location) := by
    unfold resolve
    rw [show candidate none path = path from rfl, hcanonical]
  exact .level .start (congrArg some hresolve) ⟨source, node, hload, hparse, hrender⟩

/-- A template without a parent looks at no more than its own paths do. -/
theorem Reads.looks_of_complete {disk : Disk} {context : Option Context} {reference : String}
    {level : Level} (hlevel : Climbs disk.library context reference [level])
    (hparent : level.page.parent = none) {location : Location}
    (h : Reads disk context reference location) :
    disk.Looks reference location ∨ disk.Looks level.id location := by
  have hends : Ends disk.library context reference [level] (.ok level.page.regions) :=
    .complete hparent
  have hpart : ∀ {levels : List Level}, Climbs disk.library context reference levels →
      (ids levels).Nodup → levels = [] ∨ levels = [level] := by
    intro levels hclimbs hdistinct
    obtain ⟨above, habove⟩ := hclimbs.part_of_ends hdistinct hlevel hends
    rcases List.singleton_eq_append_iff.1 habove with ⟨-, h⟩ | ⟨-, h⟩
    · exact .inr h
    · exact .inl h
  rcases h with ⟨hclimbs, hdistinct, hpath, hlooks⟩ | ⟨hclimbs, hnext, hdistinct, hlooks⟩
  · rcases hpart hclimbs hdistinct with rfl | rfl
    · cases hpath
      exact .inl hlooks
    · simp [nextPath?, hparent] at hpath
  · rcases hpart hclimbs (List.nodup_append.1 hdistinct).1 with rfl | rfl
    · cases hlevel with
      | level hbelow hfirst hpage =>
        rw [hfirst, Option.some.injEq, Except.ok.injEq] at hnext
        exact .inr (hnext ▸ hlooks)
    · simp [next?, hparent] at hnext

section

variable {disk other : Disk} {context : Option Context} {reference : String}
  (hworking : other.working = disk.working)
  (h : ∀ location, Reads disk context reference location →
    other.get? location = disk.get? location)

include hworking h in
/-- The chain goes on with the same template. -/
theorem next?_congr {levels : List Level}
    (hclimbs : Climbs disk.library context reference levels) (hdistinct : (ids levels).Nodup) :
    next? other.library reference levels = next? disk.library reference levels := by
  have hresolve : ∀ child path, nextPath? reference levels = some (candidate child path) →
      other.resolve child path = disk.resolve child path := by
    intro child path hpath
    unfold resolve
    rw [canonical?_congr hworking fun location hlooks =>
      h location (.find hclimbs hdistinct hpath hlooks)]
  rcases levels with _ | ⟨level, below⟩
  · exact congrArg some (hresolve none reference rfl)
  · change level.page.parent.map (other.resolve (some level.id)) =
      level.page.parent.map (disk.resolve (some level.id))
    cases hparent : level.page.parent with
    | none => rfl
    | some path =>
      exact congrArg some (hresolve (some level.id) path (by simp [nextPath?, hparent]))

include hworking h in
/-- The same source is loaded. -/
theorem load_congr {levels : List Level} {id : String}
    (hclimbs : Climbs disk.library context reference levels)
    (hnext : next? disk.library reference levels = some (.ok id))
    (hdistinct : (ids levels ++ [id]).Nodup) : other.library.load id = disk.library.load id := by
  change other.load id = disk.load id
  unfold Disk.load
  rw [readText?_congr hworking fun location hlooks =>
    h location (.load hclimbs hnext hdistinct hlooks)]

include hworking h in
/-- A chain is one on every disk that does not differ where compiling looks. -/
theorem climbs_congr {levels : List Level}
    (hclimbs : Climbs disk.library context reference levels) (hdistinct : (ids levels).Nodup) :
    Climbs other.library context reference levels := by
  induction hclimbs with
  | start => exact .start
  | @level below id page hbelow hnext hpage ih =>
    have hfront := (List.nodup_append.1 hdistinct).1
    obtain ⟨source, node, hload, hparse, hrender⟩ := hpage
    refine .level (ih hfront) ?_ ⟨source, node, ?_, hparse, hrender⟩
    · rw [next?_congr hworking h hbelow hfront, hnext]
    · rw [load_congr hworking h hbelow hnext hdistinct, hload]

include hworking h in
/-- On such a disk there are no other chains either. -/
theorem Climbs.of_congr {levels : List Level}
    (hclimbs : Climbs other.library context reference levels) (hdistinct : (ids levels).Nodup) :
    Climbs disk.library context reference levels := by
  induction hclimbs with
  | start => exact .start
  | @level below id page hbelow hnext hpage ih =>
    have hfront := (List.nodup_append.1 hdistinct).1
    obtain ⟨source, node, hload, hparse, hrender⟩ := hpage
    rw [next?_congr hworking h (ih hfront) hfront] at hnext
    rw [load_congr hworking h (ih hfront) hnext hdistinct] at hload
    exact .level (ih hfront) hnext ⟨source, node, hload, hparse, hrender⟩

include hworking h in
/-- Compiling looks at no other locations on a disk that does not differ where it looks. -/
theorem Reads.of_congr {location : Location}
    (hreads : Reads other context reference location) :
    Reads disk context reference location := by
  rcases hreads with ⟨hclimbs, hdistinct, hpath, hlooks⟩ | ⟨hclimbs, hnext, hdistinct, hlooks⟩
  · have hclimbs' := hclimbs.of_congr hworking h hdistinct
    refine .find hclimbs' hdistinct hpath (hlooks.of_congr hworking fun location hlooks => ?_)
    exact h location (.find hclimbs' hdistinct hpath hlooks)
  · have hfront := (List.nodup_append.1 hdistinct).1
    have hclimbs' := hclimbs.of_congr hworking h hfront
    rw [next?_congr hworking h hclimbs' hfront] at hnext
    refine .load hclimbs' hnext hdistinct (hlooks.of_congr hworking fun location hlooks => ?_)
    exact h location (.load hclimbs' hnext hdistinct hlooks)

include hworking h in
/-- The chain ends alike. -/
theorem ends_congr {levels : List Level} {result : Except Failure Regions}
    (hclimbs : Climbs disk.library context reference levels) (hdistinct : (ids levels).Nodup)
    (hends : Ends disk.library context reference levels result) :
    Ends other.library context reference levels result := by
  have hsame := next?_congr hworking h hclimbs hdistinct
  rcases hends with hparent | ⟨hnext, hseen⟩ | hnext | @⟨_, id, failure, hnext, hnew, hfails⟩
  · exact .complete hparent
  · exact .cycle (hsame.trans hnext) hseen
  · exact .unresolved (hsame.trans hnext)
  · have hload := load_congr hworking h hclimbs hnext
      (List.nodup_append.2 ⟨hdistinct, by simp, by
        intro a ha b hb hab
        rw [List.mem_singleton] at hb
        exact hnew (hb ▸ hab ▸ ha)⟩)
    refine .failed (hsame.trans hnext) hnew ?_
    rcases hfails with hfound | ⟨hfound, hparse⟩ | ⟨hfound, hparse, hrender⟩
    · exact .load (hload.trans hfound)
    · exact .parse (hload.trans hfound) hparse
    · exact .render (hload.trans hfound) hparse hrender

include hworking h in
/-- Compiling returns the same on every disk that does not differ where it looks. -/
theorem compile_congr : (other.library.compile reference context).1 =
    (disk.library.compile reference context).1 := by
  obtain ⟨levels, hclimbs, hdistinct, hends, -⟩ := compile_ends disk.library context reference
  exact compile_eq_iff.2 ⟨levels, climbs_congr hworking h hclimbs hdistinct, hdistinct,
    ends_congr hworking h hclimbs hdistinct hends⟩

end

end Chain

end Stencil
