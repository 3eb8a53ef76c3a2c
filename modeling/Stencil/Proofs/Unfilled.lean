import Stencil.Proofs.Strays

/-!
# Insertion points that are left unfilled

Where a child has supplied regions, but not that of an insertion point, the body of the point goes
to the region of its name and nothing goes to the region where it stands. To see to this, rendering
compares the name of a point with the region where it stands, and skips the body if they are the
same. It compares no names further inside: if rendering the body comes to another unfilled point
that has the name of the region where the first one stands, the body of that one goes there
(`text_of_inner`). There is no other way for the text of that region to change
(`exists_inner_of_text_ne`), and this one needs an insertion point of that name inside the body
(`text_of_unfilled`).

Rendering a node is carrying out its writes, so this is shown for writes: those that add nothing to
a region leave its text as it is.
-/

namespace Stencil

/-- The text of a region; it is empty where there is no such region. -/
def Page.text (page : Page) (region : String) : String := (page.regions.get? region).getD ""

/-- Appending adds to the text of one region. -/
theorem Page.text_append (page : Page) (key text region : String) :
    (page.append key text).text region = page.text region ++ if region = key then text else "" := by
  unfold Page.text
  rw [Page.get?_append]
  split
  · cases page.regions.get? region <;> simp [joined]
  · simp [joined]

@[simp] theorem Page.text_ensure (page : Page) (key region : String) :
    (page.ensure key).text region = page.text region := by
  rw [Page.ensure_eq_append, Page.text_append, ite_self, String.append_empty]

@[simp] theorem Page.text_adopt (page : Page) (reference region : String) :
    (page.adopt reference).page.text region = page.text region := by
  unfold Page.adopt
  split
  · rfl
  · split <;> rfl

/-! ## Writes that add nothing to a region -/

/-- The region that a write adds text to, if there is one. -/
def Write.target? : Write → Option String
  | .append region _ | .copy region _ => some region
  | .ensure _ | .adopt _ | .fail _ => none

/-- A write changes the text of its target only. -/
theorem text_apply (supplied : Regions) {write : Write} {region : String} (page : Page)
    (h : write.target? ≠ some region) :
    (write.apply supplied page).page.text region = page.text region := by
  cases write with
  | ensure key => exact Page.text_ensure page key region
  | append key text | copy key name =>
    have hne : region ≠ key := fun heq => h (heq ▸ rfl)
    rw [Write.apply, Page.text_append, if_neg hne, String.append_empty]
  | adopt reference => exact Page.text_adopt page reference region
  | fail failure => rfl

/-- Writes change the texts of their targets only, also if they fail. -/
theorem text_replay (supplied : Regions) {writes : List Write} {region : String} (page : Page)
    (h : ∀ write ∈ writes, write.target? ≠ some region) :
    (replay supplied writes page).page.text region = page.text region := by
  induction writes generalizing page with
  | nil => rfl
  | cons write writes ih =>
    have hfirst := text_apply supplied page (h write List.mem_cons_self)
    rw [replay, Outcome.andThen]
    split
    · rw [ih _ fun write hwrite => h write (List.mem_cons_of_mem _ hwrite), hfirst]
    · exact hfirst

namespace Markup

variable {context : Option Context} {names : List String}

/-- What a node adds by itself, it adds to the region where it stands. -/
theorem eq_of_target?_ownWrites {node : Node} {key region : String} {write : Write}
    (hmem : write ∈ node.ownWrites context names key) (htarget : write.target? = some region) :
    region = key := by
  have hall : ∀ write ∈ node.ownWrites context names key,
      write.target? = none ∨ write.target? = some key := by
    cases node with
    | output words | conditional words =>
      simp only [Node.ownWrites]
      split <;> simp [Write.target?]
    | region name body =>
      simp only [Node.ownWrites]
      split <;> simp [Write.target?]
    | _ => simp [Node.ownWrites, Write.target?]
  obtain hnone | hkey := hall write hmem
  · rw [htarget] at hnone
    cases hnone
  · rw [htarget] at hkey
    exact Option.some.inj hkey

/-- Where rendering comes to another region, it has come there by an unfilled insertion point of
that name, standing elsewhere. -/
theorem Renders.eq_or_exists {node inner : Node} {key into : String}
    (h : Renders context names node key inner into) :
    into = key ∨ into ∉ names ∧ ∃ body place, place ≠ into ∧
      Renders context names node key (.region into body) place := by
  induction h with
  | self => exact .inl rfl
  | template hchild _ ih =>
    obtain rfl | ⟨hunfilled, body, place, hplace, hrenders⟩ := ih
    · exact .inl rfl
    · exact .inr ⟨hunfilled, body, place, hplace, .template hchild hrenders⟩
  | body hvalue htrue hchild _ ih =>
    obtain rfl | ⟨hunfilled, body, place, hplace, hrenders⟩ := ih
    · exact .inl rfl
    · exact .inr ⟨hunfilled, body, place, hplace, .body hvalue htrue hchild hrenders⟩
  | otherwise hvalue hfalse _ ih =>
    obtain rfl | ⟨hunfilled, body, place, hplace, hrenders⟩ := ih
    · exact .inl rfl
    · exact .inr ⟨hunfilled, body, place, hplace, .otherwise hvalue hfalse hrenders⟩
  | alternative hchild _ ih =>
    obtain rfl | ⟨hunfilled, body, place, hplace, hrenders⟩ := ih
    · exact .inl rfl
    · exact .inr ⟨hunfilled, body, place, hplace, .alternative hchild hrenders⟩
  | @region name children child inner key into hsupplied hname hchild _ ih =>
    obtain rfl | ⟨hunfilled, body, place, hplace, hrenders⟩ := ih
    · exact .inr ⟨hsupplied, children, key, hname.symm, .self _ _⟩
    · exact .inr ⟨hunfilled, body, place, hplace, .region hsupplied hname hchild hrenders⟩

/-- If an unfilled insertion point writes to the region where it stands, rendering it comes to an
unfilled insertion point of that name that stands elsewhere. -/
theorem exists_inner_of_target? {name key : String} {body : List Node} {write : Write}
    (hname : name ∉ names)
    (hmem : write ∈ (Node.region name body).writes context (some names) key)
    (htarget : write.target? = some key) :
    key ∉ names ∧ ∃ inner place, place ≠ key ∧
      Renders context names (.region name body) key (.region key inner) place := by
  obtain ⟨inner, into, hrenders, hown⟩ := exists_renders_of_mem_writes _ key hmem
  obtain rfl := eq_of_target?_ownWrites hown htarget
  cases hrenders with
  | self =>
    -- By itself, the point does no more than see to it that the two regions are there.
    rw [Node.ownWrites, if_neg hname] at hown
    simp only [List.mem_cons, List.not_mem_nil, or_false] at hown
    obtain rfl | rfl := hown <;> cases htarget
  | region hsupplied hne hchild hrenders =>
    obtain rfl | ⟨hunfilled, inner, place, hplace, hrenders⟩ := hrenders.eq_or_exists
    · exact absurd rfl hne
    · exact ⟨hunfilled, inner, place, hplace, .region hsupplied hne hchild hrenders⟩

end Markup

/-! ## Unfilled insertion points -/

section

variable {context : Option Context} {supplied : Regions} {name key : String}
  {body : List Markup.Node}

/-- If rendering an unfilled insertion point changes the text of the region where it stands, also if
it fails, then that region is not supplied and rendering comes to an insertion point of its name
that stands elsewhere. -/
theorem exists_inner_of_text_ne (hname : supplied.get? name = none) (page : Page)
    (h : ((Markup.Node.region name body).render ⟨context, some supplied⟩ key page).page.text key
      ≠ page.text key) :
    key ∉ supplied.names ∧ ∃ inner place, place ≠ key ∧
      Markup.Renders context supplied.names (.region name body) key (.region key inner) place := by
  have hunfilled : name ∉ supplied.names := by
    rw [← Table.contains_iff_mem_names, Table.contains, hname]
    exact Bool.false_ne_true
  rw [Markup.render_eq_replay] at h
  by_contra hinner
  exact h (text_replay supplied page fun write hwrite htarget =>
    hinner (Markup.exists_inner_of_target? hunfilled hwrite htarget))

/-- An unfilled insertion point adds nothing to the region where it stands, whatever its body
renders and also if that fails, if that region is supplied or the body has no insertion point of
its name. -/
theorem text_of_unfilled (hname : supplied.get? name = none)
    (hkey : key ∈ supplied.names ∨ key ∉ Markup.regionNamesAll body) (page : Page) :
    ((Markup.Node.region name body).render ⟨context, some supplied⟩ key page).page.text key
      = page.text key := by
  by_contra hne
  obtain ⟨hunfilled, inner, place, hplace, hrenders⟩ := exists_inner_of_text_ne hname page hne
  obtain hkey | hkey := hkey
  · exact hunfilled hkey
  cases hrenders with
  | self => exact hplace rfl
  | region hsupplied hne hchild hrenders =>
    apply hkey
    apply Markup.regionNames_subset_all hchild
    apply hrenders.regionNames_subset
    rw [Markup.Node.regionNames]
    exact List.mem_cons_self

/-- The text of an unfilled insertion point inside another one goes to the region where that one
stands if it has the name of that region. -/
theorem text_of_inner (hname : supplied.get? name = none) (hkey : supplied.get? key = none)
    (hne : name ≠ key) (text : String) (page : Page) :
    ((Markup.Node.region name [.region key [.content text]]).render ⟨context, some supplied⟩ key
      page).page.text key = page.text key ++ text := by
  simp only [Markup.Node.render, Markup.renderAll, hname, hkey, if_neg hne, if_neg hne.symm,
    Outcome.andThen, Page.text_append, Page.text_ensure, if_true]

end

end Stencil
