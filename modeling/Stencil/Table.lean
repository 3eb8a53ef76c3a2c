/-!
# Tables of named entries

A table holds at most one entry per name and lists its entries by name. Names are compared code
point by code point, which is also the order of their bytes in UTF-8. Two tables with the same
look-ups are the same table (`Table.ext_get?`).

Variables and rendered regions are both kept in tables.
-/

namespace Stencil

/-- A finite map from names, listed in strictly ascending order. -/
structure Table (α : Type) where
  /-- The entries, each name once. -/
  entries : List (String × α)
  /-- Every name comes before the names after it. -/
  ascending : entries.Pairwise fun a b => a.1 < b.1
  deriving DecidableEq

namespace Table

variable {α : Type}

/-- The table without entries. -/
def empty : Table α := ⟨[], .nil⟩

instance : EmptyCollection (Table α) := ⟨empty⟩

instance : Inhabited (Table α) := ⟨empty⟩

/-! ## Writing -/

/-- The list with `a` under `name`, in place of an entry of that name or where the order puts it. -/
def place (name : String) (a : α) : List (String × α) → List (String × α)
  | [] => [(name, a)]
  | e :: rest =>
    if name < e.1 then (name, a) :: e :: rest
    else if e.1 < name then e :: place name a rest
    else (name, a) :: rest

/-- A placed list holds the new entry and nothing else that was not there. -/
theorem mem_place {name : String} {a : α} {l : List (String × α)} {e : String × α}
    (h : e ∈ place name a l) : e = (name, a) ∨ e ∈ l := by
  induction l with
  | nil => simpa [place] using h
  | cons d rest ih =>
    unfold place at h
    split at h
    · simpa using h
    · split at h
      · rcases List.mem_cons.1 h with h | h
        · exact .inr (by simp [h])
        · rcases ih h with h | h
          · exact .inl h
          · exact .inr (by simp [h])
      · rcases List.mem_cons.1 h with h | h
        · exact .inl h
        · exact .inr (by simp [h])

/-- Placing keeps a list ascending. -/
theorem pairwise_place (name : String) (a : α) {l : List (String × α)}
    (h : l.Pairwise fun a b => a.1 < b.1) : (place name a l).Pairwise fun a b => a.1 < b.1 := by
  induction l with
  | nil => simp [place]
  | cons d rest ih =>
    obtain ⟨hd, hrest⟩ := List.pairwise_cons.1 h
    unfold place
    split
    · rename_i hlt
      refine List.pairwise_cons.2 ⟨fun e he => ?_, h⟩
      rcases List.mem_cons.1 he with he | he
      · exact he ▸ hlt
      · exact String.lt_trans hlt (hd e he)
    · rename_i hnlt
      split
      · rename_i hgt
        refine List.pairwise_cons.2 ⟨fun e he => ?_, ih hrest⟩
        rcases mem_place he with he | he
        · exact he ▸ hgt
        · exact hd e he
      · rename_i hngt
        have heq : d.1 = name :=
          String.le_antisymm (String.not_lt.1 hnlt) (String.not_lt.1 hngt)
        exact List.pairwise_cons.2 ⟨fun e he => heq ▸ hd e he, hrest⟩

/-- The table with `a` under `name`; an older entry of that name is replaced. -/
def insert (t : Table α) (name : String) (a : α) : Table α :=
  ⟨place name a t.entries, pairwise_place name a t.ascending⟩

/-- The table of a list of pairs, in which a later pair of the same name wins. -/
def ofList (pairs : List (String × α)) : Table α :=
  pairs.foldl (fun t p => t.insert p.1 p.2) ∅

/-- An entry whose name comes after all others is placed last. -/
theorem place_of_forall_lt {name : String} (a : α) {l : List (String × α)}
    (h : ∀ e ∈ l, e.1 < name) : place name a l = l ++ [(name, a)] := by
  induction l with
  | nil => rfl
  | cons d rest ih =>
    have hlt := h d List.mem_cons_self
    have hnlt : ¬ name < d.1 := fun hgt => String.lt_irrefl _ (String.lt_trans hgt hlt)
    rw [place, if_neg hnlt, if_pos hlt, ih fun e he => h e (List.mem_cons_of_mem _ he)]
    rfl

/-! ## Reading -/

/-- The entry under `name`, if there is one. -/
def get? (t : Table α) (name : String) : Option α := t.entries.lookup name

/-- Whether there is an entry under `name`. -/
def contains (t : Table α) (name : String) : Bool := (t.get? name).isSome

/-- The number of entries. -/
def size (t : Table α) : Nat := t.entries.length

/-- The names of the entries, ascending. -/
def names (t : Table α) : List String := t.entries.map (·.1)

@[simp] theorem get?_empty (name : String) : (∅ : Table α).get? name = none := rfl

theorem lookup_head (name : String) (e : String × α) (l : List (String × α)) :
    (e :: l).lookup name = if name = e.1 then some e.2 else l.lookup name := by
  obtain ⟨key, a⟩ := e
  by_cases h : name = key
  · simp [h]
  · simp [List.lookup_cons, beq_false_of_ne h, h]

private theorem lookup_place (name other : String) (a : α) (l : List (String × α)) :
    (place name a l).lookup other = if other = name then some a else l.lookup other := by
  induction l with
  | nil => simp [place, lookup_head]
  | cons d rest ih =>
    unfold place
    split
    · rw [lookup_head]
    · rename_i hnlt
      split
      · rename_i hgt
        have hne : d.1 ≠ name := fun h => String.lt_irrefl name (h ▸ hgt)
        rw [lookup_head, lookup_head, ih]
        by_cases h : other = d.1
        · simp [h, hne]
        · simp [h]
      · rename_i hngt
        have heq : d.1 = name :=
          String.le_antisymm (String.not_lt.1 hnlt) (String.not_lt.1 hngt)
        rw [lookup_head, lookup_head, heq]
        split <;> rfl

/-- Look-up after a write: the entry written, or what was there under any other name. -/
theorem get?_insert (t : Table α) (name other : String) (a : α) :
    (t.insert name a).get? other = if other = name then some a else t.get? other :=
  lookup_place name other a t.entries

/-- What was written under a name is read there. -/
@[simp] theorem get?_insert_self (t : Table α) (name : String) (a : α) :
    (t.insert name a).get? name = some a := by
  simp [get?_insert]

/-- Writing under one name changes no other. -/
theorem get?_insert_of_ne (t : Table α) {name other : String} (h : other ≠ name) (a : α) :
    (t.insert name a).get? other = t.get? other := by
  simp [get?_insert, h]

private theorem lookup_isSome_iff (name : String) (l : List (String × α)) :
    (l.lookup name).isSome ↔ name ∈ l.map (·.1) := by
  induction l with
  | nil => simp
  | cons d rest ih =>
    rw [lookup_head]
    split
    · simp [*]
    · rename_i h
      rw [ih]
      simp [h]

/-- The names with an entry are those that are listed. -/
theorem contains_iff_mem_names {t : Table α} {name : String} :
    t.contains name ↔ name ∈ t.names := lookup_isSome_iff name t.entries

/-! ## Equality -/

private theorem lookup_eq_none_of_forall_lt {name : String} {l : List (String × α)}
    (h : ∀ e ∈ l, name < e.1) : l.lookup name = none := by
  induction l with
  | nil => rfl
  | cons d rest ih =>
    have hne : name ≠ d.1 := fun he => String.lt_irrefl d.1 (he ▸ h d (by simp))
    rw [lookup_head, if_neg hne]
    exact ih fun e he => h e (by simp [he])

/-- The first name of an ascending list is no later than the first name of one with the same
look-ups. -/
private theorem not_lt_of_lookup {c d : String × α} {l m : List (String × α)}
    (hl : (c :: l).Pairwise fun a b => a.1 < b.1)
    (h : ∀ name, (c :: l).lookup name = (d :: m).lookup name) : ¬ d.1 < c.1 := by
  intro hlt
  have hnone : (c :: l).lookup d.1 = none := by
    refine lookup_eq_none_of_forall_lt fun e he => ?_
    rcases List.mem_cons.1 he with he | he
    · exact he ▸ hlt
    · exact String.lt_trans hlt ((List.pairwise_cons.1 hl).1 e he)
  rw [h d.1, lookup_head] at hnone
  simp at hnone

private theorem entries_eq_of_lookup {l m : List (String × α)}
    (hl : l.Pairwise fun a b => a.1 < b.1) (hm : m.Pairwise fun a b => a.1 < b.1)
    (h : ∀ name, l.lookup name = m.lookup name) : l = m := by
  induction l generalizing m with
  | nil =>
    cases m with
    | nil => rfl
    | cons d m => simpa [lookup_head] using h d.1
  | cons c l ih =>
    cases m with
    | nil => simpa [lookup_head] using h c.1
    | cons d m =>
      have hname : c.1 = d.1 :=
        String.le_antisymm (String.not_lt.1 (not_lt_of_lookup hl h))
          (String.not_lt.1 (not_lt_of_lookup hm fun name => (h name).symm))
      have hvalue : c.2 = d.2 := by simpa [lookup_head, hname] using h c.1
      obtain ⟨hc, hl⟩ := List.pairwise_cons.1 hl
      obtain ⟨hd, hm⟩ := List.pairwise_cons.1 hm
      have hrest : l = m := by
        refine ih hl hm fun name => ?_
        by_cases hn : name = d.1
        · rw [hn, lookup_eq_none_of_forall_lt fun e he => hname ▸ hc e he,
            lookup_eq_none_of_forall_lt hd]
        · simpa [lookup_head, hname, hn] using h name
      rw [hrest, Prod.ext hname hvalue]

theorem ext_entries {t u : Table α} (h : t.entries = u.entries) : t = u := by
  obtain ⟨l, hl⟩ := t
  obtain ⟨m, hm⟩ := u
  cases h
  rfl

/-- Tables with the same look-ups are equal. -/
theorem ext_get? {t u : Table α} (h : ∀ name, t.get? name = u.get? name) : t = u :=
  ext_entries (entries_eq_of_lookup t.ascending u.ascending h)

private theorem entries_foldl_insert {t : Table α} {pairs : List (String × α)}
    (h : (t.entries ++ pairs).Pairwise fun a b => a.1 < b.1) :
    (pairs.foldl (fun t p => t.insert p.1 p.2) t).entries = t.entries ++ pairs := by
  induction pairs generalizing t with
  | nil => exact (List.append_nil _).symm
  | cons p pairs ih =>
    have hlast : (t.insert p.1 p.2).entries = t.entries ++ [p] :=
      place_of_forall_lt p.2 fun e he =>
        (List.pairwise_append.1 h).2.2 e he p List.mem_cons_self
    rw [← List.singleton_append, ← List.append_assoc, ← hlast] at h ⊢
    exact ih h

/-- The entries of a table make that table again. -/
theorem ofList_entries (t : Table α) : ofList t.entries = t :=
  ext_entries (entries_foldl_insert t.ascending)

end Table

end Stencil
