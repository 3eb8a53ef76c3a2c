import Stencil.Proofs.Cutting

/-!
# Reading what is written

The reader delivers a datum from its lexemes to whatever is open around it (`Datum.Delivered`): a
single lexeme at once, and a list or an object when its parts have been delivered to it one by one.
So data come back from their text.

Main statement: `Datum.Plain.ofText?_write`.
-/

namespace Stencil.Json

/-- The lexemes of a datum are read as that datum, wherever one is needed. -/
def Datum.Delivered (d : Datum) : Prop :=
  ∀ frames, d.lexemes.foldlM Reader.read ⟨.value, frames⟩ = Reader.deliver d frames

theorem foldlM_singleton (reader : Reader) (lexeme : Lexeme) :
    [lexeme].foldlM Reader.read reader = reader.read lexeme := bind_pure (reader.read lexeme)

/-- A datum that is a single lexeme is delivered at once. -/
theorem delivered_of_readValue {d : Datum} {lexeme : Lexeme} (hlexemes : d.lexemes = [lexeme])
    (h : ∀ frames, Reader.readValue frames lexeme = Reader.deliver d frames) : d.Delivered := by
  intro frames
  rw [hlexemes, foldlM_singleton]
  exact h frames

/-- The items of a list are read one after the other, up to what closes it. -/
theorem foldlM_itemLexemes {items : List Datum} (h : ∀ item ∈ items, item.Delivered)
    (hne : items ≠ []) (before : List Datum) (frames : List Frame) :
    (itemLexemes items).foldlM Reader.read ⟨.value, .list before :: frames⟩
      = some ⟨.more, .list (items.reverse ++ before) :: frames⟩ := by
  induction items generalizing before with
  | nil => contradiction
  | cons item items ih =>
    have hitem : item.lexemes.foldlM Reader.read ⟨.value, .list before :: frames⟩
        = some ⟨.more, .list (item :: before) :: frames⟩ := h item List.mem_cons_self _
    cases items with
    | nil => exact hitem
    | cons next items =>
      -- behind an item the comma asks for the next one
      rw [itemLexemes, List.foldlM_append, hitem, List.reverse_cons, List.append_assoc]
      exact ih (fun item hitem => h item (List.mem_cons_of_mem _ hitem)) (by simp) (item :: before)

/-- A member of an object is read as its name and its datum. -/
theorem foldlM_member {item : Datum} (h : item.Delivered) (name : String)
    (before : List (Option String × Datum)) (frames : List Frame) :
    (.text (some name) :: .mark .colon :: item.lexemes).foldlM Reader.read
        ⟨.name, .object before :: frames⟩
      = some ⟨.more, .object ((some name, item) :: before) :: frames⟩ :=
  h (.member before (some name) :: frames)

/-- So are the members of an object, each behind its name. -/
theorem foldlM_memberLexemes {members : List (String × Datum)}
    (h : ∀ member ∈ members, member.2.Delivered) (hne : members ≠ [])
    (before : List (Option String × Datum)) (frames : List Frame) :
    (memberLexemes members).foldlM Reader.read ⟨.name, .object before :: frames⟩
      = some ⟨.more,
          .object ((members.map fun m => (some m.1, m.2)).reverse ++ before) :: frames⟩ := by
  induction members generalizing before with
  | nil => contradiction
  | cons member members ih =>
    obtain ⟨name, item⟩ := member
    have hmember := foldlM_member (h (name, item) List.mem_cons_self) name before frames
    cases members with
    | nil => exact hmember
    | cons next members =>
      rw [memberLexemes, ← List.cons_append, ← List.cons_append, List.foldlM_append, hmember,
        List.map_cons, List.reverse_cons, List.append_assoc]
      exact ih (fun member hmem => h member (List.mem_cons_of_mem _ hmem)) (by simp) _

/-- Items start with a lexeme that ends no list. -/
theorem exists_itemLexemes_eq_cons (item : Datum) (items : List Datum) :
    ∃ first later, itemLexemes (item :: items) = first :: later ∧ first ≠ .mark .endList := by
  cases items
  all_goals
    cases item
    all_goals exact ⟨_, _, rfl, by simp⟩

/-- The first item of a list is read as any other. -/
theorem foldlM_firstItem (item : Datum) (items : List Datum) (later : List Lexeme)
    (frames : List Frame) :
    (itemLexemes (item :: items) ++ later).foldlM Reader.read ⟨.firstItem, frames⟩
      = (itemLexemes (item :: items) ++ later).foldlM Reader.read ⟨.value, frames⟩ := by
  obtain ⟨first, tail, hlexemes, hne⟩ := exists_itemLexemes_eq_cons item items
  -- only the end of the list is read otherwise
  have hread : Reader.read ⟨.firstItem, frames⟩ first = Reader.read ⟨.value, frames⟩ first := by
    cases first with
    | mark m => cases m <;> first | rfl | contradiction
    | text s => rfl
    | word d => rfl
  rw [hlexemes, List.cons_append, List.foldlM_cons, List.foldlM_cons, hread]

/-- The first name in an object is read as any other. -/
theorem foldlM_firstName (member : String × Datum) (members : List (String × Datum))
    (later : List Lexeme) (frames : List Frame) :
    (memberLexemes (member :: members) ++ later).foldlM Reader.read ⟨.firstName, frames⟩
      = (memberLexemes (member :: members) ++ later).foldlM Reader.read ⟨.name, frames⟩ := by
  cases members <;> rfl

/-- An object keeps the members that have names. -/
theorem objectOf_map (members : List (String × Datum)) :
    objectOf (members.map fun m => (some m.1, m.2)) = .object members := by
  have hnamed : (members.map fun m => (some m.1, m.2)).mapM
      (fun m : Option String × Datum => m.1.map (·, m.2)) = some members := by
    induction members with
    | nil => rfl
    | cons member members ih => simp [ih]
  rw [objectOf, hnamed]

/-- A list is delivered where its items are. -/
theorem Datum.delivered_list {items : List Datum} (h : ∀ item ∈ items, item.Delivered) :
    (Datum.list items).Delivered := by
  intro frames
  cases items with
  | nil => exact bind_pure (Reader.deliver (.list []) frames)
  | cons item items =>
    calc (Datum.list (item :: items)).lexemes.foldlM Reader.read ⟨.value, frames⟩
        = (itemLexemes (item :: items) ++ [Lexeme.mark .endList]).foldlM Reader.read
            ⟨.firstItem, .list [] :: frames⟩ := rfl
      _ = (itemLexemes (item :: items) ++ [Lexeme.mark .endList]).foldlM Reader.read
            ⟨.value, .list [] :: frames⟩ := foldlM_firstItem ..
      _ = Reader.read ⟨.more, .list ((item :: items).reverse ++ []) :: frames⟩
            (.mark .endList) := by
          rw [List.foldlM_append, foldlM_itemLexemes h (by simp)]
          exact foldlM_singleton _ _
      _ = Reader.deliver (.list (item :: items)) frames := by
          rw [List.append_nil]
          show Reader.deliver (.list (item :: items).reverse.reverse) frames = _
          rw [List.reverse_reverse]

/-- An object is delivered where its members are. -/
theorem Datum.delivered_object {members : List (String × Datum)}
    (h : ∀ member ∈ members, member.2.Delivered) : (Datum.object members).Delivered := by
  intro frames
  cases members with
  | nil => exact bind_pure (Reader.deliver (.object []) frames)
  | cons member members =>
    let named := (member :: members).map fun m => (some m.1, m.2)
    calc (Datum.object (member :: members)).lexemes.foldlM Reader.read ⟨.value, frames⟩
        = (memberLexemes (member :: members) ++ [Lexeme.mark .endObject]).foldlM Reader.read
            ⟨.firstName, .object [] :: frames⟩ := rfl
      _ = (memberLexemes (member :: members) ++ [Lexeme.mark .endObject]).foldlM Reader.read
            ⟨.name, .object [] :: frames⟩ := foldlM_firstName ..
      _ = Reader.read ⟨.more, .object (named.reverse ++ []) :: frames⟩ (.mark .endObject) := by
          rw [List.foldlM_append, foldlM_memberLexemes h (by simp)]
          exact foldlM_singleton _ _
      _ = Reader.deliver (.object (member :: members)) frames := by
          rw [List.append_nil]
          show Reader.deliver (objectOf named.reverse.reverse) frames = _
          rw [List.reverse_reverse, objectOf_map]

/-- Every plain datum is delivered. -/
theorem Datum.Plain.delivered {d : Datum} (h : d.Plain) : d.Delivered := by
  induction h with
  | null => exact delivered_of_readValue rfl fun _ => rfl
  | bool b => exact delivered_of_readValue rfl fun _ => rfl
  | whole hlow hhigh => exact delivered_of_readValue rfl fun _ => rfl
  | text s => exact delivered_of_readValue rfl fun _ => rfl
  | list _ ih => exact delivered_list ih
  | object _ ih => exact delivered_object ih

/-- A plain datum is read back from its text. -/
theorem Datum.Plain.ofText?_write {d : Datum} (h : d.Plain) : Datum.ofText? d.write = some d := by
  rw [Datum.ofText?, h.lexemes?_write, Option.bind_some, Datum.ofLexemes?, h.delivered]
  rfl

end Stencil.Json
