import Mathlib.Algebra.Group.Nat.Defs
import Stencil.Json.Failure
import Stencil.Proofs.Delivery

/-!
# Decoding undoes encoding

A codec restores some data if it writes them as a datum that comes back from its text, and decodes
what it encoded (`Codec.Restores`). Lists, tables and records are restored where their parts are,
and so is a case of several (`Restores.case`). Put together this way are the formats for variables,
rendered regions and failures of every kind. Floats are left out, and lines and columns have 64
bits.

Main statement: `read?_write_eq_some`.
-/

namespace Stencil.Codec

open Json

variable {α β γ δ : Type}

/-- The codec writes `a` as a plain datum, which it decodes as `a`. -/
structure Restores (codec : Codec α) (a : α) : Prop where
  plain : (codec.encode a).Plain
  decode : codec.decode? (codec.encode a) = some a

/-- What a codec restores comes back from its text. -/
theorem Restores.read?_write {codec : Codec α} {a : α} (h : codec.Restores a) :
    codec.read? (codec.write a) = some a := by
  rw [read?, write, String.toList_ofList, h.plain.ofText?_write, Option.bind_some, h.decode]

/-! ## Plain data -/

theorem restores_text (s : String) : text.Restores s := ⟨.text s, rfl⟩

/-- A number of 64 bits comes back. -/
theorem restores_natural {n : Nat} (h : n < 2 ^ 64) : natural.Restores n where
  plain := .whole (by omega) (by omega)
  decode := by simp [natural]

/-- The encoding of a value does not name its kind, and the kind is found again. -/
theorem restores_value {v : Value} (h : ∀ x, v ≠ .float x) : value.Restores v := by
  cases v with
  | bool b => exact ⟨.bool b, rfl⟩
  | int n =>
    refine ⟨.whole n.le_toInt (n.toInt_lt.trans (by decide)), ?_⟩
    simp [value, Value.int64?_toInt]
  | float x => exact absurd rfl (h x)
  | str s => exact ⟨.text s, rfl⟩
  | undefined => exact ⟨.null, rfl⟩

/-- Decoding item by item undoes encoding item by item. -/
theorem mapM_map_eq_some {encode : α → β} {decode? : β → Option α} {items : List α}
    (h : ∀ a ∈ items, decode? (encode a) = some a) :
    (items.map encode).mapM decode? = some items := by
  induction items with
  | nil => rfl
  | cons a items ih =>
    rw [List.map_cons, List.mapM_cons, h a List.mem_cons_self,
      ih fun a ha => h a (List.mem_cons_of_mem _ ha)]
    rfl

/-- A list comes back where its items do. -/
theorem restores_list {codec : Codec α} {items : List α} (h : ∀ a ∈ items, codec.Restores a) :
    (list codec).Restores items where
  plain := .list fun d hd => by
    obtain ⟨a, ha, rfl⟩ := List.mem_map.1 hd
    exact (h a ha).plain
  decode := mapM_map_eq_some fun a ha => (h a ha).decode

/-- The entries of a table are written in its order, so they make the same table again. -/
theorem restores_table {codec : Codec α} {t : Table α} (h : ∀ e ∈ t.entries, codec.Restores e.2) :
    (table codec).Restores t where
  plain := .object fun m hm => by
    obtain ⟨e, he, rfl⟩ := List.mem_map.1 hm
    exact (h e he).plain
  decode := by
    have hentries : (t.entries.map fun e => (e.1, codec.encode e.2)).mapM
        (fun m => (codec.decode? m.2).map (m.1, ·)) = some t.entries :=
      mapM_map_eq_some fun e he => by rw [(h e he).decode, Option.map_some]
    -- the entries are read in ascending order, so none replaces another
    show Option.map Table.ofList _ = some t
    rw [hentries, Option.map_some, t.ofList_entries]

/-! ## Records -/

/-- Where no name stands twice, each member is found under its name. -/
theorem lookup_eq_some {members : List (String × Datum)} (h : (members.map (·.1)).Nodup)
    {m : String × Datum} (hm : m ∈ members) : members.lookup m.1 = some m.2 := by
  induction members with
  | nil => cases hm
  | cons d members ih =>
    rw [List.map_cons, List.nodup_cons] at h
    rw [Table.lookup_head]
    rcases List.mem_cons.1 hm with rfl | hm
    · rw [if_pos rfl]
    · have hne : m.1 ≠ d.1 := fun heq => h.1 (heq ▸ List.mem_map_of_mem hm)
      rw [if_neg hne, ih h.2 hm]

/-- Under names that all differ stands what was written there. -/
theorem parts?_object {members : List (String × Datum)} {names : List String}
    (hmembers : members.map (·.1) = names) (h : names.Nodup) :
    (Datum.object members).parts? names = some (members.map fun m => some m.2) := by
  subst hmembers
  -- no name is there twice, so the object is not refused
  have honce : (members.map (·.1)).all (fun name => members.countP (·.1 == name) ≤ 1) = true := by
    simp only [List.all_eq_true, decide_eq_true_iff]
    intro name _
    have hcount := List.nodup_iff_count_le_one.1 h name
    rwa [List.count, List.countP_map] at hcount
  rw [Datum.parts?, if_pos honce, List.map_map]
  exact congrArg some (List.map_congr_left fun m hm => lookup_eq_some h hm)

variable {codec₁ : Codec α} {codec₂ : Codec β} {codec₃ : Codec γ} {a : α} {b : β} {c : γ}

/-- A record of one part comes back where the part does. -/
theorem Restores.record₁ (ha : codec₁.Restores a) (name : String) :
    (record₁ name codec₁).Restores a where
  plain := .object (by simpa using ha.plain)
  decode := by
    have hparts : (Datum.object [(name, codec₁.encode a)]).parts? [name]
        = some [some (codec₁.encode a)] := parts?_object rfl (List.nodup_singleton name)
    simp [Codec.record₁, hparts, ha.decode]

/-- A record of two parts comes back where both do and their names differ. -/
theorem Restores.record₂ (ha : codec₁.Restores a) (hb : codec₂.Restores b) {name₁ name₂ : String}
    (hnames : [name₁, name₂].Nodup) : (record₂ name₁ codec₁ name₂ codec₂).Restores (a, b) where
  plain := .object (by simpa using ⟨ha.plain, hb.plain⟩)
  decode := by
    have hparts : (Datum.object [(name₁, codec₁.encode a), (name₂, codec₂.encode b)]).parts?
        [name₁, name₂] = some [some (codec₁.encode a), some (codec₂.encode b)] :=
      parts?_object rfl hnames
    simp [Codec.record₂, hparts, ha.decode, hb.decode]

/-- So does a record of three parts. -/
theorem Restores.record₃ (ha : codec₁.Restores a) (hb : codec₂.Restores b)
    (hc : codec₃.Restores c) {name₁ name₂ name₃ : String} (hnames : [name₁, name₂, name₃].Nodup) :
    (record₃ name₁ codec₁ name₂ codec₂ name₃ codec₃).Restores (a, b, c) where
  plain := .object (by simpa using ⟨ha.plain, hb.plain, hc.plain⟩)
  decode := by
    have hparts : (Datum.object [(name₁, codec₁.encode a), (name₂, codec₂.encode b),
          (name₃, codec₃.encode c)]).parts? [name₁, name₂, name₃]
        = some [some (codec₁.encode a), some (codec₂.encode b), some (codec₃.encode c)] :=
      parts?_object rfl hnames
    simp [Codec.record₃, hparts, ha.decode, hb.decode, hc.decode]

/-! ## Cases -/

/-- A case is restored where its parts are, if the codec encodes it under its name and decodes it
from there. -/
theorem Restores.case {part : Codec α} {whole : Codec δ} {a : α} (h : part.Restores a)
    (make : α → δ) {name : String}
    (hencode : whole.encode (make a) = .ofCase name (part.encode a))
    (hdecode : ∀ d, whole.decode? (.ofCase name d) = (part.decode? d).map make) :
    whole.Restores (make a) where
  plain := by
    rw [hencode]
    exact .object (by simpa using h.plain)
  decode := by rw [hencode, hdecode, h.decode, Option.map_some]

/-- A record of two texts comes back. -/
theorem restores_texts₂ {name₁ name₂ : String} (hnames : [name₁, name₂].Nodup) (s t : String) :
    (record₂ name₁ text name₂ text).Restores (s, t) :=
  (restores_text s).record₂ (restores_text t) hnames

theorem restores_texts₃ {name₁ name₂ name₃ : String} (hnames : [name₁, name₂, name₃].Nodup)
    (s t u : String) : (record₃ name₁ text name₂ text name₃ text).Restores (s, t, u) :=
  (restores_text s).record₃ (restores_text t) (restores_text u) hnames

/-! ## Failures -/

/-- Every fault of a template comes back. -/
theorem restores_markupFault (fault : Markup.Fault) : markupFault.Restores fault := by
  cases fault with
  | unexpectedToken expected found =>
    exact (restores_texts₂ (by decide) expected found).case
      (fun p => Markup.Fault.unexpectedToken p.1 p.2) rfl fun _ => rfl
  | unexpectedEnd expectation =>
    exact ((restores_text expectation).record₁ _).case Markup.Fault.unexpectedEnd rfl fun _ => rfl
  | unknownKeyword keyword =>
    exact ((restores_text keyword).record₁ _).case Markup.Fault.unknownKeyword rfl fun _ => rfl
  | misplacedKeyword keyword =>
    exact ((restores_text keyword).record₁ _).case Markup.Fault.misplacedKeyword rfl fun _ => rfl
  | emptyMarker => exact ⟨.text _, rfl⟩
  | missingArgument keyword =>
    exact ((restores_text keyword).record₁ _).case Markup.Fault.missingArgument rfl fun _ => rfl
  | unexpectedArgument keyword argument =>
    exact (restores_texts₂ (by decide) keyword argument).case
      (fun p => Markup.Fault.unexpectedArgument p.1 p.2) rfl fun _ => rfl
  | unbalanced keyword reason =>
    exact (restores_texts₂ (by decide) keyword reason).case
      (fun p => Markup.Fault.unbalanced p.1 p.2) rfl fun _ => rfl

/-- An error of a template comes back with its line. -/
theorem restores_markupError {e : Markup.Error} (h : e.line < 2 ^ 64) :
    markupError.Restores e := by
  have hparts : (record₂ "line" natural "kind" markupFault).Restores (e.line, e.fault) :=
    (restores_natural h).record₂ (restores_markupFault e.fault) (by decide)
  exact ⟨hparts.plain, congrArg (Option.map _) hparts.decode⟩

/-- The column that an error of an expression names, if any, has 64 bits. -/
def Placed : Expr.Error → Prop
  | .malformed _ column => column < 2 ^ 64
  | _ => True

/-- An error of an expression comes back, with its column where it has one. -/
theorem restores_exprError {e : Expr.Error} (h : Placed e) : exprError.Restores e := by
  cases e with
  | malformed message column =>
    exact ((restores_text message).record₂ (restores_natural h) (by decide)).case
      (fun p => Expr.Error.malformed p.1 p.2) rfl fun _ => rfl
  | unsupported construct =>
    exact ((restores_text construct).record₁ _).case Expr.Error.unsupported rfl fun _ => rfl
  | typeMismatch operator left right =>
    exact (restores_texts₃ (by decide) operator left right).case
      (fun p => Expr.Error.typeMismatch p.1 p.2.1 p.2.2) rfl fun _ => rfl
  | divisionByZero => exact ⟨.text _, rfl⟩
  | overflow operator =>
    exact ((restores_text operator).record₁ _).case Expr.Error.overflow rfl fun _ => rfl

/-- An error of a chain comes back. -/
theorem restores_lineageError (e : LineageError) : lineageError.Restores e := by
  cases e with
  | unresolvable reference child reason =>
    exact (restores_texts₃ (by decide) reference child reason).case
      (fun p => LineageError.unresolvable p.1 p.2.1 p.2.2) rfl fun _ => rfl
  | cycle chain =>
    have hchain : (list text).Restores chain := restores_list fun id _ => restores_text id
    exact (hchain.record₁ _).case LineageError.cycle rfl fun _ => rfl
  | multipleParents first second =>
    exact (restores_texts₂ (by decide) first second).case
      (fun p => LineageError.multipleParents p.1 p.2) rfl fun _ => rfl

/-- The line or column that a failure names, if any, has 64 bits. -/
def Located : Failure → Prop
  | .markup error => error.line < 2 ^ 64
  | .expr error => Placed error
  | _ => True

/-- Every failure comes back. -/
theorem restores_failure {f : Failure} (h : Located f) : failure.Restores f := by
  cases f with
  | templateExists name =>
    exact ((restores_text name).record₁ _).case Failure.templateExists rfl fun _ => rfl
  | missingTemplate name =>
    exact ((restores_text name).record₁ _).case Failure.missingTemplate rfl fun _ => rfl
  | disk path message =>
    exact (restores_texts₂ (by decide) path message).case
      (fun p => Failure.disk p.1 p.2) rfl fun _ => rfl
  | badPattern pattern message =>
    exact (restores_texts₂ (by decide) pattern message).case
      (fun p => Failure.badPattern p.1 p.2) rfl fun _ => rfl
  | markup error => exact (restores_markupError h).case Failure.markup rfl fun _ => rfl
  | expr error => exact (restores_exprError h).case Failure.expr rfl fun _ => rfl
  | lineage error => exact (restores_lineageError error).case Failure.lineage rfl fun _ => rfl

/-- Variables, rendered regions, failures and values all come back from their text as they were
written, each value with its kind. Variables and values are no floats, and lines and columns have
64 bits. -/
theorem read?_write_eq_some :
    (∀ bindings : Context, (∀ e ∈ bindings.entries, ∀ x, e.2 ≠ .float x) →
      context.read? (context.write bindings) = some bindings) ∧
    (∀ buffers : Table String, regions.read? (regions.write buffers) = some buffers) ∧
    (∀ f : Failure, Located f → failure.read? (failure.write f) = some f) ∧
    ∀ v : Value, (∀ x, v ≠ .float x) → value.read? (value.write v) = some v := by
  refine ⟨fun bindings h => ?_, fun buffers => ?_, fun f h => ?_, fun v h => ?_⟩
  · exact (restores_table fun e he => restores_value (h e he)).read?_write
  · exact (restores_table fun e _ => restores_text e.2).read?_write
  · exact (restores_failure h).read?_write
  · exact (restores_value h).read?_write

/-- Variables that hold the least integer, and a text with a quote, a line break, a control and a
letter beyond ASCII. -/
def leastAndQuoted : Context :=
  ((∅ : Context).insert "text" (.str "\"\n\x01é")).insert "least" (.int Int64.minValue)

/-- These variables, a rendered page, an empty marker on the third line and an undefined value come
back from their text. -/
theorem read?_write_leastAndQuoted :
    ((∀ e ∈ leastAndQuoted.entries, ∀ x, e.2 ≠ .float x) ∧
      context.read? (context.write leastAndQuoted) = some leastAndQuoted) ∧
    regions.read? (regions.write ((∅ : Table String).insert "root" "\"\n\x01é"))
      = some ((∅ : Table String).insert "root" "\"\n\x01é") ∧
    (Located (.markup ⟨3, .emptyMarker⟩) ∧
      failure.read? (failure.write (.markup ⟨3, .emptyMarker⟩))
        = some (.markup ⟨3, .emptyMarker⟩)) ∧
    (∀ x, Value.undefined ≠ .float x) ∧
      value.read? (value.write .undefined) = some .undefined := by
  obtain ⟨hcontext, hregions, hfailure, hvalue⟩ := read?_write_eq_some
  have hbindings : ∀ e ∈ leastAndQuoted.entries, ∀ x, e.2 ≠ .float x := by
    intro e he x
    rcases Table.mem_place he with rfl | he
    · simp
    · rcases Table.mem_place he with rfl | he
      · simp
      · cases he
  have hlocated : Located (.markup ⟨3, .emptyMarker⟩) := by
    show 3 < 2 ^ 64
    decide
  have hundefined : ∀ x, Value.undefined ≠ .float x := by simp
  exact ⟨⟨hbindings, hcontext _ hbindings⟩, hregions _, ⟨hlocated, hfailure _ hlocated⟩,
    hundefined, hvalue _ hundefined⟩

end Stencil.Codec
