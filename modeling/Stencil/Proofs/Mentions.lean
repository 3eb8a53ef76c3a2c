import Stencil.Chain
import Stencil.Proofs.Writes

/-!
# The variables that templates mention

A context is only ever asked for the value of a name, and only for names that stand as variables in
an expression. So two contexts that give every such name the same value cannot be told apart: not
by an expression (`eval_sameOn`), not by what a template writes (`writes_sameOn`), and not by a
chain of templates, whose parents may depend on conditions (`Library.compile_sameOn`). A name that
a context does not hold has the value it would have if it were held as undefined, and so has every
name where there is no context.

Main statement: `results_of_sameOn`.
-/

namespace Stencil

/-- Whether two contexts give names the same values. -/
def SameOn (names : List String) (context context' : Option Context) : Prop :=
  ∀ name ∈ names, Expr.valueOf context name = Expr.valueOf context' name

variable {context context' : Option Context}

/-- Contexts are the same on two lists of names if they are on each. -/
theorem sameOn_append {names later : List String} :
    SameOn (names ++ later) context context'
      ↔ SameOn names context context' ∧ SameOn later context context' :=
  List.forall_mem_append

/-! ## Expressions -/

namespace Expr

mutual

/-- The names that stand as variables in an expression. -/
def names : Expr → List String
  | .literal _ => []
  | .name word => [word]
  | .signed _ operand => operand.names
  | .binary left _ right => left.names ++ right.names
  | .chain first links => first.names ++ linkNames links

/-- The names that stand as variables in the operands of links. -/
def linkNames : List (Comparison × Expr) → List String
  | [] => []
  | (_, operand) :: links => operand.names ++ linkNames links

end

/-- The names that stand as variables in the expression that a text spells, if it spells one. -/
def mentions (source : String) : List String :=
  match parse source with
  | .ok e => e.names
  | .error _ => []

mutual

/-- Contexts that give its variables the same values give an expression the same value. -/
theorem eval_sameOn : ∀ (e : Expr), SameOn e.names context context' →
    eval context e = eval context' e
  | .literal value, _ => by
    rw [eval, eval]
  | .name word, h => by
    rw [eval, eval, h word (List.mem_singleton.2 rfl)]
  | .signed s operand, h => by
    rw [names] at h
    rw [eval, eval, eval_sameOn operand h]
  | .binary left op right, h => by
    rw [names, sameOn_append] at h
    rw [eval, eval, eval_sameOn left h.1, eval_sameOn right h.2]
  | .chain first links, h => by
    rw [names, sameOn_append] at h
    rw [eval, eval, eval_sameOn first h.1]
    exact congrArg _ (funext fun a => congrArg (· >>= _) (evalLinks_sameOn links h.2 a))

/-- A chain of comparisons depends on the names in it only. -/
theorem evalLinks_sameOn : ∀ (links : List (Comparison × Expr)),
    SameOn (linkNames links) context context' →
      ∀ left, evalLinks context left links = evalLinks context' left links
  | [], _, left => by
    rw [evalLinks, evalLinks]
  | (op, operand) :: links, h, left => by
    rw [linkNames, sameOn_append] at h
    rw [evalLinks, evalLinks, eval_sameOn operand h.1]
    simp only [evalLinks_sameOn links h.2]

end

/-- An expression depends on the names in it only. -/
theorem evaluate_sameOn {source : String} (h : SameOn (mentions source) context context') :
    evaluate source context = evaluate source context' := by
  rw [evaluate, evaluate]
  refine bind_congr_of_ok fun e hparse => ?_
  rw [mentions, hparse] at h
  exact eval_sameOn e h

end Expr

/-! ## Templates -/

namespace Markup

mutual

/-- The names that stand as variables in the expressions of a node, also in those of branches that
may not be taken. -/
def Node.mentions : Node → List String
  | .template children => mentionsAll children
  | .content _ | .parent _ => []
  | .output words => Expr.mentions (" ".intercalate words)
  | .conditional condition body otherwise =>
    Expr.mentions (" ".intercalate condition) ++ (mentionsAll body ++ mentionsOption otherwise)
  | .alternative body | .region _ body => mentionsAll body

/-- The names that stand as variables in the expressions of nodes. -/
def mentionsAll : List Node → List String
  | [] => []
  | node :: nodes => node.mentions ++ mentionsAll nodes

/-- The names that stand as variables in the expressions of a node if there is one. -/
def mentionsOption : Option Node → List String
  | none => []
  | some node => node.mentions

end

/-- The names that stand as variables in the expressions of the template with a given source. -/
def mentions (source : String) : List String :=
  match parse source with
  | .ok root => root.mentions
  | .error _ => []

/-- Words have the same value in contexts that give the variables there the same values. -/
theorem evaluate_words_sameOn {words : List String}
    (h : SameOn (Expr.mentions (" ".intercalate words)) context context') :
    Scene.evaluate ⟨context, none⟩ words = Scene.evaluate ⟨context', none⟩ words :=
  congrArg (Except.mapError _) (Expr.evaluate_sameOn h)

variable {names : Option (List String)}

mutual

/-- A node writes the same in contexts that give the names it mentions the same values. -/
theorem writes_sameOn : ∀ (node : Node) (key : String), SameOn node.mentions context context' →
    node.writes context names key = node.writes context' names key
  | .template children, key, h => by
    rw [Node.mentions] at h
    rw [Node.writes, Node.writes, writesAll_sameOn children key h]
  | .content text, key, _ => by
    rw [Node.writes, Node.writes]
  | .output words, key, h => by
    rw [Node.mentions] at h
    rw [Node.writes.eq_def, Node.writes.eq_def]
    dsimp only
    rw [evaluate_words_sameOn h]
  | .parent reference, key, _ => by
    rw [Node.writes, Node.writes]
  | .conditional condition body otherwise, key, h => by
    rw [Node.mentions, sameOn_append, sameOn_append] at h
    obtain ⟨hcondition, hbody, hotherwise⟩ := h
    -- the condition chooses the same branch, and whichever it is writes the same
    rw [Node.writes.eq_def, Node.writes.eq_def]
    dsimp only
    rw [evaluate_words_sameOn hcondition, writesAll_sameOn body key hbody,
      writesOption_sameOn otherwise key hotherwise]
  | .alternative body, key, h => by
    rw [Node.mentions] at h
    rw [Node.writes, Node.writes, writesAll_sameOn body key h]
  | .region name body, key, h => by
    rw [Node.mentions] at h
    rw [Node.writes.eq_def, Node.writes.eq_def]
    dsimp only
    rw [writesAll_sameOn body name h]

/-- So do the writes of several nodes. -/
theorem writesAll_sameOn : ∀ (nodes : List Node) (key : String),
    SameOn (mentionsAll nodes) context context' →
      writesAll context names key nodes = writesAll context' names key nodes
  | [], key, _ => by
    rw [writesAll, writesAll]
  | node :: nodes, key, h => by
    rw [mentionsAll, sameOn_append] at h
    rw [writesAll, writesAll, writes_sameOn node key h.1, writesAll_sameOn nodes key h.2]

/-- So do those of a branch that may be missing. -/
theorem writesOption_sameOn : ∀ (node : Option Node) (key : String),
    SameOn (mentionsOption node) context context' →
      writesOption context names key node = writesOption context' names key node
  | none, key, _ => by
    rw [writesOption, writesOption]
  | some node, key, h => by
    rw [mentionsOption] at h
    rw [writesOption, writesOption]
    exact writes_sameOn node key h

end

end Markup

/-- The page of a source is the same in contexts that give the names it mentions the same values. -/
theorem interpret_sameOn {source : String} {node : Markup.Node}
    (hparse : Markup.parse source = .ok node)
    (h : SameOn (Markup.mentions source) context context') (supplied : Option Regions) :
    interpret node ⟨context, supplied⟩ = interpret node ⟨context', supplied⟩ := by
  rw [Markup.mentions, hparse] at h
  exact interpret_congr (Markup.writes_sameOn node rootName h) rfl

/-- A source is rendered alike where the names in it stand for the same. -/
theorem renderSource_sameOn {source : String}
    (h : SameOn (Markup.mentions source) context context') :
    renderSource source context = renderSource source context' := by
  rw [renderSource, renderSource]
  refine bind_congr_of_ok fun node hnode => ?_
  rw [interpret_sameOn (mapError_eq_ok.1 hnode) h]

/-! ## Chains of templates -/

namespace Chain

variable {library : Library}

/-- A template of a chain has the same page in contexts that give the names it mentions the same
values. -/
theorem page_sameOn {id : String}
    (h : ∀ source, library.load id = .ok source → SameOn (Markup.mentions source) context context')
    (extendedBy : Option (String × String)) (supplied : Option Regions) :
    page library context id extendedBy supplied = page library context' id extendedBy supplied := by
  rw [page, page]
  refine bind_congr_of_ok fun source hload => bind_congr_of_ok fun node hnode => ?_
  exact interpret_sameOn (mapError_eq_ok.1 hnode) (h source (mapError_eq_ok.1 hload)) supplied

/-- A chain is climbed alike where each template that may come up has the same page. -/
theorem climb_congr
    (h : ∀ id extendedBy supplied,
      page library context id extendedBy supplied = page library context' id extendedBy supplied)
    (chain : List String) (id : String) (extendedBy : Option (String × String))
    (supplied : Option Regions) :
    climb library context chain id extendedBy supplied
      = climb library context' chain id extendedBy supplied := by
  -- the page decides whether the chain goes on, and how, so that both take the same turns
  fun_induction climb library context chain id extendedBy supplied with
  | case1 chain id extendedBy supplied failure hpage =>
    rw [climb, ← h, hpage]
  | case2 chain id extendedBy supplied page hpage compiled =>
    rename_i hparent
    rw [climb, ← h, hpage]
    simp only [hparent]
    rfl
  | case3 chain id extendedBy supplied page hpage compiled path hpath failure =>
    rename_i hresolve
    rw [climb, ← h, hpage]
    simp only [hpath]
    split
    all_goals
      rename_i hresolve'
      cases hresolve.symm.trans hresolve'
    rfl
  | case4 chain id extendedBy supplied page hpage compiled path hpath parent hresolve =>
    rename_i hseen
    rw [climb, ← h, hpage]
    simp only [hpath]
    split
    all_goals
      rename_i hresolve'
      cases hresolve.symm.trans hresolve'
    rw [dif_pos hseen]
  | case5 chain id extendedBy supplied page hpage compiled path hpath parent hresolve hnew result
      later hclimb =>
    rename_i ih
    rw [climb, ← h, hpage]
    simp only [hpath]
    split
    all_goals
      rename_i hresolve'
      cases hresolve.symm.trans hresolve'
    rw [dif_neg hnew, ← ih, hclimb]

end Chain

/-- A page comes out alike where this holds of all templates that can be loaded. -/
theorem Library.compile_sameOn {library : Library}
    (h : ∀ id source, library.load id = .ok source →
      SameOn (Markup.mentions source) context context') (reference : String) :
    library.compile reference context = library.compile reference context' := by
  have hpage : ∀ id extendedBy supplied, Chain.page library context id extendedBy supplied
      = Chain.page library context' id extendedBy supplied :=
    fun id extendedBy supplied => Chain.page_sameOn (h id) extendedBy supplied
  rw [compile, compile]
  cases library.resolve none reference with
  | error failure => rfl
  | ok id => exact Chain.climb_congr hpage [id] id none none

/-- The names that stand as variables in the expressions of the templates on a shelf. -/
def Shelf.mentions (shelf : Shelf) : List String :=
  shelf.sources.entries.flatMap fun entry => Markup.mentions entry.2

/-- A template that a shelf loads mentions no other names than the shelf. -/
theorem Shelf.sameOn_of_load {shelf : Shelf} {id source : String}
    (h : SameOn shelf.mentions context context') (hload : shelf.library.load id = .ok source) :
    SameOn (Markup.mentions source) context context' := by
  have hsource : shelf.sources.entries.lookup id = some source := by
    change shelf.load id = .ok source at hload
    rw [load] at hload
    split at hload
    · rename_i hget
      cases hload
      exact hget
    · cases hload
  obtain ⟨before, behind, hentries, -⟩ := List.lookup_eq_some_iff.1 hsource
  have hmem : (id, source) ∈ shelf.sources.entries := by
    rw [hentries]
    exact List.mem_append_right before List.mem_cons_self
  exact fun name hname => h name (List.mem_flatMap.2 ⟨(id, source), hmem, hname⟩)

/-! ## What is missing -/

/-- A name that is missing may as well be there as undefined. -/
theorem valueOf_insert_undefined {table : Context} {name : String} (h : table.get? name = none)
    (other : String) :
    Expr.valueOf (some table) other = Expr.valueOf (some (table.insert name .undefined)) other := by
  rw [Expr.valueOf, Expr.valueOf, Option.bind_some, Option.bind_some, Table.get?_insert]
  split
  · rename_i hother
    rw [hother, h]
    rfl
  · rfl

/-- A name that is missing or undefined has the value that it has without a context. -/
theorem valueOf_none {table : Context} {name : String}
    (h : table.get? name = none ∨ table.get? name = some .undefined) :
    Expr.valueOf (some table) name = Expr.valueOf none name := by
  rw [Expr.valueOf, Expr.valueOf, Option.bind_some]
  obtain h | h := h
  · rw [h]
    rfl
  · rw [h]
    rfl

/-- Contexts matter by the values of the names that are mentioned. For templates in memory, two
contexts that give each name in an expression of one of them the same value lead to the same result
for every reference, with the same failure if there is one; likewise for a source that is rendered
by itself and for an expression. To all of these, a name that is missing is the same as one that is
undefined, and where no name is otherwise, a context is the same as none. -/
theorem results_of_sameOn :
    (∀ context context', (∀ (shelf : Shelf) (reference : String),
        SameOn shelf.mentions context context' →
          shelf.library.compile reference context = shelf.library.compile reference context') ∧
      (∀ source, SameOn (Markup.mentions source) context context' →
        renderSource source context = renderSource source context') ∧
      (∀ source, SameOn (Expr.mentions source) context context' →
        Expr.evaluate source context = Expr.evaluate source context')) ∧
    (∀ (names : List String) (table : Context) (name : String), table.get? name = none →
      SameOn names (some table) (some (table.insert name .undefined))) ∧
    (∀ (names : List String) (table : Context),
      (∀ name ∈ names, table.get? name = none ∨ table.get? name = some .undefined) →
        SameOn names (some table) none) := by
  refine ⟨fun context context' => ⟨?_, ?_, ?_⟩, ?_, ?_⟩
  · intro shelf reference h
    exact Library.compile_sameOn (fun id source => Shelf.sameOn_of_load h) reference
  · intro source h
    exact renderSource_sameOn h
  · intro source h
    exact Expr.evaluate_sameOn h
  · intro names table name hmissing other _
    exact valueOf_insert_undefined hmissing other
  · intro names table hmissing name hname
    exact valueOf_none (hmissing name hname)

/-- A page that has a parent where `a` counts as true, and the parent. -/
def chosenParent : Shelf :=
  ⟨((∅ : Table String).insert "base" "A").insert "page"
    "\x7b% if a %\x7d\x7b% extends base %\x7d\x7b% endblock %\x7d"⟩

/-- A context that holds `b` only, where `a` is mentioned. -/
theorem results_of_sameOn_chosenParent :
    let context : Context := (∅ : Context).insert "b" (.bool true)
    (SameOn chosenParent.mentions (some context) none ∧
      chosenParent.library.compile "page" (some context)
        = chosenParent.library.compile "page" none) ∧
    (SameOn (Markup.mentions "\x7b\x7b a \x7d\x7d") (some context) none ∧
      renderSource "\x7b\x7b a \x7d\x7d" (some context)
        = renderSource "\x7b\x7b a \x7d\x7d" none) ∧
    (SameOn (Expr.mentions "a") (some context) none ∧
      Expr.evaluate "a" (some context) = Expr.evaluate "a" none) ∧
    (context.get? "a" = none ∧
      SameOn ["a"] (some context) (some (context.insert "a" .undefined))) ∧
    ((∀ name ∈ ["a"], context.get? name = none ∨ context.get? name = some .undefined) ∧
      SameOn ["a"] (some context) none) := by
  intro context
  obtain ⟨hsame, hinsert, hnone⟩ := results_of_sameOn
  obtain ⟨hcompile, hrender, hevaluate⟩ := hsame (some context) none
  have hmissing : context.get? "a" = none := by decide +kernel
  have hall : ∀ name ∈ ["a"], context.get? name = none ∨ context.get? name = some .undefined :=
    fun name hname => .inl (List.mem_singleton.1 hname ▸ hmissing)
  have ha : SameOn ["a"] (some context) none := hnone ["a"] context hall
  have hshelf : chosenParent.mentions = ["a"] := by decide +kernel
  have hsource : Markup.mentions "\x7b\x7b a \x7d\x7d" = ["a"] := by decide +kernel
  have hexpr : Expr.mentions "a" = ["a"] := by decide +kernel
  exact ⟨⟨hshelf ▸ ha, hcompile chosenParent "page" (hshelf ▸ ha)⟩,
    ⟨hsource ▸ ha, hrender _ (hsource ▸ ha)⟩, ⟨hexpr ▸ ha, hevaluate _ (hexpr ▸ ha)⟩,
    ⟨hmissing, hinsert ["a"] context "a" hmissing⟩, hall, ha⟩

end Stencil
