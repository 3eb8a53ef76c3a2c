import Stencil.Proofs.Writes

/-!
# Supplied texts are copied

A template that is the parent of another is rendered with the regions that the child has filled.
What their texts are decides on nothing: rendering puts each of them, as it is, where an insertion
point of its name is rendered (`Renders` says which are), and all else is settled by the names of
the regions.

Main statement: `interpret_parametric`, that over all supplied regions of the same names a template
fails alike, or is rendered with the same parent and with regions that are filled in alike.
-/

namespace Stencil

namespace Markup

/-- Rendering a node into a region `key`, with regions `names` supplied, comes to rendering the node
`inner` into the region `into`, unless it fails before. -/
inductive Renders (context : Option Context) (names : List String) :
    Node → String → Node → String → Prop
  | self (node : Node) (key : String) : Renders context names node key node key
  | template {children : List Node} {child inner : Node} {key into : String}
      (hchild : child ∈ children) (h : Renders context names child key inner into) :
      Renders context names (.template children) key inner into
  | body {condition : List String} {value : Value} {body : List Node} {otherwise : Option Node}
      {child inner : Node} {key into : String}
      (hvalue : Scene.evaluate ⟨context, none⟩ condition = .ok value) (htrue : value.truthy = true)
      (hchild : child ∈ body) (h : Renders context names child key inner into) :
      Renders context names (.conditional condition body otherwise) key inner into
  | otherwise {condition : List String} {value : Value} {body : List Node} {other inner : Node}
      {key into : String}
      (hvalue : Scene.evaluate ⟨context, none⟩ condition = .ok value)
      (hfalse : value.truthy = false) (h : Renders context names other key inner into) :
      Renders context names (.conditional condition body (some other)) key inner into
  | alternative {body : List Node} {child inner : Node} {key into : String}
      (hchild : child ∈ body) (h : Renders context names child key inner into) :
      Renders context names (.alternative body) key inner into
  | region {name : String} {body : List Node} {child inner : Node} {key into : String}
      (hsupplied : name ∉ names) (hname : name ≠ key) (hchild : child ∈ body)
      (h : Renders context names child name inner into) :
      Renders context names (.region name body) key inner into

variable {context : Option Context} {names : List String}

/-- What one of some nodes writes, they all write together. -/
theorem mem_writesAll {names : Option (List String)} {key : String} {nodes : List Node}
    {write : Write} :
    write ∈ writesAll context names key nodes
      ↔ ∃ node ∈ nodes, write ∈ node.writes context names key := by
  induction nodes with
  | nil => simp [writesAll]
  | cons node nodes ih => simp [writesAll, ih]

/-- What is written where rendering comes to is written. -/
theorem Renders.writes_subset {node inner : Node} {key into : String}
    (h : Renders context names node key inner into) :
    inner.writes context (some names) into ⊆ node.writes context (some names) key := by
  induction h with
  | self node key => exact List.Subset.refl _
  | template hchild _ ih =>
    intro write hwrite
    rw [Node.writes]
    exact List.mem_cons_of_mem _ (mem_writesAll.2 ⟨_, hchild, ih hwrite⟩)
  | body hvalue htrue hchild _ ih =>
    intro write hwrite
    simp only [Node.writes, hvalue, if_pos htrue]
    exact List.mem_cons_of_mem _ (mem_writesAll.2 ⟨_, hchild, ih hwrite⟩)
  | otherwise hvalue hfalse _ ih =>
    intro write hwrite
    simp only [Node.writes, hvalue, hfalse, writesOption]
    exact List.mem_cons_of_mem _ (ih hwrite)
  | alternative hchild _ ih =>
    intro write hwrite
    rw [Node.writes]
    exact List.mem_cons_of_mem _ (mem_writesAll.2 ⟨_, hchild, ih hwrite⟩)
  | region hsupplied hname hchild _ ih =>
    intro write hwrite
    simp only [Node.writes, if_neg hsupplied, if_neg hname]
    exact List.mem_cons_of_mem _ (List.mem_cons_of_mem _ (mem_writesAll.2 ⟨_, hchild, ih hwrite⟩))

/-- What a node writes by itself; the nodes inside it write the rest. -/
def Node.ownWrites (context : Option Context) (names : List String) (key : String) :
    Node → List Write
  | .template _ | .alternative _ => [.ensure key]
  | .content text => [.append key text]
  | .output words =>
    match Scene.evaluate ⟨context, none⟩ words with
    | .ok value => [.append key value.text]
    | .error failure => [.ensure key, .fail failure]
  | .parent reference => [.ensure key, .adopt reference]
  | .conditional condition _ _ =>
    match Scene.evaluate ⟨context, none⟩ condition with
    | .ok _ => [.ensure key]
    | .error failure => [.ensure key, .fail failure]
  | .region name _ =>
    if name ∈ names then [.ensure key, .ensure name, .copy key name]
    else [.ensure key, .ensure name]

/-- A write of a conditional is its own, or one of the branch that is taken. -/
theorem mem_writes_conditional {condition : List String} {body : List Node}
    {otherwise : Option Node} {key : String} {write : Write}
    (h : write ∈ (Node.conditional condition body otherwise).writes context (some names) key) :
    write ∈ (Node.conditional condition body otherwise).ownWrites context names key ∨
      ∃ value, Scene.evaluate ⟨context, none⟩ condition = .ok value ∧
        ((value.truthy = true ∧ write ∈ writesAll context (some names) key body) ∨
          value.truthy = false ∧ write ∈ writesOption context (some names) key otherwise) := by
  rw [Node.writes.eq_def] at h
  dsimp only at h
  cases hvalue : Scene.evaluate ⟨context, none⟩ condition with
  | error failure =>
    rw [hvalue] at h
    simp only [Node.ownWrites, hvalue]
    exact .inl h
  | ok value =>
    rw [hvalue, List.mem_cons] at h
    rcases h with rfl | h
    · refine .inl ?_
      simp only [Node.ownWrites, hvalue, List.mem_singleton]
    · dsimp only at h
      refine .inr ⟨value, rfl, ?_⟩
      split at h <;> rename_i htruthy
      · exact .inl ⟨htruthy, h⟩
      · exact .inr ⟨Bool.eq_false_iff.2 htruthy, h⟩

/-- A write of a region is its own, or one of its body where that is rendered into it. -/
theorem mem_writes_region {name : String} {body : List Node} {key : String} {write : Write}
    (h : write ∈ (Node.region name body).writes context (some names) key) :
    write ∈ (Node.region name body).ownWrites context names key ∨
      name ∉ names ∧ name ≠ key ∧ write ∈ writesAll context (some names) name body := by
  rw [Node.writes.eq_def] at h
  dsimp only at h
  rw [Node.ownWrites]
  by_cases hname : name ∈ names
  · rw [if_pos hname] at h ⊢
    exact .inl h
  rw [if_neg hname] at h ⊢
  change write ∈ [Write.ensure key, Write.ensure name] ++ ite _ _ _ at h
  refine (List.mem_append.1 h).imp id fun h => ?_
  split at h
  · cases h
  · rename_i hne
    exact ⟨hname, hne, h⟩

/-- A child is smaller than its node. -/
theorem sizeOf_lt_of_mem_children {node child : Node} (h : child ∈ node.children) :
    sizeOf child < sizeOf node := by
  have hsize := List.sizeOf_lt_of_mem h
  cases node <;> simp [Node.children] at hsize h ⊢ <;> omega

/-- What a node writes it writes by itself, or a smaller one does that rendering comes to next. -/
theorem mem_writes_cases {node : Node} {key : String} {write : Write}
    (h : write ∈ node.writes context (some names) key) :
    write ∈ node.ownWrites context names key ∨
      ∃ next place, write ∈ next.writes context (some names) place ∧ sizeOf next < sizeOf node ∧
        ∀ inner into, Renders context names next place inner into →
          Renders context names node key inner into := by
  -- A node writes by itself or leaves it to a smaller one that it renders.
  cases node with
  | template children =>
    rw [Node.writes, List.mem_cons, mem_writesAll] at h
    refine h.imp List.mem_singleton.2 fun ⟨child, hchild, hwrite⟩ => ?_
    exact ⟨child, key, hwrite, sizeOf_lt_of_mem_children hchild, fun _ _ => .template hchild⟩
  | content text | parent reference =>
    rw [Node.writes] at h
    exact .inl h
  | output words =>
    rw [Node.writes.eq_def] at h
    rw [Node.ownWrites.eq_def]
    exact .inl h
  | conditional condition body otherwise =>
    refine (mem_writes_conditional h).imp id fun ⟨value, hvalue, htaken⟩ => ?_
    rcases htaken with ⟨htrue, hwrite⟩ | ⟨hfalse, hwrite⟩
    · obtain ⟨child, hchild, hwrite⟩ := mem_writesAll.1 hwrite
      exact ⟨child, key, hwrite, sizeOf_lt_of_mem_children hchild,
        fun _ _ => .body hvalue htrue hchild⟩
    · cases otherwise with
      | none => cases hwrite
      | some other =>
        exact ⟨other, key, hwrite, by simp; omega, fun _ _ => .otherwise hvalue hfalse⟩
  | alternative body =>
    rw [Node.writes, List.mem_cons, mem_writesAll] at h
    refine h.imp List.mem_singleton.2 fun ⟨child, hchild, hwrite⟩ => ?_
    exact ⟨child, key, hwrite, sizeOf_lt_of_mem_children hchild, fun _ _ => .alternative hchild⟩
  | region name body =>
    refine (mem_writes_region h).imp id fun ⟨hname, hne, hwrite⟩ => ?_
    obtain ⟨child, hchild, hwrite⟩ := mem_writesAll.1 hwrite
    exact ⟨child, name, hwrite, sizeOf_lt_of_mem_children hchild,
      fun _ _ => .region hname hne hchild⟩

/-- Whatever is written is written by a node that rendering comes to. -/
theorem exists_renders_of_mem_writes {write : Write} (node : Node) (key : String)
    (h : write ∈ node.writes context (some names) key) :
    ∃ inner into, Renders context names node key inner into ∧
      write ∈ inner.ownWrites context names into := by
  rcases mem_writes_cases h with hown | ⟨next, place, hwrite, hsmaller, hnext⟩
  · exact ⟨node, key, .self node key, hown⟩
  · obtain ⟨inner, into, hrenders, hown⟩ := exists_renders_of_mem_writes next place hwrite
    exact ⟨inner, into, hnext inner into hrenders, hown⟩
termination_by sizeOf node

/-- A supplied text is copied by an insertion point of its name only. -/
theorem copy_mem_ownWrites {node : Node} {key into name : String}
    (h : .copy into name ∈ node.ownWrites context names key) :
    into = key ∧ name ∈ names ∧ ∃ body, node = .region name body := by
  cases node with
  | region point body =>
    by_cases hpoint : point ∈ names
    · simp only [Node.ownWrites, if_pos hpoint, List.mem_cons, reduceCtorEq, Write.copy.injEq,
        List.not_mem_nil, or_false, false_or] at h
      obtain ⟨rfl, rfl⟩ := h
      exact ⟨rfl, hpoint, body, rfl⟩
    · simp [Node.ownWrites, if_neg hpoint] at h
  | output words | conditional words =>
    simp only [Node.ownWrites] at h
    split at h <;> simp at h
  | _ => simp [Node.ownWrites] at h

/-- The supplied texts that rendering a template copies are those at the insertion points that it
comes to. -/
theorem copy_mem_writes {node : Node} {key into name : String} :
    .copy into name ∈ node.writes context (some names) key
      ↔ name ∈ names ∧ ∃ body, Renders context names node key (.region name body) into := by
  constructor
  · intro h
    obtain ⟨inner, place, hrenders, hown⟩ := exists_renders_of_mem_writes node key h
    obtain ⟨rfl, hname, body, rfl⟩ := copy_mem_ownWrites hown
    exact ⟨hname, body, hrenders⟩
  · rintro ⟨hname, body, hrenders⟩
    apply hrenders.writes_subset
    simp [Node.writes, hname]

end Markup

/-- The parts of both are the parts of the one and those of the other. -/
theorem mem_merge_parts {part : Part} {parts later : Option (List Part)} :
    (∃ all, parts.merge (· ++ ·) later = some all ∧ part ∈ all)
      ↔ (∃ all, parts = some all ∧ part ∈ all) ∨ ∃ all, later = some all ∧ part ∈ all := by
  cases parts <;> cases later <;> simp

/-- Only a copy of a supplied region writes it as a whole. -/
theorem supplied_mem_parts {write : Write} {region name : String} :
    (∃ parts, write.parts region = some parts ∧ .supplied name ∈ parts)
      ↔ write = .copy region name := by
  cases write with
  | copy key name' =>
    by_cases h : region = key
    · simp [Write.parts, h, eq_comm]
    · simp [Write.parts, h, Ne.symm h]
  | _ => simp [Write.parts]

/-- A region has a part for a supplied text where a write copies it there. -/
theorem supplied_mem_outline {region name : String} {writes : List Write} :
    (∃ parts, outline region writes = some parts ∧ .supplied name ∈ parts)
      ↔ .copy region name ∈ writes := by
  induction writes with
  | nil => simp [outline]
  | cons write writes ih =>
    rw [outline, mem_merge_parts, ih, supplied_mem_parts, List.mem_cons, eq_comm]

/-- Over all regions of the same names that are supplied, a template fails alike, or it is rendered
with the same parent, and each region is filled in from one list of parts: fixed texts, and the
texts that are supplied for the names of the insertion points that are rendered into it. -/
theorem interpret_parametric (node : Markup.Node) (context : Option Context)
    (names : List String) :
    (∃ failure, ∀ supplied : Regions, supplied.names = names →
      interpret node ⟨context, some supplied⟩ = .error failure) ∨
    ∃ (parent : Option String) (outlines : String → Option (List Part)),
      (∀ region name, (∃ parts, outlines region = some parts ∧ .supplied name ∈ parts) ↔
        name ∈ names ∧
          ∃ body, Markup.Renders context names node rootName (.region name body) region) ∧
      ∀ supplied : Regions, supplied.names = names →
        ∃ page, interpret node ⟨context, some supplied⟩ = .ok page ∧ page.parent = parent ∧
          ∀ region, page.regions.get? region = (outlines region).map (fill supplied) := by
  cases hjudge : judgement none (node.writes context (some names) rootName) with
  | error failure =>
    refine .inl ⟨failure, ?_⟩
    rintro supplied rfl
    exact interpret_of_judgement_error hjudge
  | ok parent =>
    refine .inr ⟨parent, (outline · (node.writes context (some names) rootName)), ?_, ?_⟩
    · intro region name
      rw [supplied_mem_outline, Markup.copy_mem_writes]
    · rintro supplied rfl
      exact interpret_of_judgement_ok hjudge

end Stencil
