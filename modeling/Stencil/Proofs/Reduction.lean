import Stencil.Expr.Builder
import Stencil.Proofs.Precedence
import Stencil.Proofs.Results

/-!
# What is built of an expression is derived

The builder decides with strengths what the grammar decides with levels. An operator completes every
frame of at least its own strength, which leaves frames that are `Loose` for it, and what it has
completed is a phrase of the level of that strength (`settled_reduce`). So the frames that stand
open always are beginnings of phrases inside each other, which is what `Opened` says; reading a
token keeps that (`holds_step`).

Main statements: `holds_foldlM`, that what has been built belongs to the lexemes so far, and
`derived_of_finish`, that what is finished is derived from them.
-/

namespace Stencil.Expr

open Stencil.Expr.Derivation (Links Addends Product Factors Signed Power Atom)

/-! ## Frames and phrases -/

/-- The innermost frame binds its operand less tightly than an operator of this strength. -/
def Loose (strength : Nat) (frames : List Frame) : Prop :=
  ∀ frame ∈ frames.head?, frame.strength < strength

/-- The lexemes up to an operand that has to follow, and the frames that they leave open, innermost
first. An operator stands inside looser frames only; a sign, a base or a parenthesis stands
anywhere. -/
inductive Opened : List Lexeme → List Frame → Prop
  | nil : Opened [] []
  | group {lexemes : List Lexeme} {frames : List Frame} (h : Opened lexemes frames) :
      Opened (lexemes ++ [.symbol .opening]) (.group :: frames)
  | signed {lexemes : List Lexeme} {frames : List Frame} (h : Opened lexemes frames)
      (sign : Sign) :
      Opened (lexemes ++ [.symbol (.operator sign.operator)]) (.signed sign :: frames)
  | power {lexemes : List Lexeme} {frames : List Frame} (h : Opened lexemes frames)
      (base : Atom) :
      Opened (lexemes ++ (base.lexemes ++ [.symbol (.operator .pow)])) (.power base.expr :: frames)
  | product {lexemes : List Lexeme} {frames : List Frame} (h : Opened lexemes frames)
      (hloose : Loose 3 frames) (left : Product) {op : Operator}
      (hop : op = .mul ∨ op = .div ∨ op = .mod) :
      Opened (lexemes ++ (left.lexemes ++ [.symbol (.operator op)]))
        (.product left.expr op :: frames)
  | sum {lexemes : List Lexeme} {frames : List Frame} (h : Opened lexemes frames)
      (hloose : Loose 2 frames) (left : Derivation.Sum) {op : Operator}
      (hop : op = .add ∨ op = .sub) :
      Opened (lexemes ++ (left.lexemes ++ [.symbol (.operator op)])) (.sum left.expr op :: frames)
  | chain {lexemes : List Lexeme} {frames : List Frame} (h : Opened lexemes frames)
      (hloose : Loose 1 frames) (first : Derivation.Sum) (links : Links) (op : Comparison) :
      Opened (lexemes ++ (first.lexemes ++ (links.lexemes ++ [.symbol (.comparison op)])))
        (.chain first.expr links.operands.reverse op :: frames)

/-- An expression is derived from lexemes by a phrase of the level that a strength belongs to. -/
inductive Derives : Nat → Expr → List Lexeme → Prop
  | signed (d : Signed) : Derives 4 d.expr d.lexemes
  | product (d : Product) : Derives 3 d.expr d.lexemes
  | sum (d : Derivation.Sum) : Derives 2 d.expr d.lexemes
  | comparison (d : Derivation) : Derives 1 d.expr d.lexemes

/-- The lexemes are those of open frames, which are loose for an operator of this strength, and then
those of a phrase of its level. -/
def Settled (strength : Nat) (lexemes : List Lexeme) (e : Expr) (frames : List Frame) : Prop :=
  ∃ before phrase, lexemes = before ++ phrase ∧ Opened before frames ∧ Loose strength frames ∧
    Derives strength e phrase

/-- What the builder has made of the lexemes so far. -/
def Holds (lexemes : List Lexeme) : Builder → Prop
  | .waiting frames => Opened lexemes frames
  | .holding e isText frames => ∃ before, Opened before frames ∧ ∃ d : Atom, d.expr = e ∧
      lexemes = before ++ d.lexemes ∧ (isText = true → ∃ first more, d = .texts first more)

variable {strength strength' : Nat} {e : Expr} {frame : Frame} {frames : List Frame}
  {lexemes phrase : List Lexeme} {op : Operator}

/-! ## Completing frames -/

theorem loose_nil (strength : Nat) : Loose strength [] := by
  intro frame hframe
  cases hframe

theorem loose_cons : Loose strength (frame :: frames) ↔ frame.strength < strength := by
  simp [Loose]

/-- What is loose for an operator is loose for a stronger one. -/
theorem Loose.mono (h : Loose strength frames) (hle : strength ≤ strength') :
    Loose strength' frames :=
  fun frame hframe => Nat.lt_of_lt_of_le (h frame hframe) hle

/-- What is looser than a sum is a chain, or looser than that. -/
theorem Loose.of_ne_chain (h : Loose 2 frames)
    (hchain : ∀ first links op later, frames ≠ .chain first links op :: later) :
    Loose 1 frames := by
  cases frames with
  | nil => exact loose_nil 1
  | cons frame frames =>
    have hlt := loose_cons.1 h
    refine loose_cons.2 ?_
    cases frame with
    | group => exact Nat.zero_lt_one
    | chain first links op => exact absurd rfl (hchain first links op frames)
    | _ => simp [Frame.strength] at hlt

/-- Loose frames are left open. -/
theorem reduce_of_loose (h : Loose strength frames) (e : Expr) :
    reduce strength e frames = (e, frames) := by
  cases frames with
  | nil => rfl
  | cons frame frames =>
    have := loose_cons.1 h
    rw [reduce, if_neg (by omega)]

/-- A frame that binds at least as tightly is completed. -/
theorem reduce_cons (h : strength ≤ frame.strength) (e : Expr) :
    reduce strength e (frame :: frames) = reduce strength (frame.complete e) frames := by
  rw [reduce, if_pos h]

/-! ## What is built is derived -/

/-- A phrase is by itself one of the next looser level. -/
theorem Derives.loosen (h : Derives (strength + 1) e phrase) (hpos : 1 ≤ strength) :
    Derives strength e phrase := by
  cases h with
  | signed d =>
    have := Derives.product (.product d .nil)
    rwa [Product.expr, Product.lexemes, Factors.lexemes, List.append_nil] at this
  | product d =>
    have := Derives.sum (.sum d .nil)
    rwa [Derivation.Sum.expr, Derivation.Sum.lexemes, Addends.lexemes, List.append_nil] at this
  | sum d =>
    have := Derives.comparison (.comparison d .nil)
    rwa [Derivation.expr, Derivation.lexemes, Links.lexemes, List.append_nil] at this
  | comparison d => cases hpos

/-- It is one of each looser level. -/
theorem Derives.mono (h : Derives strength' e phrase) (hle : strength ≤ strength')
    (hpos : 1 ≤ strength) : Derives strength e phrase := by
  induction hle with
  | refl => exact h
  | @step middle hle ih => exact ih (h.loosen (Nat.le_trans hpos hle))

/-- A signed operand with a sign or a base in front of it is one again. -/
theorem Derives.sign (h : Derives 4 e phrase) (sign : Sign) :
    Derives 4 (.signed sign e) (.symbol (.operator sign.operator) :: phrase) := by
  cases h with
  | signed d => exact .signed (.sign sign d)

/-- A base with an exponent is a phrase like the exponent. -/
theorem Derives.raise (h : Derives 4 e phrase) (base : Atom) :
    Derives 4 (.binary base.expr .pow e)
      (base.lexemes ++ .symbol (.operator .pow) :: phrase) := by
  cases h with
  | signed d => exact .signed (.power (.raised base d))

/-- A product with one more factor. -/
theorem Derives.factor (h : Derives 4 e phrase) (left : Product)
    (hop : op = .mul ∨ op = .div ∨ op = .mod) :
    Derives 3 (.binary left.expr op e) (left.lexemes ++ .symbol (.operator op) :: phrase) := by
  cases h with
  | signed d =>
    obtain ⟨first, more⟩ := left
    have := Derives.product (.product first (more.snoc op hop d))
    rwa [Product.expr, Product.lexemes, Factors.operands_snoc, Factors.lexemes_snoc,
      Derivation.applied_snoc, ← List.append_assoc] at this

/-- A sum with one more addend. -/
theorem Derives.addend (h : Derives 3 e phrase) (left : Derivation.Sum)
    (hop : op = .add ∨ op = .sub) :
    Derives 2 (.binary left.expr op e) (left.lexemes ++ .symbol (.operator op) :: phrase) := by
  cases h with
  | product d =>
    obtain ⟨first, more⟩ := left
    have := Derives.sum (.sum first (more.snoc op hop d))
    rwa [Derivation.Sum.expr, Derivation.Sum.lexemes, Addends.operands_snoc,
      Addends.lexemes_snoc, Derivation.applied_snoc, ← List.append_assoc] at this

/-- A chain with one more link. -/
theorem Derives.link (h : Derives 2 e phrase) (first : Derivation.Sum) (links : Links)
    (op : Comparison) :
    Derives 1 (.chain first.expr (links.operands ++ [(op, e)]))
      (first.lexemes ++ (links.lexemes ++ .symbol (.comparison op) :: phrase)) := by
  cases h with
  | sum d =>
    have := Derives.comparison (.comparison first (links.snoc op d))
    rw [Derivation.expr, Derivation.lexemes, Links.operands_snoc, Links.lexemes_snoc] at this
    cases hlinks : links.operands <;> simpa [hlinks, Derivation.chained] using this

/-- Where the frames are loose, the operand is settled as it is. -/
theorem settled_of_loose (h : Opened lexemes frames) (hloose : Loose strength frames)
    (hderives : Derives strength' e phrase) (hle : strength ≤ strength') (hpos : 1 ≤ strength) :
    Settled strength (lexemes ++ phrase) (reduce strength e frames).1
      (reduce strength e frames).2 := by
  rw [reduce_of_loose hloose]
  exact ⟨lexemes, phrase, rfl, h, hloose, hderives.mono hle hpos⟩

/-- A phrase that fits behind a frame is of a tighter level than the frame, and signed operands fit
behind every frame. -/
theorem le_of_fits (hfits : strength' = 4 ∨ Loose strength' (frame :: frames)) (hle : strength ≤ 4)
    (hframe : strength ≤ frame.strength + 1) : strength ≤ strength' := by
  obtain rfl | hloose := hfits
  · exact hle
  · have := loose_cons.1 hloose
    omega

/-- An operator completes what stands in front of it to a phrase of its own level. -/
theorem settled_reduce (h : Opened lexemes frames) (hderives : Derives strength' e phrase)
    (hfits : strength' = 4 ∨ Loose strength' frames) (hle : strength ≤ strength')
    (hpos : 1 ≤ strength) (hlt : strength ≤ 3) :
    Settled strength (lexemes ++ phrase) (reduce strength e frames).1
      (reduce strength e frames).2 := by
  -- what is complete so far is of the level of `strength'`, which sinks with each frame
  induction h generalizing strength' e phrase with
  | nil => exact settled_of_loose .nil (loose_nil _) hderives hle hpos
  | group h ih => exact settled_of_loose h.group (loose_cons.2 hpos) hderives hle hpos
  | signed h sign ih =>
    have hfour : 4 ≤ strength' := le_of_fits hfits (by decide) (Nat.le_succ 4)
    rw [reduce_cons (Nat.le_succ_of_le hlt), List.append_assoc]
    exact ih ((hderives.mono hfour (by decide)).sign sign) (.inl rfl) (Nat.le_succ_of_le hlt)
  | power h base ih =>
    have hfour : 4 ≤ strength' := le_of_fits hfits (by decide) (Nat.le_succ 4)
    rw [reduce_cons (Nat.le_succ_of_le hlt), List.append_assoc, List.append_assoc]
    exact ih ((hderives.mono hfour (by decide)).raise base) (.inl rfl) (Nat.le_succ_of_le hlt)
  | product h hloose left hop ih =>
    have hfour : 4 ≤ strength' := le_of_fits hfits (by decide) (Nat.le_refl 4)
    rw [reduce_cons hlt, List.append_assoc, List.append_assoc]
    exact ih ((hderives.mono hfour (by decide)).factor left hop) (.inr hloose) hlt
  | sum h hloose left hop ih =>
    by_cases hcompletes : strength ≤ 2
    · have hthree : 3 ≤ strength' :=
        hfits.elim (fun heq => heq ▸ by decide) fun hloose => loose_cons.1 hloose
      rw [reduce_cons hcompletes, List.append_assoc, List.append_assoc]
      exact ih ((hderives.mono hthree (by decide)).addend left hop) (.inr hloose) hcompletes
    · refine settled_of_loose (h.sum hloose left hop) (loose_cons.2 ?_) hderives hle hpos
      exact Nat.lt_of_not_le hcompletes
  | chain h hloose first links op ih =>
    by_cases hcompletes : strength ≤ 1
    · have htwo : 2 ≤ strength' :=
        hfits.elim (fun heq => heq ▸ by decide) fun hloose => loose_cons.1 hloose
      have hlink := (hderives.mono htwo (by decide)).link first links op
      rw [reduce_cons hcompletes]
      have := ih (by simpa [Frame.complete] using hlink) (.inr hloose) hcompletes
      simpa [Frame.complete] using this
    · refine settled_of_loose (h.chain hloose first links op) (loose_cons.2 ?_) hderives hle hpos
      exact Nat.lt_of_not_le hcompletes

variable {token : Token} {isText : Bool} {b b' : Builder}

/-- A search finds nothing exactly if neither the first test nor a later one does. -/
theorem ite_some_eq_none {α : Type} {p : Prop} [Decidable p] {a : α} {x : Option α} :
    (if p then some a else x) = none ↔ ¬ p ∧ x = none := by
  split <;> simp [*]

/-- The words that are reserved are the keywords. -/
theorem reservedConstruct?_eq_none {word : String} :
    reservedConstruct? word = none ↔ word ∉ keywords := by
  simp [reservedConstruct?, keywords, and_assoc, ite_some_eq_none]

/-- A truth value is read as a literal. -/
theorem ofWord_of_mem_truthWords {truth : Bool} {word : String} (h : word ∈ truthWords truth) :
    word ∉ keywords ∧ ofWord word = .literal (.bool truth) := by
  cases truth with
  | false =>
    obtain rfl | rfl : word = "False" ∨ word = "false" := by simpa [truthWords] using h
    all_goals exact ⟨by decide, rfl⟩
  | true =>
    obtain rfl | rfl : word = "True" ∨ word = "true" := by simpa [truthWords] using h
    all_goals exact ⟨by decide, rfl⟩

/-- Any other word is read as a name. -/
theorem ofWord_of_not_mem_truthWords {word : String} (h : ∀ truth, word ∉ truthWords truth) :
    ofWord word = .name word :=
  (if_neg (h true)).trans (if_neg (h false))

/-- A word that is no keyword is an atom. -/
theorem exists_atom_of_word {word : String} (h : word ∉ keywords) :
    ∃ d : Atom, d.expr = ofWord word ∧ d.lexemes = [.name word] := by
  by_cases htruth : ∃ truth, word ∈ truthWords truth
  · obtain ⟨truth, hword⟩ := htruth
    exact ⟨.truth truth word hword, (ofWord_of_mem_truthWords hword).2.symm, rfl⟩
  · have hname : ∀ truth, word ∉ truthWords truth := not_exists.1 htruth
    exact ⟨.name word h hname, (ofWord_of_not_mem_truthWords hname).symm, rfl⟩

/-- An atom behind open frames is what the builder holds. -/
theorem Opened.holds (h : Opened lexemes frames) (d : Atom) :
    Holds (lexemes ++ d.lexemes) (.holding d.expr false frames) :=
  ⟨lexemes, h, d, rfl, rfl, by rintro ⟨⟩⟩

/-- What starts an operand goes on with the derivation. -/
theorem holds_operand (h : Opened lexemes frames) (hstep : Builder.operand frames token = .ok b') :
    Holds (lexemes ++ [token.lexeme]) b' := by
  unfold Builder.operand at hstep
  split at hstep
  case h_1 n hlexeme =>
    cases hstep
    exact hlexeme ▸ h.holds (.integer n)
  case h_2 x hlexeme =>
    cases hstep
    exact hlexeme ▸ h.holds (.decimal x)
  case h_3 s hlexeme =>
    cases hstep
    exact hlexeme ▸ ⟨lexemes, h, .texts s [], rfl, rfl, fun _ => ⟨s, [], rfl⟩⟩
  case h_4 word hlexeme =>
    split at hstep
    · cases hstep
    · rename_i hreserved
      cases hstep
      rw [Option.not_isSome_iff_eq_none, reservedConstruct?_eq_none] at hreserved
      obtain ⟨d, hexpr, hlexemes⟩ := exists_atom_of_word hreserved
      rw [hlexeme, ← hexpr, ← hlexemes]
      exact h.holds d
  -- A sign or a parenthesis opens a frame, and an operand still has to follow.
  case h_5 hlexeme =>
    cases hstep
    exact hlexeme ▸ h.signed .plus
  case h_6 hlexeme =>
    cases hstep
    exact hlexeme ▸ h.signed .minus
  case h_7 hlexeme =>
    cases hstep
    exact hlexeme ▸ h.group
  all_goals cases hstep

/-- A phrase that binds like a product is one. -/
theorem Derives.exists_product (h : Derives 3 e phrase) :
    ∃ d : Product, d.expr = e ∧ d.lexemes = phrase := by
  cases h with
  | product d => exact ⟨d, rfl, rfl⟩

/-- A phrase that binds like a sum is one. -/
theorem Derives.exists_sum (h : Derives 2 e phrase) :
    ∃ d : Derivation.Sum, d.expr = e ∧ d.lexemes = phrase := by
  cases h with
  | sum d => exact ⟨d, rfl, rfl⟩

/-- Every phrase is a comparison. -/
theorem Derives.exists_comparison (h : Derives 1 e phrase) :
    ∃ d : Derivation, d.expr = e ∧ d.lexemes = phrase := by
  cases h with
  | comparison d => exact ⟨d, rfl, rfl⟩

/-- The frames around a settled operand are loose. -/
theorem Settled.loose (h : Settled strength lexemes e frames) : Loose strength frames := by
  obtain ⟨-, -, -, -, hloose, -⟩ := h
  exact hloose

/-- An operator behind a phrase of its level opens a frame. -/
theorem Settled.product (h : Settled 3 lexemes e frames) (hop : op = .mul ∨ op = .div ∨ op = .mod) :
    Opened (lexemes ++ [.symbol (.operator op)]) (.product e op :: frames) := by
  obtain ⟨before, phrase, rfl, hopened, hloose, hderives⟩ := h
  obtain ⟨left, rfl, rfl⟩ := hderives.exists_product
  rw [List.append_assoc]
  exact hopened.product hloose left hop

/-- A settled sum can be the left operand of a sign. -/
theorem Settled.sum (h : Settled 2 lexemes e frames) (hop : op = .add ∨ op = .sub) :
    Opened (lexemes ++ [.symbol (.operator op)]) (.sum e op :: frames) := by
  obtain ⟨before, phrase, rfl, hopened, hloose, hderives⟩ := h
  obtain ⟨left, rfl, rfl⟩ := hderives.exists_sum
  rw [List.append_assoc]
  exact hopened.sum hloose left hop

/-- A comparison behind the first operand of a chain opens it. -/
theorem Settled.chain (h : Settled 2 lexemes e frames) (hloose : Loose 1 frames)
    (op : Comparison) :
    Opened (lexemes ++ [.symbol (.comparison op)]) (.chain e [] op :: frames) := by
  obtain ⟨before, phrase, rfl, hopened, -, hderives⟩ := h
  obtain ⟨first, rfl, rfl⟩ := hderives.exists_sum
  rw [List.append_assoc]
  exact hopened.chain hloose first .nil op

/-- A comparison behind another operand goes on with the chain. -/
theorem Settled.link {first : Expr} {links : List (Comparison × Expr)} {last : Comparison}
    (h : Settled 2 lexemes e (.chain first links last :: frames)) (op : Comparison) :
    Opened (lexemes ++ [.symbol (.comparison op)])
      (.chain first ((last, e) :: links) op :: frames) := by
  obtain ⟨before, phrase, rfl, hopened, -, hderives⟩ := h
  obtain ⟨next, rfl, rfl⟩ := hderives.exists_sum
  cases hopened with
  | chain hopened hloose first links last =>
    have := hopened.chain hloose first (links.snoc last next) op
    simpa [Links.operands_snoc, Links.lexemes_snoc] using this

/-- A parenthesis behind a comparison in parentheses closes it. -/
theorem Settled.group (h : Settled 1 lexemes e (.group :: frames)) :
    Holds (lexemes ++ [.symbol .closing]) (.holding e false frames) := by
  obtain ⟨before, phrase, rfl, hopened, -, hderives⟩ := h
  obtain ⟨inner, rfl, rfl⟩ := hderives.exists_comparison
  cases hopened with
  | group hopened =>
    have := hopened.holds (.group inner)
    simpa [Atom.lexemes, Atom.expr] using this

/-- The expression that a comparison without open frames derives. -/
theorem Settled.derivation (h : Settled 1 lexemes e []) :
    ∃ d : Derivation, d.lexemes = lexemes ∧ d.expr = e := by
  obtain ⟨before, phrase, rfl, hopened, -, hderives⟩ := h
  obtain ⟨d, rfl, rfl⟩ := hderives.exists_comparison
  cases hopened
  exact ⟨d, rfl, rfl⟩

/-- Behind an atom, every operator finds a phrase of its level. -/
theorem settled_atom (h : Opened lexemes frames) (d : Atom) (hpos : 1 ≤ strength)
    (hlt : strength ≤ 3) :
    Settled strength (lexemes ++ d.lexemes) (reduce strength d.expr frames).1
      (reduce strength d.expr frames).2 :=
  settled_reduce h (.signed (.power (.base d))) (.inl rfl) (Nat.le_succ_of_le hlt) hpos hlt

/-- An operator behind an atom completes what binds tighter, and opens a frame. -/
theorem holds_operator (h : Opened lexemes frames) (d : Atom) (op : Operator) :
    Holds (lexemes ++ d.lexemes ++ [.symbol (.operator op)])
      (Builder.operator d.expr frames op) := by
  cases op with
  | pow =>
    rw [List.append_assoc]
    exact h.power d
  | add => exact (settled_atom h d (by decide) (by decide)).sum (.inl rfl)
  | sub => exact (settled_atom h d (by decide) (by decide)).sum (.inr rfl)
  | mul => exact (settled_atom h d (by decide) (by decide)).product (.inl rfl)
  | div => exact (settled_atom h d (by decide) (by decide)).product (.inr (.inl rfl))
  | mod => exact (settled_atom h d (by decide) (by decide)).product (.inr (.inr rfl))

/-- So does a comparison, which then belongs to the chain that is open. -/
theorem holds_comparison (h : Opened lexemes frames) (d : Atom) (op : Comparison) :
    Holds (lexemes ++ d.lexemes ++ [.symbol (.comparison op)])
      (Builder.comparison d.expr frames op) := by
  have hsettled : Settled 2 _ _ _ := settled_atom h d (by decide) (by decide)
  unfold Builder.comparison
  split
  · rename_i first links last frames' hreduce
    rw [hreduce] at hsettled
    exact hsettled.link op
  · rename_i frames' hchain hreduce
    rw [hreduce] at hsettled
    have hloose : Loose 2 frames' := hsettled.loose
    exact hsettled.chain (hloose.of_ne_chain hchain) op

/-- What follows an operand goes on with the derivation. -/
theorem holds_behind (h : Holds lexemes (.holding e isText frames))
    (hstep : Builder.behind e isText frames token = .ok b') :
    Holds (lexemes ++ [token.lexeme]) b' := by
  obtain ⟨before, hopened, d, rfl, rfl, htext⟩ := h
  unfold Builder.behind at hstep
  split at hstep
  case h_1 op hlexeme =>
    cases hstep
    exact hlexeme ▸ holds_operator hopened d op
  case h_2 op hlexeme =>
    cases hstep
    exact hlexeme ▸ holds_comparison hopened d op
  -- A parenthesis closes what is left when everything inside of it is completed.
  case h_4 hlexeme =>
    split at hstep
    · rename_i hreduce
      cases hstep
      have hsettled : Settled 1 _ _ _ := settled_atom hopened d (by decide) (by decide)
      rw [hreduce] at hsettled
      exact hlexeme ▸ hsettled.group
    · cases hstep
  case h_5 =>
    split at hstep
    · cases hstep
    · split at hstep <;> cases hstep
  -- A text behind a text goes on with the same atom.
  case h_6 s hlexeme =>
    split at hstep
    · rename_i t hliteral
      cases hstep
      obtain ⟨first, more, rfl⟩ := htext rfl
      cases hliteral
      refine ⟨before, hopened, .texts first (more ++ [s]), ?_, ?_, fun _ => ⟨_, _, rfl⟩⟩
      · simp [Atom.expr]
      · simp [Atom.lexemes, hlexeme]
    · cases hstep
  all_goals cases hstep

/-- Reading a token keeps what is built and the lexemes together. -/
theorem holds_step (h : Holds lexemes b) (hstep : b.step token = .ok b') :
    Holds (lexemes ++ [token.lexeme]) b' := by
  cases b with
  | waiting frames => exact holds_operand h hstep
  | holding e isText frames => exact holds_behind h hstep

/-- So does reading tokens one after another. -/
theorem holds_foldlM {tokens : List Token} (h : Holds lexemes b)
    (hrun : tokens.foldlM Builder.step b = .ok b') :
    Holds (lexemes ++ tokens.map (·.lexeme)) b' :=
  foldlM_keeps (P := Holds) (fun h hstep => holds_step h hstep) h hrun

/-- What the builder finishes is derived from the lexemes so far. -/
theorem derived_of_finish {column : Nat} (h : Holds lexemes b) (hfinish : b.finish column = .ok e) :
    ∃ d : Derivation, d.lexemes = lexemes ∧ d.expr = e := by
  cases b with
  | waiting frames => cases hfinish
  | holding atom isText frames =>
    obtain ⟨before, hopened, d, rfl, rfl, -⟩ := h
    have hsettled : Settled 1 _ _ _ := settled_atom hopened d (by decide) (by decide)
    simp only [Builder.finish] at hfinish
    split at hfinish
    · rename_i hreduce
      cases hfinish
      rw [hreduce] at hsettled
      exact hsettled.derivation
    · cases hfinish

end Stencil.Expr
