import Stencil.Proofs.Reduction

/-!
# What the builder of expressions accepts

What is built of tokens is derived from their lexemes. In the other direction the builder takes the
lexemes of each phrase where looser frames are open, and then holds something that amounts to what
the phrase derives: operators that complete the phrase make the same of both (`Derivation.reaches`).

Main statement: `build_eq_ok_iff_derived`, that the builder makes of a list of tokens what the
grammar derives from it, and refuses every list with a construct that is left out.
-/

namespace Stencil.Expr

open Stencil.Expr.Derivation (Links Addends Product Factors Signed Power Atom)

variable {strength strength' : Nat} {e : Expr} {frame : Frame} {frames : List Frame}
  {lexemes phrase : List Lexeme} {op : Operator} {token : Token} {b b' : Builder}

/-! ## What is derived is built -/

/-- Wherever the tokens stand, the builder takes their lexemes from one state to another. -/
def Takes (lexemes : List Lexeme) (b b' : Builder) : Prop :=
  ∀ tokens : List Token, tokens.map (·.lexeme) = lexemes → tokens.foldlM Builder.step b = .ok b'

/-- The builder holds an operand. With the frames that operators of at most this strength complete,
it amounts to `e` in front of `frames`. -/
def Amounts (b : Builder) (strength : Nat) (e : Expr) (frames : List Frame) : Prop :=
  ∃ operand isText inner, b = .holding operand isText inner ∧
    ∀ s ≤ strength, reduce s operand inner = reduce s e frames

/-- The builder takes the lexemes, and then holds what amounts to `e` in front of `frames`. -/
def Reaches (lexemes : List Lexeme) (b : Builder) (strength : Nat) (e : Expr)
    (frames : List Frame) : Prop :=
  ∃ b', Takes lexemes b b' ∧ Amounts b' strength e frames

theorem takes_nil (b : Builder) : Takes [] b b := by
  intro tokens h
  rw [List.map_eq_nil_iff.1 h]
  rfl

/-- The builder takes one list of lexemes after the other. -/
theorem Takes.append {b'' : Builder} (h : Takes lexemes b b') (h' : Takes phrase b' b'') :
    Takes (lexemes ++ phrase) b b'' := by
  intro tokens htokens
  obtain ⟨front, back, rfl, hfront, hback⟩ := List.map_eq_append_iff.1 htokens
  rw [List.foldlM_append, h front hfront]
  exact h' back hback

/-- One step takes one lexeme. -/
theorem takes_of_step {lexeme : Lexeme}
    (h : ∀ token : Token, token.lexeme = lexeme → b.step token = .ok b') : Takes [lexeme] b b' := by
  intro tokens htokens
  obtain ⟨token, later, rfl, htoken, hlater⟩ := List.map_eq_cons_iff.1 htokens
  rw [List.map_eq_nil_iff.1 hlater, List.foldlM_cons, h token htoken]
  rfl

/-- Where an operand has to follow, the builder reads a lexeme that starts one. -/
theorem takes_operand {lexeme : Lexeme}
    (h : ∀ token : Token, token.lexeme = lexeme → Builder.operand frames token = .ok b') :
    Takes [lexeme] (.waiting frames) b' :=
  takes_of_step h

/-- A word that is no keyword is taken as an operand. -/
theorem takes_name {word : String} (h : word ∉ keywords) :
    Takes [.name word] (.waiting frames) (.holding (ofWord word) false frames) := by
  apply takes_operand
  intro token htoken
  simp [Builder.operand, htoken, reservedConstruct?_eq_none.2 h]

/-- A sign where an operand has to follow opens a frame. -/
theorem takes_sign (sign : Sign) :
    Takes [.symbol (.operator sign.operator)] (.waiting frames)
      (.waiting (.signed sign :: frames)) := by
  apply takes_operand
  intro token htoken
  cases sign <;> simp [Builder.operand, htoken, Sign.operator]

/-- What amounts to an operand up to one strength does so up to a lesser one. -/
theorem Amounts.mono (h : Amounts b strength' e frames) (hle : strength ≤ strength') :
    Amounts b strength e frames := by
  obtain ⟨operand, isText, inner, hb, hreduce⟩ := h
  exact ⟨operand, isText, inner, hb, fun s hs => hreduce s (Nat.le_trans hs hle)⟩

/-- What amounts to the operand of a frame amounts to what the frame makes of it. -/
theorem Amounts.complete (h : Amounts b strength' e (frame :: frames)) (hle : strength ≤ strength')
    (hframe : strength ≤ frame.strength) : Amounts b strength (frame.complete e) frames := by
  obtain ⟨operand, isText, inner, hb, hreduce⟩ := h
  refine ⟨operand, isText, inner, hb, fun s hs => ?_⟩
  rw [hreduce s (Nat.le_trans hs hle), reduce_cons (Nat.le_trans hs hframe)]

/-- An operand that is held amounts to itself. -/
theorem amounts_holding (strength : Nat) (e : Expr) (isText : Bool) (frames : List Frame) :
    Amounts (.holding e isText frames) strength e frames :=
  ⟨e, isText, frames, rfl, fun _ _ => rfl⟩

/-- An operator behind a phrase of its level is read with that phrase on its left. -/
theorem Amounts.takes_product (h : Amounts b 3 e frames) (hloose : Loose 3 frames)
    (hop : op = .mul ∨ op = .div ∨ op = .mod) :
    Takes [.symbol (.operator op)] b (.waiting (.product e op :: frames)) := by
  obtain ⟨operand, isText, inner, rfl, hreduce⟩ := h
  have hreduced : reduce 3 operand inner = (e, frames) :=
    (hreduce 3 (Nat.le_refl 3)).trans (reduce_of_loose hloose e)
  apply takes_of_step
  intro token htoken
  obtain rfl | rfl | rfl := hop
  all_goals simp [Builder.step, Builder.behind, Builder.operator, htoken, hreduced]

/-- A sign completes the operands of a sum, and opens the frame of their sum. -/
theorem Amounts.takes_sum (h : Amounts b 2 e frames) (hloose : Loose 2 frames)
    (hop : op = .add ∨ op = .sub) :
    Takes [.symbol (.operator op)] b (.waiting (.sum e op :: frames)) := by
  obtain ⟨operand, isText, inner, rfl, hreduce⟩ := h
  have hreduced : reduce 2 operand inner = (e, frames) :=
    (hreduce 2 (Nat.le_refl 2)).trans (reduce_of_loose hloose e)
  apply takes_of_step
  intro token htoken
  obtain rfl | rfl := hop
  all_goals simp [Builder.step, Builder.behind, Builder.operator, htoken, hreduced]

/-- The first comparison completes a sum and opens a chain. -/
theorem Amounts.takes_chain (h : Amounts b 2 e frames) (hloose : Loose 1 frames)
    (op : Comparison) :
    Takes [.symbol (.comparison op)] b (.waiting (.chain e [] op :: frames)) := by
  obtain ⟨operand, isText, inner, rfl, hreduce⟩ := h
  have hreduced : reduce 2 operand inner = (e, frames) :=
    (hreduce 2 (Nat.le_refl 2)).trans (reduce_of_loose (hloose.mono (by decide)) e)
  apply takes_of_step
  intro token htoken
  simp only [Builder.step, Builder.behind, htoken, Builder.comparison, hreduced]
  split
  · rename_i heq
    cases heq
    exact absurd (loose_cons.1 hloose) (by simp [Frame.strength])
  · rename_i heq
    cases heq
    rfl

/-- A later comparison completes the operand in front of it and stays in the chain. -/
theorem Amounts.takes_link {first : Expr} {links : List (Comparison × Expr)} {last : Comparison}
    (h : Amounts b 2 e (.chain first links last :: frames)) (op : Comparison) :
    Takes [.symbol (.comparison op)] b
      (.waiting (.chain first ((last, e) :: links) op :: frames)) := by
  obtain ⟨operand, isText, inner, rfl, hreduce⟩ := h
  have hloose : Loose 2 (.chain first links last :: frames) := loose_cons.2 Nat.one_lt_two
  have hreduced := (hreduce 2 (Nat.le_refl 2)).trans (reduce_of_loose hloose e)
  apply takes_of_step
  intro token htoken
  simp [Builder.step, Builder.behind, htoken, Builder.comparison, hreduced]

/-- A closing parenthesis completes what stands behind its opening one. -/
theorem Amounts.takes_closing (h : Amounts b 1 e (.group :: frames)) :
    Takes [.symbol .closing] b (.holding e false frames) := by
  obtain ⟨operand, isText, inner, rfl, hreduce⟩ := h
  have hloose : Loose 1 (.group :: frames) := loose_cons.2 Nat.zero_lt_one
  have hreduced := (hreduce 1 (Nat.le_refl 1)).trans (reduce_of_loose hloose e)
  apply takes_of_step
  intro token htoken
  simp [Builder.step, Builder.behind, htoken, hreduced]

/-- The end completes all that is open. -/
theorem Amounts.finish (h : Amounts b 1 e []) (column : Nat) : b.finish column = .ok e := by
  obtain ⟨operand, isText, inner, rfl, hreduce⟩ := h
  have hreduced := (hreduce 1 (Nat.le_refl 1)).trans (reduce_of_loose (loose_nil 1) e)
  simp [Builder.finish, hreduced]

/-- Texts behind a text go on with it. -/
theorem takes_texts (frames : List Frame) (text : String) (more : List String) :
    Takes (more.map .text) (.holding (.literal (.str text)) true frames)
      (.holding (.literal (.str (more.foldl (· ++ ·) text))) true frames) := by
  induction more generalizing text with
  | nil => exact takes_nil _
  | cons next more ih =>
    have hnext : Takes [.text next] (.holding (.literal (.str text)) true frames)
        (.holding (.literal (.str (text ++ next))) true frames) := by
      apply takes_of_step
      intro token htoken
      simp [Builder.step, Builder.behind, htoken]
    exact hnext.append (ih (text ++ next))

/-- What is reached from behind some lexemes is reached with them. -/
theorem Reaches.of_takes (h : Takes lexemes b b') (hreaches : Reaches phrase b' strength e frames) :
    Reaches (lexemes ++ phrase) b strength e frames := by
  obtain ⟨b'', htakes, hamounts⟩ := hreaches
  exact ⟨b'', h.append htakes, hamounts⟩

theorem reaches_nil (h : Amounts b strength e frames) : Reaches [] b strength e frames :=
  ⟨b, takes_nil b, h⟩

namespace Derivation

mutual

/-- The builder takes the lexemes of a phrase where frames are open that are looser than the phrase,
and then holds what amounts to the expression that the phrase derives. -/
theorem reaches : ∀ (d : Derivation) {frames : List Frame}, Loose 1 frames →
    Reaches d.lexemes (.waiting frames) 1 d.expr frames
  | comparison first .nil, frames, hloose => by
    obtain ⟨b, htakes, hamounts⟩ := first.reaches (hloose.mono (by decide))
    rw [lexemes, Links.lexemes, List.append_nil]
    exact ⟨b, htakes, hamounts.mono (by decide)⟩
  | comparison first (.cons op operand later), frames, hloose => by
    obtain ⟨b, htakes, hamounts⟩ := first.reaches (hloose.mono (by decide))
    have hchain : Loose 2 (.chain first.expr [] op :: frames) := loose_cons.2 Nat.one_lt_two
    obtain ⟨b', htakes', hamounts'⟩ := operand.reaches hchain
    have hlater := later.reaches hloose hamounts'
    exact .of_takes htakes (.of_takes (hamounts.takes_chain hloose op) (.of_takes htakes' hlater))

/-- Further comparisons are added to the chain that is open, as they stand. -/
theorem Links.reaches : ∀ (links : Links) {b : Builder} {first next : Expr}
    {before : List (Comparison × Expr)} {last : Comparison} {frames : List Frame},
    Loose 1 frames → Amounts b 2 next (.chain first before last :: frames) →
    Reaches links.lexemes b 1 (.chain first (before.reverse ++ (last, next) :: links.operands))
      frames
  | .nil, b, first, next, before, last, frames, hloose, h => by
    have hwhole : Amounts b 1 (.chain first ((last, next) :: before).reverse) frames :=
      h.complete (by decide) (Nat.le_refl 1)
    rw [List.reverse_cons] at hwhole
    exact reaches_nil hwhole
  | .cons op operand later, b, first, next, before, last, frames, hloose, h => by
    have hchain : Loose 2 (.chain first ((last, next) :: before) op :: frames) :=
      loose_cons.2 Nat.one_lt_two
    obtain ⟨b', htakes', hamounts'⟩ := operand.reaches hchain
    have hlater := later.reaches hloose hamounts'
    rw [List.reverse_cons, List.append_assoc] at hlater
    exact .of_takes (h.takes_link op) (.of_takes htakes' hlater)

/-- Behind a sum the builder holds what amounts to it. -/
theorem Sum.reaches : ∀ (d : Derivation.Sum) {frames : List Frame}, Loose 2 frames →
    Reaches d.lexemes (.waiting frames) 2 d.expr frames
  | .sum first more, frames, hloose => by
    obtain ⟨b, htakes, hamounts⟩ := first.reaches (hloose.mono (by decide))
    exact .of_takes htakes (more.reaches hloose (hamounts.mono (by decide)))

/-- Further operands of a sum are applied to what is held, from left to right. -/
theorem Addends.reaches : ∀ (more : Addends) {b : Builder} {left : Expr} {frames : List Frame},
    Loose 2 frames → Amounts b 2 left frames →
    Reaches more.lexemes b 2 (applied left more.operands) frames
  | .nil, b, left, frames, hloose, h => reaches_nil h
  | .cons op hop operand later, b, left, frames, hloose, h => by
    have hsum : Loose 3 (.sum left op :: frames) := loose_cons.2 (Nat.lt_succ_self 2)
    obtain ⟨b', htakes', hamounts'⟩ := operand.reaches hsum
    have hleft : Amounts b' 2 (.binary left op operand.expr) frames :=
      hamounts'.complete (by decide) (Nat.le_refl 2)
    exact .of_takes (h.takes_sum hloose hop) (.of_takes htakes' (later.reaches hloose hleft))

/-- Behind a product the builder holds what amounts to it. -/
theorem Product.reaches : ∀ (d : Product) {frames : List Frame}, Loose 3 frames →
    Reaches d.lexemes (.waiting frames) 3 d.expr frames
  | .product first more, frames, hloose => by
    obtain ⟨b, htakes, hamounts⟩ := first.reaches frames
    exact .of_takes htakes (more.reaches hloose (hamounts.mono (by decide)))

/-- Further operands of a product are applied to what is held, from left to right. -/
theorem Factors.reaches : ∀ (more : Factors) {b : Builder} {left : Expr} {frames : List Frame},
    Loose 3 frames → Amounts b 3 left frames →
    Reaches more.lexemes b 3 (applied left more.operands) frames
  | .nil, b, left, frames, hloose, h => reaches_nil h
  | .cons op hop operand later, b, left, frames, hloose, h => by
    obtain ⟨b', htakes', hamounts'⟩ := operand.reaches (.product left op :: frames)
    have hleft : Amounts b' 3 (.binary left op operand.expr) frames :=
      hamounts'.complete (by decide) (Nat.le_refl 3)
    exact .of_takes (h.takes_product hloose hop) (.of_takes htakes' (later.reaches hloose hleft))

/-- Behind an operand with its signs the builder holds what amounts to it. -/
theorem Signed.reaches : ∀ (d : Signed) (frames : List Frame),
    Reaches d.lexemes (.waiting frames) 4 d.expr frames
  | .sign sign operand, frames => by
    obtain ⟨b, htakes, hamounts⟩ := operand.reaches (.signed sign :: frames)
    exact .of_takes (takes_sign sign) ⟨b, htakes, hamounts.complete (by decide) (Nat.le_refl 4)⟩
  | .power power, frames => power.reaches frames

/-- Behind a power the builder holds what amounts to it. -/
theorem Power.reaches : ∀ (d : Power) (frames : List Frame),
    Reaches d.lexemes (.waiting frames) 4 d.expr frames
  | .base base, frames => by
    obtain ⟨isText, htakes⟩ := base.takes frames
    exact ⟨_, htakes, amounts_holding 4 _ _ _⟩
  | .raised base exponent, frames => by
    obtain ⟨isText, hbase⟩ := base.takes frames
    have hpower : Takes [.symbol (.operator .pow)] (.holding base.expr isText frames)
        (.waiting (.power base.expr :: frames)) := by
      apply takes_of_step
      intro token htoken
      simp [Builder.step, Builder.behind, Builder.operator, htoken]
    obtain ⟨b, htakes, hamounts⟩ := exponent.reaches (.power base.expr :: frames)
    exact .of_takes hbase
      (.of_takes hpower ⟨b, htakes, hamounts.complete (by decide) (Nat.le_refl 4)⟩)

/-- An atom is taken whole and held. -/
theorem Atom.takes : ∀ (d : Atom) (frames : List Frame), ∃ isText,
    Takes d.lexemes (.waiting frames) (.holding d.expr isText frames)
  | .integer n, frames => by
    refine ⟨false, takes_operand fun token htoken => ?_⟩
    simp [Builder.operand, htoken, Atom.expr]
  | .decimal x, frames => by
    refine ⟨false, takes_operand fun token htoken => ?_⟩
    simp [Builder.operand, htoken, Atom.expr]
  | .texts first more, frames => by
    have hfirst : Takes [.text first] (.waiting frames)
        (.holding (.literal (.str first)) true frames) := by
      apply takes_operand
      intro token htoken
      simp [Builder.operand, htoken]
    exact ⟨true, hfirst.append (takes_texts frames first more)⟩
  | .truth b word hword, frames => by
    obtain ⟨hkeyword, hexpr⟩ := ofWord_of_mem_truthWords hword
    rw [Atom.lexemes, Atom.expr, ← hexpr]
    exact ⟨false, takes_name hkeyword⟩
  | .name word hkeyword htruth, frames => by
    rw [Atom.lexemes, Atom.expr, ← ofWord_of_not_mem_truthWords htruth]
    exact ⟨false, takes_name hkeyword⟩
  | .group inner, frames => by
    have hopening : Takes [.symbol .opening] (.waiting frames) (.waiting (.group :: frames)) := by
      apply takes_operand
      intro token htoken
      simp [Builder.operand, htoken]
    -- Inside a parenthesis everything can follow.
    have hgroup : Loose 1 (.group :: frames) := loose_cons.2 Nat.zero_lt_one
    obtain ⟨b, htakes, hamounts⟩ := inner.reaches hgroup
    exact ⟨false, hopening.append (htakes.append hamounts.takes_closing)⟩

end

end Derivation

/-! ## What is left out -/

/-- Whether an operand can end with a lexeme. -/
def EndsOperand : Lexeme → Prop
  | .integer _ | .decimal _ | .text _ | .name _ | .symbol .closing => True
  | .symbol _ => False

/-- The lexemes hold a construct that the language leaves out. -/
inductive LeftOut (lexemes : List Lexeme) : Prop
  /-- A foreign symbol, as that of an attribute, a subscript or an assignment. -/
  | symbol (spelling : String) (h : .symbol (.foreign spelling) ∈ lexemes)
  /-- A keyword, as a boolean operator. -/
  | keyword (word : String) (hword : word ∈ keywords) (h : .name word ∈ lexemes)
  /-- A call: a parenthesis that opens right behind an operand. -/
  | call (before later : List Lexeme) (x : Lexeme) (hx : EndsOperand x)
      (h : lexemes = before ++ x :: .symbol .opening :: later)

/-- The builder reads no token of a kind. -/
def Refuses (lexeme : Lexeme) : Prop :=
  ∀ (b b' : Builder) (token : Token), token.lexeme = lexeme → b.step token ≠ .ok b'

/-- A symbol of a richer language is refused. -/
theorem refuses_foreign (spelling : String) : Refuses (.symbol (.foreign spelling)) := by
  intro b b' token htoken hstep
  cases b with
  | waiting frames => simp [Builder.step, Builder.operand, htoken] at hstep
  | holding e isText frames =>
    simp only [Builder.step, Builder.behind, htoken] at hstep
    split at hstep
    · cases hstep
    · split at hstep <;> cases hstep

/-- A word of a richer language is refused. -/
theorem refuses_keyword {word : String} (h : word ∈ keywords) : Refuses (.name word) := by
  intro b b' token htoken hstep
  have hreserved : (reservedConstruct? word).isSome = true := by
    rw [Option.isSome_iff_ne_none, Ne, reservedConstruct?_eq_none]
    exact not_not_intro h
  cases b with
  | waiting frames => simp [Builder.step, Builder.operand, htoken, hreserved] at hstep
  | holding e isText frames => simp [Builder.step, Builder.behind, htoken] at hstep

/-- Tokens of which one is refused come to no state. -/
theorem not_ok_of_refuses {lexeme : Lexeme} (h : Refuses lexeme) {tokens : List Token}
    (hmem : lexeme ∈ tokens.map (·.lexeme)) (b b' : Builder) :
    tokens.foldlM Builder.step b ≠ .ok b' := by
  intro hrun
  induction tokens generalizing b with
  | nil => cases hmem
  | cons token tokens ih =>
    rw [List.foldlM_cons] at hrun
    obtain ⟨next, hstep, hrest⟩ := bind_eq_ok.1 hrun
    obtain hfirst | hlater := List.mem_cons.1 hmem
    · exact h b next token hfirst.symm hstep
    · exact ih hlater next hrest

/-- Behind the end of an operand the builder holds one. -/
theorem holding_of_endsOperand (hends : EndsOperand token.lexeme) (hstep : b.step token = .ok b') :
    ∃ e isText frames, b' = .holding e isText frames := by
  obtain ⟨lexeme, spelling, column⟩ := token
  cases b with
  | waiting frames =>
    simp only [Builder.step, Builder.operand] at hstep
    split at hstep
    case h_4 =>
      split at hstep
      · cases hstep
      · cases hstep
        exact ⟨_, _, _, rfl⟩
    case h_5 | h_6 | h_7 => cases hends
    all_goals
      cases hstep
      try exact ⟨_, _, _, rfl⟩
  | holding e isText frames =>
    simp only [Builder.step, Builder.behind] at hstep
    split at hstep
    case h_1 | h_2 => cases hends
    case h_4 | h_6 =>
      split at hstep
      · cases hstep
        exact ⟨_, _, _, rfl⟩
      · cases hstep
    case h_5 =>
      split at hstep
      · cases hstep
      · split at hstep <;> cases hstep
    all_goals cases hstep

/-- A parenthesis that opens behind an operand is refused. -/
theorem not_ok_of_call {before : List Token} {x opening : Token} {later : List Token}
    (hx : EndsOperand x.lexeme) (hopening : opening.lexeme = .symbol .opening) (b b' : Builder) :
    (before ++ x :: opening :: later).foldlM Builder.step b ≠ .ok b' := by
  intro hrun
  rw [List.foldlM_append] at hrun
  obtain ⟨next, -, hrun⟩ := bind_eq_ok.1 hrun
  rw [List.foldlM_cons] at hrun
  obtain ⟨held, hstep, hrun⟩ := bind_eq_ok.1 hrun
  obtain ⟨e, isText, frames, rfl⟩ := holding_of_endsOperand hx hstep
  rw [List.foldlM_cons] at hrun
  obtain ⟨_, hcall, -⟩ := bind_eq_ok.1 hrun
  simp [Builder.step, Builder.behind, hopening] at hcall

/-- A list of tokens with a construct that is left out makes no expression. -/
theorem not_ok_of_leftOut {tokens : List Token} (h : LeftOut (tokens.map (·.lexeme)))
    (b b' : Builder) : tokens.foldlM Builder.step b ≠ .ok b' := by
  cases h with
  | symbol spelling hmem => exact not_ok_of_refuses (refuses_foreign spelling) hmem b b'
  | keyword word hword hmem => exact not_ok_of_refuses (refuses_keyword hword) hmem b b'
  | call before later x hx heq =>
    obtain ⟨front, back, rfl, -, hback⟩ := List.map_eq_append_iff.1 heq
    obtain ⟨token, behind, rfl, rfl, hbehind⟩ := List.map_eq_cons_iff.1 hback
    obtain ⟨opening, rest, rfl, hopening, -⟩ := List.map_eq_cons_iff.1 hbehind
    exact not_ok_of_call hx hopening b b'

/-! ## The builder and the grammar -/

/-- What is built is finished from the state behind the last token. -/
theorem build_eq_ok {column : Nat} {tokens : List Token} (h : build column tokens = .ok e) :
    ∃ b, tokens.foldlM Builder.step (.waiting []) = .ok b ∧ b.finish column = .ok e := by
  unfold build at h
  split at h
  · cases h
  · exact bind_eq_ok.1 h

/-- The builder makes of tokens what the grammar derives from their lexemes. -/
theorem build_of_lexemes (d : Derivation) (column : Nat) {tokens : List Token}
    (h : d.lexemes = tokens.map (·.lexeme)) : build column tokens = .ok d.expr := by
  obtain ⟨b, htakes, hamounts⟩ := d.reaches (loose_nil 1)
  have hrun := htakes tokens h.symm
  have hne : tokens.isEmpty = false := by
    cases tokens with
    | nil =>
      cases hrun
      obtain ⟨_, _, _, ⟨⟩, _⟩ := hamounts
    | cons token tokens => rfl
  rw [build, hne, hrun]
  exact hamounts.finish column

/-- The builder makes of tokens the expression that their lexemes derive, and makes nothing else.
Lexemes have at most one derivation, and none where they hold a construct that is left out. -/
theorem build_eq_ok_iff_derived :
    (∀ (column : Nat) (tokens : List Token) (e : Expr), build column tokens = .ok e ↔
      ∃ d : Derivation, d.lexemes = tokens.map (·.lexeme) ∧ d.expr = e) ∧
    Function.Injective Derivation.lexemes ∧
    ∀ (column : Nat) (tokens : List Token) (e : Expr), LeftOut (tokens.map (·.lexeme)) →
      build column tokens ≠ .ok e := by
  refine ⟨?_, Derivation.lexemes_injective, ?_⟩
  · intro column tokens e
    constructor
    · intro h
      obtain ⟨b, hrun, hfinish⟩ := build_eq_ok h
      have hempty : Holds [] (.waiting []) := Opened.nil
      exact derived_of_finish (holds_foldlM hempty hrun) hfinish
    · rintro ⟨d, hlexemes, rfl⟩
      exact build_of_lexemes d column hlexemes
  · intro column tokens e hleftOut h
    obtain ⟨b, hrun, -⟩ := build_eq_ok h
    exact not_ok_of_leftOut hleftOut _ b hrun

/-- A name with parentheses behind it is a call. -/
theorem build_call_ne_ok :
    LeftOut [.name "f", .symbol .opening, .name "x", .symbol .closing] ∧
      build 5 [⟨.name "f", ['f'], 1⟩, ⟨.symbol .opening, ['('], 2⟩, ⟨.name "x", ['x'], 3⟩,
        ⟨.symbol .closing, [')'], 4⟩] ≠ .ok (.name "x") := by
  have hcall : LeftOut [.name "f", .symbol .opening, .name "x", .symbol .closing] :=
    .call [] [.name "x", .symbol .closing] (.name "f") trivial rfl
  exact ⟨hcall, build_eq_ok_iff_derived.2.2 _ _ _ hcall⟩

end Stencil.Expr
