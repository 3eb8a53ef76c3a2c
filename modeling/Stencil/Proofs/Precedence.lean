import Stencil.Expr.Lexeme

/-!
# The grammar of expressions

Every level of precedence is a phrase of its own, from comparisons, which bind least, to atoms:

    comparison := sum (("==" | "!=" | "<" | "<=" | ">" | ">=") sum)*
    sum        := product (("+" | "-") product)*
    product    := signed (("*" | "/" | "%") signed)*
    signed     := ("+" | "-") signed | power
    power      := atom ("**" signed)?
    atom       := number | text+ | truth value | name | "(" comparison ")"

A `Derivation` is a proof tree of this grammar. It has one type for each phrase, with the names of
the phrases, and one for what follows the first operand of each of the first three. Its `lexemes`
are those that it stands over, each of them once and in order, and its `expr` is the expression
that it derives from them.

Main statement: `Derivation.lexemes_injective`, that lexemes have at most one derivation.
-/

namespace Stencil.Expr

/-! ## Words -/

/-- The words of richer expression languages, which are no names here. -/
def keywords : List String :=
  ["and", "or", "not", "is", "in", "lambda", "if", "else", "await", "yield", "for", "while",
   "import", "from", "def", "class", "return", "del", "global", "nonlocal", "assert", "pass",
   "break", "continue", "raise", "try", "except", "finally", "with", "as", "async", "elif"]

/-- The spellings of a truth value. -/
def truthWords : Bool → List String
  | true => ["True", "true"]
  | false => ["False", "false"]

/-- How a sign is written. -/
def Sign.operator : Sign → Operator
  | .plus => .add
  | .minus => .sub

/-! ## Derivations -/

mutual

/-- A proof tree of the grammar: operands with comparisons between them. -/
inductive Derivation where
  | comparison (first : Derivation.Sum) (links : Derivation.Links)

/-- What follows the first operand of a chain of comparisons. -/
inductive Derivation.Links where
  | nil
  | cons (op : Comparison) (operand : Derivation.Sum) (later : Derivation.Links)

inductive Derivation.Sum where
  | sum (first : Derivation.Product) (more : Derivation.Addends)

/-- What follows the first operand of a sum. -/
inductive Derivation.Addends where
  | nil
  | cons (op : Operator) (hop : op = .add ∨ op = .sub) (operand : Derivation.Product)
      (later : Derivation.Addends)

inductive Derivation.Product where
  | product (first : Derivation.Signed) (more : Derivation.Factors)

/-- What follows the first operand of a product. -/
inductive Derivation.Factors where
  | nil
  | cons (op : Operator) (hop : op = .mul ∨ op = .div ∨ op = .mod) (operand : Derivation.Signed)
      (later : Derivation.Factors)

inductive Derivation.Signed where
  | sign (sign : Sign) (operand : Derivation.Signed)
  | power (power : Derivation.Power)

inductive Derivation.Power where
  | base (base : Derivation.Atom)
  | raised (base : Derivation.Atom) (exponent : Derivation.Signed)

inductive Derivation.Atom where
  | integer (n : Int64)
  | decimal (x : Float)
  /-- Quoted texts next to each other, which are one text. -/
  | texts (first : String) (more : List String)
  | truth (b : Bool) (word : String) (hword : word ∈ truthWords b)
  | name (word : String) (hkeyword : word ∉ keywords) (htruth : ∀ b, word ∉ truthWords b)
  | group (inner : Derivation)

end

namespace Derivation

mutual

/-- The lexemes that a derivation stands over. -/
def lexemes : Derivation → List Lexeme
  | comparison first links => first.lexemes ++ links.lexemes

def Links.lexemes : Links → List Lexeme
  | .nil => []
  | .cons op operand later => .symbol (.comparison op) :: (operand.lexemes ++ later.lexemes)

def Sum.lexemes : Derivation.Sum → List Lexeme
  | .sum first more => first.lexemes ++ more.lexemes

def Addends.lexemes : Addends → List Lexeme
  | .nil => []
  | .cons op _ operand later => .symbol (.operator op) :: (operand.lexemes ++ later.lexemes)

def Product.lexemes : Product → List Lexeme
  | .product first more => first.lexemes ++ more.lexemes

def Factors.lexemes : Factors → List Lexeme
  | .nil => []
  | .cons op _ operand later => .symbol (.operator op) :: (operand.lexemes ++ later.lexemes)

def Signed.lexemes : Signed → List Lexeme
  | .sign sign operand => .symbol (.operator sign.operator) :: operand.lexemes
  | .power power => power.lexemes

def Power.lexemes : Power → List Lexeme
  | .base base => base.lexemes
  | .raised base exponent => base.lexemes ++ .symbol (.operator .pow) :: exponent.lexemes

def Atom.lexemes : Atom → List Lexeme
  | .integer n => [.integer n]
  | .decimal x => [.decimal x]
  | .texts first more => (first :: more).map .text
  | .truth _ word _ => [.name word]
  | .name word _ _ => [.name word]
  | .group inner => .symbol .opening :: (inner.lexemes ++ [.symbol .closing])

end

/-- A single operand is itself, and several are a chain. -/
def chained (first : Expr) : List (Comparison × Expr) → Expr
  | [] => first
  | link :: links => .chain first (link :: links)

/-- Operators of one level are applied from left to right. -/
def applied (first : Expr) (more : List (Operator × Expr)) : Expr :=
  more.foldl (fun left next => .binary left next.1 next.2) first

mutual

/-- The expression that a derivation derives. -/
def expr : Derivation → Expr
  | comparison first links => chained first.expr links.operands

def Links.operands : Links → List (Comparison × Expr)
  | .nil => []
  | .cons op operand later => (op, operand.expr) :: later.operands

def Sum.expr : Derivation.Sum → Expr
  | .sum first more => applied first.expr more.operands

def Addends.operands : Addends → List (Operator × Expr)
  | .nil => []
  | .cons op _ operand later => (op, operand.expr) :: later.operands

def Product.expr : Product → Expr
  | .product first more => applied first.expr more.operands

def Factors.operands : Factors → List (Operator × Expr)
  | .nil => []
  | .cons op _ operand later => (op, operand.expr) :: later.operands

def Signed.expr : Signed → Expr
  | .sign sign operand => .signed sign operand.expr
  | .power power => power.expr

def Power.expr : Power → Expr
  | .base base => base.expr
  | .raised base exponent => .binary base.expr .pow exponent.expr

def Atom.expr : Atom → Expr
  | .integer n => .literal (.int n)
  | .decimal x => .literal (.float x)
  | .texts first more => .literal (.str (more.foldl (· ++ ·) first))
  | .truth b _ _ => .literal (.bool b)
  | .name word _ _ => .name word
  | .group inner => inner.expr

end

/-! ## One more operand -/

/-- The links and one more behind them. -/
def Links.snoc : Links → Comparison → Derivation.Sum → Links
  | .nil, op, operand => .cons op operand .nil
  | .cons op' operand' later, op, operand => .cons op' operand' (later.snoc op operand)

def Addends.snoc : Addends → (op : Operator) → op = .add ∨ op = .sub → Product → Addends
  | .nil, op, hop, operand => .cons op hop operand .nil
  | .cons op' hop' operand' later, op, hop, operand =>
    .cons op' hop' operand' (later.snoc op hop operand)

def Factors.snoc : Factors → (op : Operator) → op = .mul ∨ op = .div ∨ op = .mod → Signed → Factors
  | .nil, op, hop, operand => .cons op hop operand .nil
  | .cons op' hop' operand' later, op, hop, operand =>
    .cons op' hop' operand' (later.snoc op hop operand)

/-- A comparison at the end of a chain adds its lexemes at the end. -/
theorem Links.lexemes_snoc (op : Comparison) (operand : Derivation.Sum) : ∀ links : Links,
    (links.snoc op operand).lexemes
      = links.lexemes ++ .symbol (.comparison op) :: operand.lexemes
  | .nil => by simp [Links.snoc, Links.lexemes]
  | .cons op' operand' later => by
    simp [Links.snoc, Links.lexemes, Links.lexemes_snoc op operand later]

/-- A comparison at the end of a chain adds its operand at the end. -/
theorem Links.operands_snoc (op : Comparison) (operand : Derivation.Sum) : ∀ links : Links,
    (links.snoc op operand).operands = links.operands ++ [(op, operand.expr)]
  | .nil => by simp [Links.snoc, Links.operands]
  | .cons op' operand' later => by
    simp [Links.snoc, Links.operands, Links.operands_snoc op operand later]

variable {op : Operator}

/-- One more operand of a sum adds its lexemes at the end. -/
theorem Addends.lexemes_snoc (hop : op = .add ∨ op = .sub) (operand : Product) :
    ∀ more : Addends, (more.snoc op hop operand).lexemes
      = more.lexemes ++ .symbol (.operator op) :: operand.lexemes
  | .nil => by simp [Addends.snoc, Addends.lexemes]
  | .cons op' hop' operand' later => by
    simp [Addends.snoc, Addends.lexemes, Addends.lexemes_snoc hop operand later]

/-- One more operand of a sum comes after the others. -/
theorem Addends.operands_snoc (hop : op = .add ∨ op = .sub) (operand : Product) :
    ∀ more : Addends, (more.snoc op hop operand).operands = more.operands ++ [(op, operand.expr)]
  | .nil => by simp [Addends.snoc, Addends.operands]
  | .cons op' hop' operand' later => by
    simp [Addends.snoc, Addends.operands, Addends.operands_snoc hop operand later]

/-- One more operand of a product adds its lexemes at the end. -/
theorem Factors.lexemes_snoc (hop : op = .mul ∨ op = .div ∨ op = .mod) (operand : Signed) :
    ∀ more : Factors, (more.snoc op hop operand).lexemes
      = more.lexemes ++ .symbol (.operator op) :: operand.lexemes
  | .nil => by simp [Factors.snoc, Factors.lexemes]
  | .cons op' hop' operand' later => by
    simp [Factors.snoc, Factors.lexemes, Factors.lexemes_snoc hop operand later]

/-- One more operand of a product comes after the others. -/
theorem Factors.operands_snoc (hop : op = .mul ∨ op = .div ∨ op = .mod) (operand : Signed) :
    ∀ more : Factors, (more.snoc op hop operand).operands = more.operands ++ [(op, operand.expr)]
  | .nil => by simp [Factors.snoc, Factors.operands]
  | .cons op' hop' operand' later => by
    simp [Factors.snoc, Factors.operands, Factors.operands_snoc hop operand later]

/-- The operator behind the others is applied last. -/
theorem applied_snoc (first : Expr) (more : List (Operator × Expr)) (op : Operator)
    (operand : Expr) :
    applied first (more ++ [(op, operand)]) = .binary (applied first more) op operand := by
  rw [applied, List.foldl_append]
  rfl

/-! ## Uniqueness -/

/-- How tightly a lexeme behind a phrase binds to it; one that does not go on with it has none. -/
def pull : Lexeme → Nat
  | .text _ => 5
  | .symbol (.operator .pow) => 4
  | .symbol (.operator .mul) | .symbol (.operator .div) | .symbol (.operator .mod) => 3
  | .symbol (.operator .add) | .symbol (.operator .sub) => 2
  | .symbol (.comparison _) => 1
  | _ => 0

/-- Behind a phrase of a strength the lexemes do not go on with it. -/
def Stops (strength : Nat) (s : List Lexeme) : Prop := ∀ x ∈ s.head?, pull x < strength

variable {s t : List Lexeme}

/-- What stops a loose phrase stops one that binds closer. -/
theorem Stops.mono {strength strength' : Nat} (h : Stops strength s)
    (hle : strength ≤ strength') : Stops strength' s :=
  fun x hx => Nat.lt_of_lt_of_le (h x hx) hle

theorem stops_nil (strength : Nat) : Stops strength [] := by
  intro x hx
  cases hx

/-- A phrase stops at a lexeme that pulls less than it binds. -/
theorem stops_cons {strength : Nat} {x : Lexeme} (h : pull x < strength) :
    Stops strength (x :: s) := by
  intro y hy
  cases hy
  exact h

/-- Where a phrase stops, no lexeme follows that goes on with it. -/
theorem Stops.ne_cons {strength : Nat} {x : Lexeme} (h : Stops strength s)
    (hx : strength ≤ pull x) : s ≠ x :: t := by
  rintro rfl
  have := h x rfl
  omega

/-- The operands of a chain stop at the next comparison of it, and at its end. -/
theorem Links.stops (links : Links) (h : Stops 1 s) : Stops 2 (links.lexemes ++ s) := by
  cases links with
  | nil => exact h.mono (by decide)
  | cons op operand later => exact stops_cons Nat.one_lt_two

/-- The operands of a sum stop at the next sign of it, and at its end. -/
theorem Addends.stops (more : Addends) (h : Stops 2 s) : Stops 3 (more.lexemes ++ s) := by
  cases more with
  | nil => exact h.mono (by decide)
  | cons op hop operand later =>
    obtain rfl | rfl := hop
    all_goals exact stops_cons (by decide)

/-- The operands of a product stop at the next operator of it, and at its end. -/
theorem Factors.stops (more : Factors) (h : Stops 3 s) : Stops 4 (more.lexemes ++ s) := by
  cases more with
  | nil => exact h.mono (by decide)
  | cons op hop operand later =>
    obtain rfl | rfl | rfl := hop
    all_goals exact stops_cons (by decide)

/-- The lexemes of an atom start with no symbol but a parenthesis. -/
theorem Atom.lexemes_append_ne (atom : Atom) {symbol : Symbol} (h : symbol ≠ .opening) :
    atom.lexemes ++ s ≠ .symbol symbol :: t := by
  intro heq
  cases atom with
  | group inner =>
    cases heq
    exact h rfl
  | _ => cases heq

/-- A power starts with an atom, and the only symbol that an atom starts with is a parenthesis. -/
theorem Power.lexemes_append_ne (power : Power) {symbol : Symbol} (h : symbol ≠ .opening) :
    power.lexemes ++ s ≠ .symbol symbol :: t := by
  cases power with
  | base base => exact base.lexemes_append_ne h
  | raised base exponent =>
    rw [Power.lexemes, List.append_assoc]
    exact base.lexemes_append_ne h

/-- Texts are cut in one way only where no further text follows. -/
theorem texts_append_inj {more more' : List String} (hs : Stops 5 s) (ht : Stops 5 t)
    (h : more.map Lexeme.text ++ s = more'.map Lexeme.text ++ t) : more = more' ∧ s = t := by
  induction more generalizing more' with
  | nil =>
    cases more' with
    | nil => exact ⟨rfl, h⟩
    | cons text' more' => exact absurd h (hs.ne_cons (Nat.le_refl 5))
  | cons text more ih =>
    cases more' with
    | nil => exact absurd h.symm (ht.ne_cons (Nat.le_refl 5))
    | cons text' more' =>
      obtain ⟨htext, hmore⟩ := List.cons.inj h
      cases htext
      obtain ⟨rfl, rfl⟩ := ih hmore
      exact ⟨rfl, rfl⟩

/-- A word spells one truth value at most. -/
theorem truthWords_disjoint {b b' : Bool} {word : String} (h : word ∈ truthWords b)
    (h' : word ∈ truthWords b') : b = b' := by
  cases b <;> cases b' <;> simp_all [truthWords] <;> grind

/-- A power does not start with a sign. -/
theorem Signed.power_ne_sign {power : Power} {sign : Sign} {operand : Signed} :
    (Signed.power power).lexemes ++ s ≠ (Signed.sign sign operand).lexemes ++ t := by
  refine power.lexemes_append_ne ?_
  rintro ⟨⟩

mutual

/-- Lexemes are cut in one way only behind the phrase that they start with, where what follows does
not go on with it. -/
theorem unique : ∀ (d e : Derivation) {s t : List Lexeme}, Stops 1 s → Stops 1 t →
    d.lexemes ++ s = e.lexemes ++ t → d = e ∧ s = t
  | comparison first links, comparison first' links', s, t, hs, ht, h => by
    rw [lexemes, lexemes, List.append_assoc, List.append_assoc] at h
    obtain ⟨rfl, hlinks⟩ := first.unique first' (links.stops hs) (links'.stops ht) h
    obtain ⟨rfl, rfl⟩ := links.unique links' hs ht hlinks
    exact ⟨rfl, rfl⟩

/-- Comparisons in front of what stops a chain are the same where the lexemes are. -/
theorem Links.unique : ∀ (d e : Links) {s t : List Lexeme}, Stops 1 s → Stops 1 t →
    d.lexemes ++ s = e.lexemes ++ t → d = e ∧ s = t
  | .nil, .nil, s, t, hs, ht, h => ⟨rfl, h⟩
  | .nil, .cons .., s, t, hs, ht, h => absurd h (hs.ne_cons (Nat.le_refl 1))
  | .cons .., .nil, s, t, hs, ht, h => absurd h.symm (ht.ne_cons (Nat.le_refl 1))
  | .cons op operand later, .cons op' operand' later', s, t, hs, ht, h => by
    rw [Links.lexemes, Links.lexemes, List.cons_append, List.cons_append, List.append_assoc,
      List.append_assoc] at h
    obtain ⟨hop, hoperand⟩ := List.cons.inj h
    obtain ⟨rfl, hlater⟩ := operand.unique operand' (later.stops hs) (later'.stops ht) hoperand
    obtain ⟨rfl, rfl⟩ := later.unique later' hs ht hlater
    cases hop
    exact ⟨rfl, rfl⟩

/-- Two sums in front of what stops a sum are the same where the lexemes are. -/
theorem Sum.unique : ∀ (d e : Derivation.Sum) {s t : List Lexeme}, Stops 2 s → Stops 2 t →
    d.lexemes ++ s = e.lexemes ++ t → d = e ∧ s = t
  | .sum first more, .sum first' more', s, t, hs, ht, h => by
    rw [Sum.lexemes, Sum.lexemes, List.append_assoc, List.append_assoc] at h
    obtain ⟨rfl, hmore⟩ := first.unique first' (more.stops hs) (more'.stops ht) h
    obtain ⟨rfl, rfl⟩ := more.unique more' hs ht hmore
    exact ⟨rfl, rfl⟩

/-- The further operands of two sums are, under the same condition. -/
theorem Addends.unique : ∀ (d e : Addends) {s t : List Lexeme}, Stops 2 s → Stops 2 t →
    d.lexemes ++ s = e.lexemes ++ t → d = e ∧ s = t
  | .nil, .nil, s, t, hs, ht, h => ⟨rfl, h⟩
  | .nil, .cons op hop operand later, s, t, hs, ht, h => by
    refine absurd h (hs.ne_cons ?_)
    obtain rfl | rfl := hop
    all_goals exact Nat.le_refl 2
  | .cons op hop operand later, .nil, s, t, hs, ht, h => by
    refine absurd h.symm (ht.ne_cons ?_)
    obtain rfl | rfl := hop
    all_goals exact Nat.le_refl 2
  | .cons op hop operand later, .cons op' hop' operand' later', s, t, hs, ht, h => by
    rw [Addends.lexemes, Addends.lexemes, List.cons_append, List.cons_append,
      List.append_assoc, List.append_assoc] at h
    obtain ⟨hop, hoperand⟩ := List.cons.inj h
    obtain ⟨rfl, hlater⟩ := operand.unique operand' (later.stops hs) (later'.stops ht) hoperand
    obtain ⟨rfl, rfl⟩ := later.unique later' hs ht hlater
    cases hop
    exact ⟨rfl, rfl⟩

/-- Two products in front of what stops a product are the same where the lexemes are. -/
theorem Product.unique : ∀ (d e : Product) {s t : List Lexeme}, Stops 3 s → Stops 3 t →
    d.lexemes ++ s = e.lexemes ++ t → d = e ∧ s = t
  | .product first more, .product first' more', s, t, hs, ht, h => by
    rw [Product.lexemes, Product.lexemes, List.append_assoc, List.append_assoc] at h
    obtain ⟨rfl, hmore⟩ := first.unique first' (more.stops hs) (more'.stops ht) h
    obtain ⟨rfl, rfl⟩ := more.unique more' hs ht hmore
    exact ⟨rfl, rfl⟩

/-- The further operands of two products are, under the same condition. -/
theorem Factors.unique : ∀ (d e : Factors) {s t : List Lexeme}, Stops 3 s → Stops 3 t →
    d.lexemes ++ s = e.lexemes ++ t → d = e ∧ s = t
  | .nil, .nil, s, t, hs, ht, h => ⟨rfl, h⟩
  | .nil, .cons op hop operand later, s, t, hs, ht, h => by
    refine absurd h (hs.ne_cons ?_)
    obtain rfl | rfl | rfl := hop
    all_goals exact Nat.le_refl 3
  | .cons op hop operand later, .nil, s, t, hs, ht, h => by
    refine absurd h.symm (ht.ne_cons ?_)
    obtain rfl | rfl | rfl := hop
    all_goals exact Nat.le_refl 3
  | .cons op hop operand later, .cons op' hop' operand' later', s, t, hs, ht, h => by
    rw [Factors.lexemes, Factors.lexemes, List.cons_append, List.cons_append,
      List.append_assoc, List.append_assoc] at h
    obtain ⟨hop, hoperand⟩ := List.cons.inj h
    obtain ⟨rfl, hlater⟩ := operand.unique operand' (later.stops hs) (later'.stops ht) hoperand
    obtain ⟨rfl, rfl⟩ := later.unique later' hs ht hlater
    cases hop
    exact ⟨rfl, rfl⟩

/-- Two operands with their signs in front of what stops an operand are the same where the lexemes
are: a power does not start with a sign. -/
theorem Signed.unique : ∀ (d e : Signed) {s t : List Lexeme}, Stops 4 s → Stops 4 t →
    d.lexemes ++ s = e.lexemes ++ t → d = e ∧ s = t
  | .sign sign operand, .sign sign' operand', s, t, hs, ht, h => by
    obtain ⟨hsign, hoperand⟩ := List.cons.inj h
    obtain ⟨rfl, rfl⟩ := operand.unique operand' hs ht hoperand
    cases sign <;> cases sign' <;> cases hsign
    all_goals exact ⟨rfl, rfl⟩
  | .sign .., .power .., s, t, hs, ht, h => absurd h.symm Signed.power_ne_sign
  | .power .., .sign .., s, t, hs, ht, h => absurd h Signed.power_ne_sign
  | .power power, .power power', s, t, hs, ht, h => by
    obtain ⟨rfl, rfl⟩ := power.unique power' hs ht h
    exact ⟨rfl, rfl⟩

/-- Two powers are, under the same condition: what stops an operand is no `**`, so both atoms have
an exponent or neither has. -/
theorem Power.unique : ∀ (d e : Power) {s t : List Lexeme}, Stops 4 s → Stops 4 t →
    d.lexemes ++ s = e.lexemes ++ t → d = e ∧ s = t
  | .base base, .base base', s, t, hs, ht, h => by
    obtain ⟨rfl, rfl⟩ := base.unique base' (hs.mono (by decide)) (ht.mono (by decide)) h
    exact ⟨rfl, rfl⟩
  | .base base, .raised base' exponent', s, t, hs, ht, h => by
    rw [Power.lexemes, Power.lexemes, List.append_assoc] at h
    have hrest := (base.unique base' (hs.mono (by decide)) (stops_cons (by decide)) h).2
    exact absurd hrest (hs.ne_cons (Nat.le_refl 4))
  | .raised base exponent, .base base', s, t, hs, ht, h => by
    rw [Power.lexemes, Power.lexemes, List.append_assoc] at h
    have hrest := (base.unique base' (stops_cons (by decide)) (ht.mono (by decide)) h).2
    exact absurd hrest.symm (ht.ne_cons (Nat.le_refl 4))
  | .raised base exponent, .raised base' exponent', s, t, hs, ht, h => by
    rw [Power.lexemes, Power.lexemes, List.append_assoc, List.append_assoc] at h
    obtain ⟨rfl, hpower⟩ := base.unique base' (stops_cons (by decide)) (stops_cons (by decide)) h
    obtain ⟨rfl, rfl⟩ := exponent.unique exponent' hs ht (List.cons.inj hpower).2
    exact ⟨rfl, rfl⟩

/-- Two atoms are, in front of what is no text, where the texts next to each other end. -/
theorem Atom.unique : ∀ (d e : Atom) {s t : List Lexeme}, Stops 5 s → Stops 5 t →
    d.lexemes ++ s = e.lexemes ++ t → d = e ∧ s = t
  | .integer n, e, s, t, hs, ht, h => by
    cases e <;> cases h
    exact ⟨rfl, rfl⟩
  | .decimal x, e, s, t, hs, ht, h => by
    cases e <;> cases h
    exact ⟨rfl, rfl⟩
  | .texts first more, e, s, t, hs, ht, h => by
    cases e with
    | texts first' more' =>
      obtain ⟨hfirst, hmore⟩ := List.cons.inj h
      obtain ⟨rfl, rfl⟩ := texts_append_inj hs ht hmore
      cases hfirst
      exact ⟨rfl, rfl⟩
    | _ => cases h
  | .truth b word hword, e, s, t, hs, ht, h => by
    cases e with
    | truth b' word' hword' =>
      cases h
      cases truthWords_disjoint hword hword'
      exact ⟨rfl, rfl⟩
    | name word' hkeyword' htruth' =>
      cases h
      exact absurd hword (htruth' b)
    | _ => cases h
  | .name word hkeyword htruth, e, s, t, hs, ht, h => by
    cases e with
    | truth b' word' hword' =>
      cases h
      exact absurd hword' (htruth b')
    | name word' hkeyword' htruth' =>
      cases h
      exact ⟨rfl, rfl⟩
    | _ => cases h
  | .group inner, e, s, t, hs, ht, h => by
    cases e with
    | group inner' =>
      rw [Atom.lexemes, Atom.lexemes, List.cons_append, List.cons_append, List.append_assoc,
        List.append_assoc] at h
      obtain ⟨-, hinner⟩ := List.cons.inj h
      obtain ⟨rfl, hclosing⟩ :=
        inner.unique inner' (stops_cons (by decide)) (stops_cons (by decide)) hinner
      exact ⟨rfl, (List.cons.inj hclosing).2⟩
    | _ => cases h

end

/-- Lexemes have at most one derivation. -/
theorem lexemes_injective : Function.Injective lexemes := by
  intro d e h
  refine (unique d e (stops_nil 1) (stops_nil 1) ?_).1
  rw [List.append_nil, List.append_nil, h]

end Derivation

end Stencil.Expr
