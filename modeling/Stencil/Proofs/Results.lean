/-!
# Results that may fail

A result is a value or an error. These lemmas take a computation apart that goes on only with a
value (`bind_eq_ok`), and see through a change of its errors (`mapError_eq_ok`,
`mapError_bind_congr`). `Yields` says of a computation what its value or its error is like.
-/

namespace Stencil

variable {ε δ α β : Type}

@[simp] theorem mapError_ok (f : ε → δ) (a : α) :
    (Except.ok a : Except ε α).mapError f = .ok a := rfl

@[simp] theorem mapError_error (f : ε → δ) (e : ε) :
    (Except.error e : Except ε α).mapError f = .error (f e) := rfl

/-- A change to errors leaves values alone. -/
theorem mapError_eq_ok {x : Except ε α} {f : ε → δ} {a : α} :
    x.mapError f = .ok a ↔ x = .ok a := by
  cases x <;> simp

/-- A changed error comes from an error. -/
theorem mapError_eq_error {x : Except ε α} {f : ε → δ} {d : δ} :
    x.mapError f = .error d ↔ ∃ e, x = .error e ∧ f e = d := by
  cases x <;> simp

theorem toOption_eq_some {x : Except ε α} {a : α} : x.toOption = some a ↔ x = .ok a := by
  cases x <;> simp [Except.toOption]

/-- A computation goes on with the value of its first part. -/
theorem ok_bind (a : α) (f : α → Except ε β) : (Except.ok a >>= f) = f a := rfl

/-- A computation has a value when both of its parts have one. -/
theorem bind_eq_ok {x : Except ε α} {f : α → Except ε β} {b : β} :
    (x >>= f) = .ok b ↔ ∃ a, x = .ok a ∧ f a = .ok b := by
  cases x with
  | error e =>
    constructor
    · intro h
      cases h
    · rintro ⟨a, h, -⟩
      cases h
  | ok a =>
    constructor
    · intro h
      exact ⟨a, rfl, h⟩
    · rintro ⟨a', h, hf⟩
      cases h
      exact hf

/-- A computation fails when its first part does, or its second part on the value of the first. -/
theorem bind_eq_error {x : Except ε α} {f : α → Except ε β} {e : ε} :
    (x >>= f) = .error e ↔ x = .error e ∨ ∃ a, x = .ok a ∧ f a = .error e := by
  cases x with
  | error e' =>
    constructor
    · rintro ⟨⟩
      exact .inl rfl
    · rintro (⟨⟨⟩⟩ | ⟨a, h, -⟩)
      · rfl
      · cases h
  | ok a =>
    constructor
    · intro h
      exact .inr ⟨a, rfl, h⟩
    · rintro (h | ⟨a', h, hf⟩)
      · cases h
      · cases h
        exact hf

/-- Steps one after the other fail at one of them, behind others that do not fail. -/
theorem exists_of_foldlM_eq_error {f : β → α → Except ε β} {l : List α} {b : β} {e : ε}
    (h : l.foldlM f b = .error e) : ∃ before a after b', l = before ++ a :: after ∧
      before.foldlM f b = .ok b' ∧ f b' a = .error e := by
  induction l generalizing b with
  | nil => cases h
  | cons a l ih =>
    rw [List.foldlM_cons] at h
    obtain hfirst | ⟨next, hstep, hlater⟩ := bind_eq_error.1 h
    · exact ⟨[], a, l, b, rfl, rfl, hfirst⟩
    · obtain ⟨before, a', after, b', rfl, hbefore, hfails⟩ := ih hlater
      refine ⟨a :: before, a', after, b', rfl, ?_, hfails⟩
      rw [List.foldlM_cons, hstep, ok_bind, hbefore]

/-- What every step keeps of a state and the list read so far, steps one after the other keep. -/
theorem foldlM_keeps {γ : Type} {f : β → α → Except ε β} {read : α → γ} {P : List γ → β → Prop}
    (hstep : ∀ {s b a b'}, P s b → f b a = .ok b' → P (s ++ [read a]) b')
    {l : List α} {s : List γ} {b b' : β} (h : P s b) (hrun : l.foldlM f b = .ok b') :
    P (s ++ l.map read) b' := by
  induction l generalizing s b with
  | nil =>
    cases hrun
    rwa [List.map_nil, List.append_nil]
  | cons a l ih =>
    rw [List.foldlM_cons] at hrun
    obtain ⟨next, hnext, hrest⟩ := bind_eq_ok.1 hrun
    have hlater := ih (hstep h hnext) hrest
    rwa [List.append_assoc] at hlater

/-- What follows a computation matters for the value that it has only. -/
theorem bind_congr_of_ok {x : Except ε α} {f g : α → Except ε β}
    (h : ∀ a, x = .ok a → f a = g a) : x >>= f = x >>= g := by
  cases x with
  | error e => rfl
  | ok a => exact h a rfl

/-- Computations that agree but for their errors go on to agree in the same way. -/
theorem mapError_bind_congr {f : ε → δ} {x y : Except ε α} {g h : α → Except ε β}
    (hxy : x.mapError f = y.mapError f) (hgh : ∀ a, (g a).mapError f = (h a).mapError f) :
    (x >>= g).mapError f = (y >>= h).mapError f := by
  cases x with
  | error e =>
    cases y with
    | error e' => exact congrArg Except.error (Except.error.inj hxy)
    | ok a => cases hxy
  | ok a =>
    cases y with
    | error e => cases hxy
    | ok b =>
      rw [Except.ok.inj hxy]
      exact hgh b

/-- A result whose value is good, if it is one, and whose error is bad in a known way, if not. -/
def Yields (good : α → Prop) (bad : ε → Prop) : Except ε α → Prop
  | .ok a => good a
  | .error e => bad e

/-- A value that comes out is good. -/
theorem Yields.of_ok {good : α → Prop} {bad : ε → Prop} {x : Except ε α} {a : α}
    (h : Yields good bad x) (hx : x = .ok a) : good a := by
  rwa [hx] at h

/-- An error that comes out is bad in the known way. -/
theorem Yields.of_error {good : α → Prop} {bad : ε → Prop} {x : Except ε α} {e : ε}
    (h : Yields good bad x) (hx : x = .error e) : bad e := by
  rwa [hx] at h

/-- Less can be said of both. -/
theorem Yields.mono {good good' : α → Prop} {bad bad' : ε → Prop} {x : Except ε α}
    (h : Yields good bad x) (hgood : ∀ a, good a → good' a) (hbad : ∀ e, bad e → bad' e) :
    Yields good' bad' x := by
  cases x with
  | error e => exact hbad e h
  | ok a => exact hgood a h

/-- What is said of two steps is said of one after the other. -/
theorem Yields.bind {good : α → Prop} {good' : β → Prop} {bad : ε → Prop} {x : Except ε α}
    {f : α → Except ε β} (h : Yields good bad x) (hf : ∀ a, good a → Yields good' bad (f a)) :
    Yields good' bad (x >>= f) := by
  cases x with
  | error e => exact h
  | ok a => exact hf a h

/-- What is said of errors is changed with them. -/
theorem Yields.mapError {good : α → Prop} {bad : ε → Prop} {bad' : δ → Prop} {x : Except ε α}
    {f : ε → δ} (h : Yields good bad x) (hf : ∀ e, bad e → bad' (f e)) :
    Yields good bad' (x.mapError f) := by
  cases x with
  | error e => exact hf e h
  | ok a => exact h

end Stencil
