/-!
# Outcomes

How a chain of steps that may fail comes to its outcome.
-/

namespace FieldSelection

variable {ε ε' α β : Type}

theorem ok_bind (a : α) (f : α → Except ε β) : (Except.ok a >>= f) = f a := rfl

theorem error_bind (e : ε) (f : α → Except ε β) : (Except.error e >>= f) = .error e := rfl

/-- A chain succeeds if its first step does, and the rest after that. -/
theorem bind_eq_ok_iff {r : Except ε α} {f : α → Except ε β} {b : β} :
    (r >>= f) = .ok b ↔ ∃ a, r = .ok a ∧ f a = .ok b := by
  cases r with
  | error e => simp [error_bind]
  | ok a => simp [ok_bind]

theorem map_bind (r : Except ε α) (f : α → β) {γ : Type} (g : β → Except ε γ) :
    (r.map f >>= g) = (r >>= fun a => g (f a)) := by
  cases r <;> rfl

theorem map_eq_ok_iff {r : Except ε α} {f : α → β} {b : β} :
    r.map f = .ok b ↔ ∃ a, r = .ok a ∧ f a = b := by
  cases r with
  | error e => simp [Except.map]
  | ok a => simp [Except.map]

theorem map_eq_error_iff {r : Except ε α} {f : α → β} {e : ε} :
    r.map f = .error e ↔ r = .error e := by
  cases r with
  | error e' => simp [Except.map]
  | ok a => simp [Except.map]

theorem mapError_eq_ok_iff {r : Except ε α} {f : ε → ε'} {a : α} :
    r.mapError f = .ok a ↔ r = .ok a := by
  cases r with
  | error e => exact ⟨nofun, nofun⟩
  | ok b =>
    constructor
    · intro h
      cases h
      rfl
    · intro h
      cases h
      rfl

theorem mapError_eq_error_iff {r : Except ε α} {f : ε → ε'} {e' : ε'} :
    r.mapError f = .error e' ↔ ∃ e, r = .error e ∧ f e = e' := by
  cases r with
  | ok a =>
    constructor
    · intro h
      cases h
    · rintro ⟨e, h, -⟩
      cases h
  | error e =>
    constructor
    · intro h
      cases h
      exact ⟨e, rfl, rfl⟩
    · rintro ⟨e, h, rfl⟩
      cases h
      rfl

/-- The failure of an outcome. -/
def failure? : Except ε α → Option ε
  | .ok _ => none
  | .error e => some e

theorem failure?_eq_some_iff {r : Except ε α} {e : ε} : failure? r = some e ↔ r = .error e := by
  cases r with
  | ok a => exact ⟨nofun, nofun⟩
  | error e' => simp [failure?]

/-- Both outcomes are results, and related, or both are the same error. -/
inductive SameOutcome (related : α → β → Prop) : Except ε α → Except ε β → Prop where
  | ok {a : α} {b : β} (h : related a b) : SameOutcome related (.ok a) (.ok b)
  | error (e : ε) : SameOutcome related (.error e) (.error e)

/-- Going on after two outcomes that are the same. -/
theorem SameOutcome.bind {γ δ : Type} {related : α → β → Prop} {related' : γ → δ → Prop}
    {r : Except ε α} {r' : Except ε β} {f : α → Except ε γ} {f' : β → Except ε δ}
    (h : SameOutcome related r r')
    (hf : ∀ a b, related a b → SameOutcome related' (f a) (f' b)) :
    SameOutcome related' (r >>= f) (r' >>= f') := by
  cases h with
  | ok hab => exact hf _ _ hab
  | error e => exact .error e

theorem SameOutcome.imp {related related' : α → β → Prop} {r : Except ε α} {r' : Except ε β}
    (h : SameOutcome related r r') (himp : ∀ a b, related a b → related' a b) :
    SameOutcome related' r r' := by
  cases h with
  | ok hab => exact .ok (himp _ _ hab)
  | error e => exact .error e

/-- One outcome, where its result is related to itself. -/
theorem SameOutcome.refl {related : α → α → Prop} {r : Except ε α}
    (h : ∀ a, r = .ok a → related a a) : SameOutcome related r r := by
  cases r with
  | error e => exact .error e
  | ok a => exact .ok (h a rfl)

end FieldSelection
