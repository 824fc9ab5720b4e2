import Songsheet.Reading

/-!
# Successful readings

When a reading succeeds, and with what, for the readings that all others are put together from.
A sequence of readings succeeds exactly if each of them does (`bind_eq_ok`), and fails where the
first of them does (`bind_eq_error`), so a long reading is opened by rewriting it with these
equivalences. What a reading makes of a text that is written out can be decided.
-/

namespace Songsheet.Reading

variable {α β : Type}

deriving instance DecidableEq for EStateM.Result

theorem bind_eq_ok {r : Reading α} {f : α → Reading β} {c e : Cursor} {b : β} :
    (r >>= f) c = .ok b e ↔ ∃ a d, r c = .ok a d ∧ f a d = .ok b e := by
  rw [bind_apply]
  constructor
  · intro h
    cases hr : r c with
    | ok a d => exact ⟨a, d, rfl, by simpa [hr] using h⟩
    | error x d => simp [hr] at h
  · intro h
    obtain ⟨a, d, hr, hf⟩ := h
    rw [hr]
    exact hf

theorem bind_eq_error {r : Reading α} {f : α → Reading β} {c e : Cursor} {x : Diagnostic} :
    (r >>= f) c = .error x e ↔ r c = .error x e ∨ ∃ a d, r c = .ok a d ∧ f a d = .error x e := by
  rw [bind_apply]
  constructor
  · intro h
    cases hr : r c with
    | ok a d => exact .inr ⟨a, d, rfl, by simpa [hr] using h⟩
    | error y d => exact .inl (by simpa [hr] using h)
  · rintro (hr | ⟨a, d, hr, hf⟩)
    · rw [hr]
    · rw [hr]
      exact hf

theorem pure_eq_ok {a b : α} {c d : Cursor} :
    (pure a : Reading α) c = .ok b d ↔ a = b ∧ c = d := by
  simp [pure, EStateM.pure]

theorem fail_ne_ok {cause : Cause} {p : Position} {c d : Cursor} {a : α} :
    fail cause p c ≠ .ok a d := by
  simp [fail]

/-- What follows a reading and takes no text does not fail. -/
theorem bind_pure_eq_error {r : Reading α} {f : α → β} {c e : Cursor} {x : Diagnostic} :
    (r >>= fun a => pure (f a)) c = .error x e ↔ r c = .error x e := by
  simp [bind_eq_error, pure, EStateM.pure]

theorem position_eq_ok {c d : Cursor} {p : Position} :
    position c = .ok p d ↔ c.position = p ∧ c = d := by
  simp [position]

theorem ofExcept_eq_ok {outcome : Except Diagnostic α} {c d : Cursor} {a : α} :
    ofExcept outcome c = .ok a d ↔ outcome = .ok a ∧ c = d := by
  cases outcome <;> simp [ofExcept]

end Songsheet.Reading
