/-!
# Results and what is behind them

What is known of a result that went through a function or on to a further step.
-/

namespace SealedHttp

variable {α β δ ε : Type}

theorem exists_of_map_eq_ok {x : Except ε α} {g : α → β} {b : β} (h : x.map g = .ok b) :
    ∃ a, x = .ok a ∧ g a = b := by
  cases x with
  | error e => cases h
  | ok a => exact ⟨a, rfl, Except.ok.inj h⟩

theorem eq_ok_of_mapError {x : Except δ α} {g : δ → ε} {a : α} (h : x.mapError g = .ok a) :
    x = .ok a := by
  cases x with
  | error cause => cases h
  | ok a' => exact congrArg Except.ok (Except.ok.inj h)

theorem exists_of_mapError_eq_error {x : Except δ α} {g : δ → ε} {failure : ε}
    (h : x.mapError g = .error failure) : ∃ cause, x = .error cause ∧ g cause = failure := by
  cases x with
  | error cause => exact ⟨cause, rfl, Except.error.inj h⟩
  | ok a => cases h

section Steps

variable {x : Except ε α} {f : α → Except ε β}

theorem bind_of_ok {a : α} (hx : x = .ok a) : x >>= f = f a := by
  rw [hx]
  rfl

theorem bind_of_error {failure : ε} (hx : x = .error failure) : x >>= f = .error failure := by
  rw [hx]
  rfl

theorem exists_of_bind_eq_ok {b : β} (h : x >>= f = .ok b) : ∃ a, x = .ok a ∧ f a = .ok b := by
  cases x with
  | error failure => cases h
  | ok a => exact ⟨a, rfl, h⟩

end Steps

end SealedHttp
