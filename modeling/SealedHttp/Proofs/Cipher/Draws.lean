import SealedHttp.Cipher.Draws
import SealedHttp.Proofs.Results

/-!
# Steps that take draws

A sequence of steps succeeds when each of them does, on the draws that the one before left over.
What a draw gives has the length that was asked for, and fillers have no zero bytes.
-/

namespace SealedHttp.Draws

section Steps

variable {ε α β : Type}

theorem run_andThen_of_ok {x : StateM Draws (Except ε α)} {f : α → StateM Draws (Except ε β)}
    {d d₁ : Draws} {a : α} (h : x.run d = (.ok a, d₁)) :
    (andThen x f).run d = (f a).run d₁ := by
  rw [andThen, StateT.run_bind, h]
  rfl

theorem run_andThen_of_error {x : StateM Draws (Except ε α)}
    {f : α → StateM Draws (Except ε β)} {d d₁ : Draws} {e : ε} (h : x.run d = (.error e, d₁)) :
    (andThen x f).run d = (.error e, d₁) := by
  rw [andThen, StateT.run_bind, h]
  rfl

theorem andThen_assoc {γ : Type} (x : StateM Draws (Except ε α))
    (f : α → StateM Draws (Except ε β)) (g : β → StateM Draws (Except ε γ)) :
    andThen (andThen x f) g = andThen x fun a => andThen (f a) g := by
  refine StateT.ext fun d => ?_
  rcases hx : x.run d with ⟨e | a, d₁⟩
  · rw [run_andThen_of_error hx, run_andThen_of_error (run_andThen_of_error hx)]
  · rw [run_andThen_of_ok hx]
    -- What comes next is looked at only through the first two steps.
    rcases hf : (f a).run d₁ with ⟨e | b, d₂⟩
    · rw [run_andThen_of_error hf, run_andThen_of_error ((run_andThen_of_ok hx).trans hf)]
    · rw [run_andThen_of_ok hf, run_andThen_of_ok ((run_andThen_of_ok hx).trans hf)]

/-- Inversion: behind a success stand two. -/
theorem exists_of_run_andThen {x : StateM Draws (Except ε α)}
    {f : α → StateM Draws (Except ε β)} {d d' : Draws} {b : β}
    (h : (andThen x f).run d = (.ok b, d')) :
    ∃ a d₁, x.run d = (.ok a, d₁) ∧ (f a).run d₁ = (.ok b, d') := by
  rcases hx : x.run d with ⟨r, d₁⟩
  cases r with
  | error e =>
    rw [run_andThen_of_error hx] at h
    cases h
  | ok a =>
    rw [run_andThen_of_ok hx] at h
    exact ⟨a, d₁, rfl, h⟩

theorem run_pure (a : α) (d : Draws) : (pure a : StateM Draws α).run d = (a, d) := rfl

theorem run_map (g : α → β) (x : StateM Draws α) (d : Draws) :
    (do pure (g (← x)) : StateM Draws β).run d = (g (x.run d).1, (x.run d).2) := rfl

theorem run_map_of_ok {x : StateM Draws (Except ε α)} (g : α → β) {d d' : Draws} {a : α}
    (h : x.run d = (.ok a, d')) :
    (do pure ((← x).map g) : StateM Draws (Except ε β)).run d = (.ok (g a), d') := by
  rw [run_map (Except.map g), h]
  rfl

/-- Inversion of a step whose result is only looked at through a function. -/
theorem exists_of_run_map {x : StateM Draws (Except ε α)} {g : α → β} {d d' : Draws} {b : β}
    (h : (do pure ((← x).map g) : StateM Draws (Except ε β)).run d = (.ok b, d')) :
    ∃ a, x.run d = (.ok a, d') ∧ g a = b := by
  rw [run_map (Except.map g), Prod.mk.injEq] at h
  obtain ⟨hmap, rfl⟩ := h
  obtain ⟨a, ha, hb⟩ := exists_of_map_eq_ok hmap
  exact ⟨a, Prod.ext ha rfl, hb⟩

end Steps

theorem exists_take {α : Type} (f : Nat → α) (n : Nat) (d : Draws) :
    ∃ xs d', take f n d = (xs, d') ∧ xs.length = n ∧ ∀ x ∈ xs, ∃ m, x = f m := by
  induction n generalizing d with
  | zero => exact ⟨[], d, rfl, rfl, by simp⟩
  | succ n ih =>
    obtain ⟨xs, d', htake, hlength, hmem⟩ := ih d.next.2
    refine ⟨f d.next.1 :: xs, d', ?_, by rw [List.length_cons, hlength], ?_⟩
    · simp only [take, htake]
    · intro x hx
      rcases List.mem_cons.mp hx with rfl | hx
      · exact ⟨_, rfl⟩
      · exact hmem x hx

/-- The message key that is drawn next. -/
def nextKey (d : Draws) : Bytes := (messageKey.run d).1

theorem length_nextKey (d : Draws) : d.nextKey.length = messageKeyLength := by
  obtain ⟨key, d', htake, hlength, -⟩ := exists_take alphanumeric messageKeyLength d
  have hkey : d.nextKey = key := congrArg Prod.fst htake
  rw [hkey, hlength]

theorem nonZero_ne_zero (n : Nat) : nonZero n ≠ 0 := by
  intro h
  have hn := congrArg UInt8.toNat h
  simp only [nonZero, UInt8.toNat_ofNat', UInt8.toNat_zero] at hn
  omega

theorem exists_filler (n : Nat) (d : Draws) :
    ∃ xs d', (filler n).run d = (xs, d') ∧ xs.length = n ∧ ∀ x ∈ xs, x ≠ 0 := by
  obtain ⟨xs, d', htake, hlength, hmem⟩ := exists_take nonZero n d
  refine ⟨xs, d', htake, hlength, ?_⟩
  intro x hx
  obtain ⟨m, rfl⟩ := hmem x hx
  exact nonZero_ne_zero m

end SealedHttp.Draws
