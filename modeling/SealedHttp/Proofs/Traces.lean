import Mathlib.Logic.Relation

/-!
# Traces

Parties that share a state take turns. What they do is a sequence of labelled steps, in whatever
order they come.
-/

namespace SealedHttp

variable {S E : Type} {step : S → E → S → Prop} {s s' s'' : S} {events later : List E}

/-- From one state to another by steps with these labels. -/
inductive Trace (step : S → E → S → Prop) (s : S) : List E → S → Prop
  | nil : Trace step s [] s
  | snoc {events : List E} {s' s'' : S} {e : E} (h : Trace step s events s')
      (hstep : step s' e s'') : Trace step s (events ++ [e]) s''

namespace Trace

theorem append (h : Trace step s events s') (hlater : Trace step s' later s'') :
    Trace step s (events ++ later) s'' := by
  induction hlater with
  | nil => exact (List.append_nil events).symm ▸ h
  | snoc _ hstep ih => exact List.append_assoc _ _ _ ▸ ih.snoc hstep

/-- Without their labels, traces are sequences of steps. -/
theorem exists_iff :
    (∃ events, Trace step s events s') ↔
      Relation.ReflTransGen (fun s s' => ∃ e, step s e s') s s' := by
  constructor
  · rintro ⟨events, h⟩
    induction h with
    | nil => exact .refl
    | snoc _ hstep ih => exact ih.tail ⟨_, hstep⟩
  · intro h
    induction h with
    | refl => exact ⟨[], .nil⟩
    | tail _ hstep ih =>
      obtain ⟨events, h⟩ := ih
      obtain ⟨e, hstep⟩ := hstep
      exact ⟨_, h.snoc hstep⟩

end Trace
end SealedHttp
