import SealedHttp.Handling.Script

/-!
# Instances up to their number

Instances of a type differ in their number alone as long as nothing was done with them. The
operations on exchanges carry that number along without looking at it, and handlers that do the same
can be reused.
-/

namespace SealedHttp

/-- The exchange of another instance. -/
def Exchange.withId (id : Nat) (e : Exchange) : Exchange := { e with instanceId := id }

/-- The same report of another instance. -/
def Note.withId (id : Nat) (note : Note) : Note := { note with seen := note.seen.withId id }

/-- The same handler under another number. -/
def Instance.withId {σ : Type} (id : Nat) (i : Instance σ) : Instance σ :=
  { i with exchange := i.exchange.withId id }

/-- What the same handler leaves behind under another number. -/
def Outcome.withId {σ : Type} (id : Nat) (o : Outcome σ) : Outcome σ :=
  { o with exchange := o.exchange.withId id, notes := o.notes.map (Note.withId id) }

namespace Outcome

variable {σ : Type} (id : Nat) (o : Outcome σ)

@[simp] theorem state_withId : (o.withId id).state = o.state := rfl

@[simp] theorem exchange_withId : (o.withId id).exchange = o.exchange.withId id := rfl

@[simp] theorem ending_withId : (o.withId id).ending = o.ending := rfl

@[simp] theorem notes_withId : (o.withId id).notes = o.notes.map (Note.withId id) := rfl

end Outcome

/-- Handlers that a pool can hand out again: all attempts to make one come to the same, a reset
makes them new, and a method acts on the exchange without looking at the number of the instance or
renaming the type. -/
structure Behaviour.IsPoolable {σ : Type} (b : Behaviour σ) : Prop where
  fresh_eq : ∀ m n, b.fresh m = b.fresh n
  reset_eq : ∀ n fresh, b.fresh n = .ok fresh → ∀ state, b.reset state = fresh
  method_withId : ∀ verb state e id,
    b.method verb state (e.withId id) = (b.method verb state e).withId id
  typeName_method : ∀ verb state e, (b.method verb state e).exchange.typeName = e.typeName

/-! ## Scripted handlers -/

theorem ScriptStep.run_withId (n : Nat) (e : Exchange) (id : Nat) (step : ScriptStep) :
    step.run n (e.withId id) = (step.run n e).withId id := by
  cases step with
  -- Reading the body can fail, but the number plays no part in that.
  | echoValue =>
    have hvalue : (e.withId id).bodyValue = e.bodyValue := rfl
    simp only [run, hvalue]
    cases e.bodyValue <;> rfl
  | echoText =>
    have htext : (e.withId id).bodyText = e.bodyText := rfl
    simp only [run, htext]
    cases e.bodyText <;> rfl
  | setStatus status =>
    simp only [run]
    split <;> rfl
  | _ => rfl

theorem ScriptStep.typeName_run (n : Nat) (e : Exchange) (step : ScriptStep) :
    (step.run n e).exchange.typeName = e.typeName := by
  cases step with
  | echoValue =>
    simp only [run]
    split <;> rfl
  | echoText =>
    simp only [run]
    split <;> rfl
  | setStatus status =>
    simp only [run]
    split <;> rfl
  | _ => rfl

namespace Script

theorem run_withId (script : Script) (n : Nat) (e : Exchange) (id : Nat) :
    script.run n (e.withId id) = (script.run n e).withId id := by
  induction script generalizing n e with
  | nil => rfl
  | cons step steps ih =>
    simp only [run, ScriptStep.run_withId, Outcome.ending_withId, Outcome.state_withId,
      Outcome.exchange_withId, ih]
    split
    · simp [Outcome.withId]
    · rfl

theorem typeName_run (script : Script) (n : Nat) (e : Exchange) :
    (script.run n e).exchange.typeName = e.typeName := by
  induction script generalizing n e with
  | nil => rfl
  | cons step steps ih =>
    simp only [run]
    split
    · exact (ih _ _).trans (ScriptStep.typeName_run n e step)
    · exact ScriptStep.typeName_run n e step

/-- Scripted handlers that do not keep their number can be reused. -/
theorem isPoolable_behaviour (get post : Option Script) :
    (behaviour get post false).IsPoolable where
  fresh_eq _ _ := rfl
  reset_eq := by
    intro _ fresh hfresh state
    cases hfresh
    rfl
  method_withId := by
    intro verb state e id
    have hmethod : ∀ script : Option Script,
        method verb script state (e.withId id) = (method verb script state e).withId id := by
      rintro (_ | script)
      · rfl
      · exact run_withId script state e id
    cases verb with
    | get => exact hmethod get
    | post => exact hmethod post
  typeName_method := by
    intro verb state e
    have hmethod : ∀ script : Option Script,
        (method verb script state e).exchange.typeName = e.typeName := by
      rintro (_ | script)
      · rfl
      · exact typeName_run script state e
    cases verb with
    | get => exact hmethod get
    | post => exact hmethod post

end Script
end SealedHttp
