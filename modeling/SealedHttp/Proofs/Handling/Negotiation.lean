import SealedHttp.Handling.Script
import SealedHttp.Proofs.Envelope.Reading

/-!
# Exchanges up to the negotiation

Requests that differ in their negotiation headers alone are the same without these, and exchanges of
such requests are the same if the envelope is left out as well. A handler that looks at neither
leaves the same behind in both cases, up to what it was not to look at.
-/

namespace SealedHttp

/-- The fields of all other names, in their order. -/
def Headers.withoutNegotiation (h : Headers) : Headers :=
  ⟨h.fields.filter (·.1 ∉ HeaderName.negotiation)⟩

def Request.withoutNegotiation (r : Request) : Request :=
  { r with headers := r.headers.withoutNegotiation }

def RequestContext.withoutNegotiation (context : RequestContext) : RequestContext :=
  { context with request := context.request.withoutNegotiation }

/-- The exchange without the negotiation headers of its request and without what they announced. -/
def Exchange.withoutNegotiation (e : Exchange) : Exchange :=
  { e with
    context := e.context.map RequestContext.withoutNegotiation
    envelope := .plain [] }

def Note.withoutNegotiation (note : Note) : Note :=
  { note with seen := note.seen.withoutNegotiation }

def Outcome.withoutNegotiation {σ : Type} (o : Outcome σ) : Outcome σ :=
  { o with
    exchange := o.exchange.withoutNegotiation
    notes := o.notes.map Note.withoutNegotiation }

/-- Exchanges that are the same without the negotiation lead to outcomes that are so as well. -/
def Method.IgnoresNegotiation {σ : Type} (m : Method σ) : Prop :=
  ∀ state e e', e.withoutNegotiation = e'.withoutNegotiation →
    (m state e).withoutNegotiation = (m state e').withoutNegotiation

/-! ## Requests -/

theorem Headers.values_withoutNegotiation (h : Headers) {name : String}
    (hname : name ∉ HeaderName.negotiation) : h.withoutNegotiation.values name = h.values name := by
  rw [values, withoutNegotiation, values, List.filter_filter]
  refine congrArg _ (List.filter_congr fun field _ => ?_)
  by_cases hfield : field.1 = name
  · simp [hfield, hname]
  · simp [hfield]

namespace Request

variable (r : Request)

@[simp] theorem path_withoutNegotiation : r.withoutNegotiation.path = r.path := rfl

@[simp] theorem verb_withoutNegotiation : r.withoutNegotiation.verb = r.verb := rfl

theorem header_withoutNegotiation {name : String} (hname : name ∉ HeaderName.negotiation) :
    r.withoutNegotiation.header name = r.header name := by
  rw [header, header, Headers.getText?, Headers.getText?, Headers.get?, Headers.get?,
    withoutNegotiation, Headers.values_withoutNegotiation _ hname]

@[simp] theorem wantsKeepAlive_withoutNegotiation :
    r.withoutNegotiation.wantsKeepAlive = r.wantsKeepAlive := by
  have hoptions : r.withoutNegotiation.connectionOptions = r.connectionOptions := by
    rw [connectionOptions, connectionOptions, withoutNegotiation,
      Headers.values_withoutNegotiation _ (by decide)]
  simp only [wantsKeepAlive, hasOption, hoptions]
  rfl

end Request

/-! ## Exchanges -/

namespace Exchange

/-- The kind of the body is told by a header that is none of the negotiation. -/
theorem configure_withoutNegotiation (context : RequestContext) (e : Exchange) :
    e.withoutNegotiation.configure context.withoutNegotiation =
      (e.configure context).withoutNegotiation := by
  have hkind : context.withoutNegotiation.request.header HeaderName.contentType =
      context.request.header HeaderName.contentType :=
    context.request.header_withoutNegotiation (by decide)
  simp only [configure, hkind]
  rfl

theorem notFound_withoutNegotiation (verb : Verb) (e : Exchange) :
    e.withoutNegotiation.notFound verb = (e.notFound verb).withoutNegotiation := by
  -- The page names the target of the request and the port, which are no headers.
  have htext : e.withoutNegotiation.notFoundText verb = e.notFoundText verb := by
    rw [notFoundText, notFoundText, request, request, withoutNegotiation]
    cases e.context <;> rfl
  rw [notFound, notFound, htext]
  rfl

end Exchange

/-! ## Scripted handlers -/

theorem ScriptStep.run_withoutNegotiation (n : Nat) (e : Exchange) (step : ScriptStep) :
    step.run n e.withoutNegotiation = (step.run n e).withoutNegotiation := by
  cases step with
  | echoValue =>
    have hvalue : e.withoutNegotiation.bodyValue = e.bodyValue := rfl
    simp only [run, hvalue]
    cases e.bodyValue <;> rfl
  | echoText =>
    have htext : e.withoutNegotiation.bodyText = e.bodyText := rfl
    simp only [run, htext]
    cases e.bodyText <;> rfl
  | setStatus status =>
    simp only [run]
    split <;> rfl
  | notFound verb =>
    simp only [run, Exchange.notFound_withoutNegotiation]
    rfl
  | _ => rfl

namespace Script

theorem run_withoutNegotiation (script : Script) (n : Nat) (e : Exchange) :
    script.run n e.withoutNegotiation = (script.run n e).withoutNegotiation := by
  induction script generalizing n e with
  | nil => rfl
  | cons step steps ih =>
    have hstep := ScriptStep.run_withoutNegotiation n e step
    have hending : (step.run n e).withoutNegotiation.ending = (step.run n e).ending := rfl
    have hrest : run steps (step.run n e).withoutNegotiation.state
          (step.run n e).withoutNegotiation.exchange =
        (run steps (step.run n e).state (step.run n e).exchange).withoutNegotiation := ih _ _
    simp only [run, hstep, hending, hrest]
    split
    · simp [Outcome.withoutNegotiation]
    · rfl

/-- A scripted handler looks at the body of its exchange, and never at the negotiation. -/
theorem ignoresNegotiation_method (verb : Verb) (script : Option Script) :
    (method verb script).IgnoresNegotiation := by
  have hmethod : ∀ n e, method verb script n e.withoutNegotiation =
      (method verb script n e).withoutNegotiation := by
    intro n e
    cases script with
    | none =>
      have hpage := Exchange.notFound_withoutNegotiation verb e
      exact congrArg (Outcome.mk n · .completed []) hpage
    | some script => exact run_withoutNegotiation script n e
  intro n e e' h
  rw [← hmethod, ← hmethod, h]

end Script
end SealedHttp
