import SealedHttp.Handling.Behaviour

/-!
# What handlers write

A handler builds its response by writing to the exchange. Some writings answer the request; the
kind of the content and its charset only describe an answer. Nothing that is written changes whose
exchange it is, and a reset makes the exchange what it was before.
-/

namespace SealedHttp

/-- One call of a handler that writes to its exchange. -/
inductive Writing where
  | bytes (data : Bytes)
  | text (s : String)
  | value (v : Value)
  /-- A value that cannot be mapped, which leaves the exchange as it was. -/
  | refusedValue
  | status (code : Nat)
  | notFound (verb : Verb)
  | contentKind (kind : BodyKind)
  | charset (name : String)
  deriving Repr

namespace Writing

def apply (e : Exchange) : Writing → Exchange
  | bytes data => e.write data
  | text s => e.write (Bytes.ofText s)
  | value v => e.writeValue v
  | refusedValue => e
  | status code => e.setStatus code
  | notFound verb => e.notFound verb
  | contentKind kind => e.setContentKind kind
  | charset name => e.setCharset name

/-- Writes one thing after the other. -/
def applyAll (ws : List Writing) (e : Exchange) : Exchange := ws.foldl apply e

/-- Whether the request is answered, be it with an empty body. -/
def answers : Writing → Bool
  | refusedValue | contentKind _ | charset _ => false
  | _ => true

/-- The status that a writing sets, if it sets one. -/
def status? : Writing → Option Nat
  | status code => some code
  | notFound verb => some (Exchange.notFoundStatus verb)
  | _ => none

/-- The status that was set last, the usual one if none was. -/
def lastStatus (ws : List Writing) : Nat := ((ws.filterMap status?).getLast?).getD 200

/-! ## Single writings -/

theorem written_apply (e : Exchange) (w : Writing) :
    (w.apply e).written = (e.written || w.answers) := by
  cases w <;> simp [apply, answers, Exchange.write, Exchange.writeValue, Exchange.setStatus,
    Exchange.notFound, Exchange.setContentKind, Exchange.setCharset]

theorem status_apply (e : Exchange) (w : Writing) :
    (w.apply e).status = w.status?.getD e.status := by
  cases w <;> rfl

theorem reset_apply (e : Exchange) (w : Writing) : (w.apply e).reset = e.reset := by
  cases w <;> rfl

/-! ## Sequences -/

theorem written_applyAll (ws : List Writing) (e : Exchange) :
    (applyAll ws e).written = (e.written || ws.any answers) := by
  induction ws generalizing e with
  | nil => simp [applyAll]
  | cons w ws ih =>
    have hrest : applyAll (w :: ws) e = applyAll ws (w.apply e) := rfl
    rw [hrest, ih, written_apply, List.any_cons, Bool.or_assoc]

theorem status_applyAll (ws : List Writing) (e : Exchange) :
    (applyAll ws e).status = ((ws.filterMap status?).getLast?).getD e.status := by
  induction ws generalizing e with
  | nil => rfl
  | cons w ws ih =>
    have hrest : applyAll (w :: ws) e = applyAll ws (w.apply e) := rfl
    rw [hrest, ih, status_apply, List.filterMap_cons]
    cases w.status? with
    | none => rfl
    | some code =>
      cases hlast : (ws.filterMap status?).getLast? <;> simp [List.getLast?_cons, hlast]

theorem reset_applyAll (ws : List Writing) (e : Exchange) : (applyAll ws e).reset = e.reset := by
  induction ws generalizing e with
  | nil => rfl
  | cons w ws ih => exact (ih (w.apply e)).trans (reset_apply e w)

/-- On an exchange without an answer, what is written alone decides about it. -/
theorem written_applyAll_of_reset {e : Exchange} (hwritten : e.written = false)
    (ws : List Writing) : (applyAll ws e).written = ws.any answers := by
  rw [written_applyAll, hwritten, Bool.false_or]

theorem status_applyAll_of_reset {e : Exchange} (hstatus : e.status = 200) (ws : List Writing) :
    (applyAll ws e).status = lastStatus ws := by
  rw [status_applyAll, hstatus, lastStatus]

end Writing
end SealedHttp
