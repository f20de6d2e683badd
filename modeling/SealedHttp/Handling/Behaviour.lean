import SealedHttp.Handling.Exchange

/-!
# What handlers do

A handler has a state of its own and answers each verb by changing that state and the exchange. It
may fail or crash on the way; what it did so far remains. An instance is a handler with its
exchange.
-/

namespace SealedHttp

inductive Ending where
  | completed
  | failed (message : String)
  | crashed (message : String)
  deriving DecidableEq, Repr

def Ending.isCompleted : Ending → Bool
  | completed => true
  | _ => false

/-- What a handler reports of its work: a label, and the exchange at that moment. -/
structure Note where
  label : List String
  seen : Exchange
  deriving Repr

/-- What a handler leaves behind. -/
structure Outcome (σ : Type) where
  state : σ
  exchange : Exchange
  ending : Ending := .completed
  notes : List Note := []

abbrev Method (σ : Type) := σ → Exchange → Outcome σ

def Method.notFound {σ : Type} (verb : Verb) : Method σ := fun state e =>
  { state, exchange := e.notFound verb }

/-- What all handlers of a type do. -/
structure Behaviour (σ : Type) where
  /-- The state of a new handler, or why there is none. It may depend on how many attempts to make
  a handler there were before. -/
  fresh : Nat → Except String σ
  /-- Forgets what the handler remembers of a request. -/
  reset : σ → σ
  get : Method σ := .notFound .get
  post : Method σ := .notFound .post

def Behaviour.method {σ : Type} (b : Behaviour σ) : Verb → Method σ
  | .get => b.get
  | .post => b.post

structure Instance (σ : Type) where
  state : σ
  exchange : Exchange

namespace Instance

variable {σ : Type}

def id (i : Instance σ) : Nat := i.exchange.instanceId

def invoke (b : Behaviour σ) (verb : Verb) (i : Instance σ) : Outcome σ :=
  b.method verb i.state i.exchange

def reset (b : Behaviour σ) (i : Instance σ) : Instance σ := ⟨b.reset i.state, i.exchange.reset⟩

end Instance

def Outcome.handler {σ : Type} (o : Outcome σ) : Instance σ := ⟨o.state, o.exchange⟩

end SealedHttp
