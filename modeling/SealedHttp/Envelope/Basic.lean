import SealedHttp.Cipher.Failure
import SealedHttp.Compression.Kind
import SealedHttp.Envelope.Step

/-!
# Envelopes

An envelope is a payload with everything that is needed to undo its transforms: it was compressed
first and then sealed by the steps of the chain, from the left.
-/

namespace SealedHttp

inductive EnvelopeError where
  | packing (e : PackingError)
  | cipher (e : CipherError)
  | unknownStep (code : Char)
  | header (name value : String)
  deriving DecidableEq, Repr

def EnvelopeError.message : EnvelopeError → String
  | .packing e => e.message
  | .cipher e => e.message
  | .unknownStep code =>
    let shown := Text.quotedChar code
    s!"unknown encryption step {shown}"
  | .header name value =>
    let shown := Text.quoted value
    s!"invalid {name} header: {shown}"

/-- A payload and how it was transformed. -/
structure Envelope where
  payload : Bytes
  /-- Codes of the sealing steps in the order of application. -/
  chain : String
  /-- Text of the wrapped key, when the hybrid step took part. -/
  wrappedKey : Option String
  compression : Compression
  /-- Length before compression; it matters for LZ4 alone. -/
  originalLength : Option Nat
  deriving DecidableEq, Repr

namespace Envelope

def plain (payload : Bytes) : Envelope := ⟨payload, "", none, .none, none⟩

def isTransformed (e : Envelope) : Bool := !e.chain.isEmpty || !e.compression.isNone

def withPayload (e : Envelope) (payload : Bytes) : Envelope := { e with payload }

end Envelope

/-- A transform that failed, with its input untouched. -/
structure Degraded where
  payload : Bytes
  error : EnvelopeError
  deriving DecidableEq, Repr

def Degraded.message (d : Degraded) : String :=
  let cause := d.error.message
  s!"transform degraded to pass-through: {cause}"

/-- How a transform ends. -/
inductive Transformed (α : Type) where
  | done (result : α)
  | degraded (d : Degraded)
  /-- The transform does not return at all. -/
  | crashed (reason : String)
  deriving DecidableEq, Repr

/-- The end of a transform of `payload`, from the result of its steps. -/
def Transformed.ofExcept {α : Type} (payload : Bytes) : Except EnvelopeError α → Transformed α
  | .ok result => .done result
  | .error (.cipher .noRoom) => .crashed CipherError.noRoom.message
  | .error error => .degraded ⟨payload, error⟩

end SealedHttp
