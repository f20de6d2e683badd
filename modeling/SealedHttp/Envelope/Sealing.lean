import SealedHttp.Cipher.KeyRing
import SealedHttp.Compression.Packing
import SealedHttp.Envelope.Basic

/-!
# Sealing and opening

Encoding compresses and then applies the steps of a chain from the left; decoding undoes them from
the right and then decompresses. Both are fail-open: whatever fails, the caller gets the input back.
The chain is read first, so that an unknown code wins over every other failure.
-/

namespace SealedHttp

namespace SealStep

/-- Applies one step. The hybrid step also gives the text of its wrapped key. -/
def apply (ring : KeyRing) (data : Bytes) :
    SealStep → StateM Draws (Except CipherError (Bytes × Option String))
  | aes => pure ((Aes.encrypt ring.passphrase data).map (·, none))
  | base64 => pure (.ok (Base64.encode data, none))
  | hybrid => do pure ((← ring.hybridEncrypt data).map fun (out, key) => (out, some key))
  | rsa => do pure ((← ring.rsa.encrypt data).map (·, none))
  | hex => pure (.ok (Hex.encode data, none))

def undo (ring : KeyRing) (wrappedKey : Option String) (data : Bytes) :
    SealStep → Except CipherError Bytes
  | aes => Aes.decrypt ring.passphrase data
  | base64 => (Base64.decode data).mapError .base64
  | hybrid =>
    match wrappedKey with
    | some key => ring.hybridDecrypt data key
    | none => .error .missingWrappedKey
  | rsa => ring.rsa.decrypt data
  | hex => (Hex.decode data).mapError .hex

/-- Applies steps from the left. A later wrapped key takes the place of an earlier one. -/
def applyAll (ring : KeyRing) :
    List SealStep → Bytes → Option String →
      StateM Draws (Except CipherError (Bytes × Option String))
  | [], data, key => pure (.ok (data, key))
  | step :: steps, data, key =>
    Draws.andThen (step.apply ring data) fun (data, fresh) =>
      applyAll ring steps data (fresh.or key)

def undoAll (ring : KeyRing) (wrappedKey : Option String) :
    List SealStep → Bytes → Except CipherError Bytes
  | [], data => .ok data
  | step :: steps, data => do
    let data ← undoAll ring wrappedKey steps data
    step.undo ring wrappedKey data

end SealStep

namespace Envelope

def parseChain (chain : String) : Except EnvelopeError (List SealStep) :=
  (SealStep.parse chain).mapError .unknownStep

/-- Whether a payload is compressed at all: a kind is asked for and the payload is long enough. -/
def compresses (kind : Compression) (minSize : Nat) (data : Bytes) : Bool :=
  !kind.isNone && minSize ≤ data.length

/-- The compressed payload with the kind and the length that the envelope reports. -/
def compressed (kind : Compression) (minSize : Nat) (data : Bytes) :
    Except PackingError (Bytes × Compression × Option Nat) :=
  if compresses kind minSize data then
    (kind.compress data).map fun out =>
      (out, kind, if kind.needsOriginalLength then some data.length else none)
  else .ok (data, .none, none)

def tryEncode (ring : KeyRing) (data : Bytes) (chain : String) (kind : Compression)
    (minSize : Nat) : StateM Draws (Except EnvelopeError Envelope) :=
  match parseChain chain with
  | .error e => pure (.error e)
  | .ok steps =>
    match compressed kind minSize data with
    | .error e => pure (.error (.packing e))
    | .ok (out, applied, length) => do
      let wrapped ← SealStep.applyAll ring steps out none
      pure ((wrapped.mapError .cipher).map fun (payload, key) =>
        ⟨payload, chain, key, applied, length⟩)

/-- Compresses a payload that is long enough and seals it. The envelope reports what was applied. -/
def encode (ring : KeyRing) (data : Bytes) (chain : String) (kind : Compression)
    (minSize : Nat) : StateM Draws (Transformed Envelope) := do
  pure (Transformed.ofExcept data (← tryEncode ring data chain kind minSize))

def tryDecode (ring : KeyRing) (e : Envelope) : Except EnvelopeError Bytes := do
  let steps ← parseChain e.chain
  let data ← (SealStep.undoAll ring e.wrappedKey steps e.payload).mapError .cipher
  if e.compression.isNone then .ok data
  else (e.compression.decompress data e.originalLength).mapError .packing

def decode (ring : KeyRing) (e : Envelope) : Transformed Bytes :=
  if e.isTransformed then Transformed.ofExcept e.payload (tryDecode ring e) else .done e.payload

end Envelope
end SealedHttp
