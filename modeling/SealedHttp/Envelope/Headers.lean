import SealedHttp.Envelope.Basic
import SealedHttp.Header.Map
import SealedHttp.Text.Basic
import SealedHttp.Text.Utf8

/-!
# Envelopes in headers

Four headers describe an envelope. A missing or blank one means that its transform was not applied.
Writing replaces earlier values and leaves out what cannot stand in a header.
-/

namespace SealedHttp.Envelope

open HeaderName

/-- The trimmed text of a header's first value; blank counts as absent. -/
def headerText (h : Headers) (name : String) : Except EnvelopeError (Option String) :=
  match h.get? name with
  | none => .ok none
  | some value =>
    match Headers.text? value with
    | none => .error (.header name (Utf8.decodeLossy value))
    | some text =>
      let trimmed := Text.trim text
      .ok (if trimmed.isEmpty then none else some trimmed)

def compressionOfText? (text : String) : Option Compression :=
  (Decimal.read? 255 text.toList).bind Compression.ofCode?

def lengthOfText? (text : String) : Option Nat :=
  (Decimal.read? Decimal.maxWord text.toList).filter (· ≤ maxUnpacked)

def readKind : Option String → Except EnvelopeError Compression
  | none => .ok .none
  | some text =>
    match compressionOfText? text with
    | some kind => .ok kind
    | none => .error (.header originalEncoding text)

/-- The original length that a header gives. Only some kinds look at it. -/
def readLength (kind : Compression) : Option String → Except EnvelopeError (Option Nat)
  | none => .ok none
  | some text =>
    if kind.needsOriginalLength then
      match lengthOfText? text with
      | some length => .ok (some length)
      | none => .error (.header HeaderName.originalLength text)
    else .ok none

/-- Reads the negotiation headers; the payload is left empty. The wrapped key counts only with the
hybrid step, and the number of the length only with LZ4. -/
def ofHeaders (h : Headers) : Except EnvelopeError Envelope := do
  let chain := (← headerText h originalEncrypt).getD ""
  let wrappedKey ←
    if chain.toList.contains SealStep.hybrid.code then headerText h encryptKey else .ok none
  let compression ← readKind (← headerText h originalEncoding)
  let originalLength ← readLength compression (← headerText h HeaderName.originalLength)
  .ok ⟨[], chain, wrappedKey, compression, originalLength⟩

def chainText? (e : Envelope) : Option String := if e.chain.isEmpty then none else some e.chain

def codeText? (e : Envelope) : Option String :=
  if e.compression.isNone then none else some (toString e.compression.code)

def lengthText? (e : Envelope) : Option String :=
  if e.compression.needsOriginalLength then e.originalLength.map toString else none

/-- Writes a text, if there is one and it can stand in a header. -/
def writeText (name : String) (text : Option String) (h : Headers) : Headers :=
  match text with
  | none => h
  | some s => h.insertLegal name (Bytes.ofText s)

def writeHeaders (e : Envelope) (h : Headers) : Headers :=
  let h := writeText originalEncrypt e.chainText? h
  let h := writeText encryptKey e.wrappedKey h
  let h := writeText originalEncoding e.codeText? h
  writeText HeaderName.originalLength e.lengthText? h

end SealedHttp.Envelope
