import SealedHttp.Body.JsonNumber
import SealedHttp.Text.Hex

/-!
# Reading JSON

A strict reader: one value, blanks around it, fewer than 128 arrays and objects around any place.
The first fault from the left is reported. Reading runs on fuel that the length of the text
provides.
-/

namespace SealedHttp.Json

def skipBlanks (bs : Bytes) : Bytes := bs.dropWhile fun b => b = 32 || b = 10 || b = 9 || b = 13

def word : (expected : Bytes) → Bytes → Except Fault Bytes
  | [], bs => .ok bs
  | _ :: _, [] => .error (.here .eofInValue [])
  | e :: expected, b :: bs => if b = e then word expected bs else .error (.here .expectedIdent bs)

def fourDigits? (a b c d : UInt8) : Option Nat := do
  some (4096 * (← Hex.value? a) + 256 * (← Hex.value? b) + 16 * (← Hex.value? c) + (← Hex.value? d))

def hexEscape : Bytes → Except Fault (Nat × Bytes)
  | a :: b :: c :: d :: rest =>
    match fourDigits? a b c d with
    | some n => .ok (n, rest)
    | none => .error (.here .invalidEscape rest)
  | _ => .error (.here .eofInString [])

def isHighSurrogate (n : Nat) : Bool := 0xD800 ≤ n && n ≤ 0xDBFF

def isLowSurrogate (n : Nat) : Bool := 0xDC00 ≤ n && n ≤ 0xDFFF

/-- Reads the second half of a pair whose first half is `high`. -/
def lowHalf (high : Nat) : Bytes → Except Fault (Char × Bytes)
  | [] => .error (.here .eofInString [])
  | b :: rest =>
    if b ≠ 92 then .error (.here .endOfHexEscape rest)
    else match rest with
    | [] => .error (.here .eofInString [])
    | c :: rest =>
      if c ≠ 117 then .error (.here .endOfHexEscape rest)
      else do
        let (low, rest) ← hexEscape rest
        if isLowSurrogate low then
          .ok (Char.ofNat (1024 * (high - 0xD800) + (low - 0xDC00) + 0x10000), rest)
        else .error (.here .loneSurrogate rest)

def unicodeEscape (bs : Bytes) : Except Fault (Char × Bytes) := do
  let (n, rest) ← hexEscape bs
  if isLowSurrogate n then .error (.here .loneSurrogate rest)
  else if isHighSurrogate n then lowHalf n rest
  else .ok (Char.ofNat n, rest)

def letterEscape? (b : UInt8) : Option UInt8 :=
  if b = 34 ∨ b = 92 ∨ b = 47 then some b
  else if b = 98 then some 8
  else if b = 102 then some 12
  else if b = 110 then some 10
  else if b = 114 then some 13
  else if b = 116 then some 9
  else none

def escape : Bytes → Except Fault (Bytes × Bytes)
  | [] => .error (.here .eofInString [])
  | b :: rest =>
    if b = 117 then do
      let (c, rest) ← unicodeEscape rest
      .ok (String.utf8EncodeChar c, rest)
    else match letterEscape? b with
    | some c => .ok ([c], rest)
    | none => .error (.here .invalidEscape rest)

/-- Reads a text up to its closing quote; `done` holds the bytes read so far, last first. -/
def stringBytes : (fuel : Nat) → (done : Bytes) → Bytes → Except Fault (Bytes × Bytes)
  | 0, _, bs => .error (.here .eofInString bs)
  | _ + 1, _, [] => .error (.here .eofInString [])
  | fuel + 1, done, b :: rest =>
    if b = 34 then .ok (done.reverse, rest)
    else if b = 92 then
      match escape rest with
      | .error e => .error e
      | .ok (bytes, rest) => stringBytes fuel (bytes.reverse ++ done) rest
    else if b < 32 then .error (.here .controlCharacter rest)
    else stringBytes fuel (b :: done) rest

def string (bs : Bytes) : Except Fault (String × Bytes) :=
  match stringBytes (bs.length + 1) [] bs with
  | .error e => .error e
  | .ok (bytes, rest) =>
    match Utf8.decode bytes with
    | .ok s => .ok (s, rest)
    | .error _ => .error (.here .invalidCodePoint rest)

def nextItem (first : Bool) (bs : Bytes) : Except Fault (Option Bytes) :=
  match skipBlanks bs with
  | [] => .error (.here .eofInList [])
  | b :: rest =>
    if b = 93 then .ok none
    else if first then .ok (some (b :: rest))
    else if b = 44 then
      match skipBlanks rest with
      | [] => .error (.here .eofInValue [])
      | c :: rest =>
        if c = 93 then .error (.ahead .trailingComma (c :: rest)) else .ok (some (c :: rest))
    else .error (.ahead .expectedListEnd (b :: rest))

def nextName (first : Bool) (bs : Bytes) : Except Fault (Option Bytes) :=
  match skipBlanks bs with
  | [] => .error (.here .eofInObject [])
  | b :: rest =>
    if b = 125 then .ok none
    else if first then
      if b = 34 then .ok (some rest) else .error (.ahead .keyNotString (b :: rest))
    else if b = 44 then
      match skipBlanks rest with
      | [] => .error (.here .eofInValue [])
      | c :: rest =>
        if c = 34 then .ok (some rest)
        else if c = 125 then .error (.ahead .trailingComma (c :: rest))
        else .error (.ahead .keyNotString (c :: rest))
    else .error (.ahead .expectedObjectEnd (b :: rest))

def colon (bs : Bytes) : Except Fault Bytes :=
  match skipBlanks bs with
  | [] => .error (.here .eofInObject [])
  | b :: rest => if b = 58 then .ok rest else .error (.ahead .expectedColon (b :: rest))

def name (bs : Bytes) : Except Fault (String × Bytes) := do
  let (s, rest) ← string bs
  let rest ← colon rest
  .ok (s, rest)

def close (bs : Bytes) : Bytes := (skipBlanks bs).drop 1

mutual

/-- Reads one value; `depth` more arrays or objects may be opened, one less than that. -/
def value : (fuel depth : Nat) → Bytes → Except Fault (Value × Bytes)
  | 0, _, bs => .error (.here .eofInValue bs)
  | fuel + 1, depth, bs =>
    match skipBlanks bs with
    | [] => .error (.here .eofInValue [])
    | b :: rest =>
      if b = 110 then (word [117, 108, 108] rest).map (.null, ·)
      else if b = 116 then (word [114, 117, 101] rest).map (.bool true, ·)
      else if b = 102 then (word [97, 108, 115, 101] rest).map (.bool false, ·)
      else if b = 45 then number true rest
      else if (digit? b).isSome then number false (b :: rest)
      else if b = 34 then (string rest).map fun (s, rest) => (.text s, rest)
      else if b = 91 then
        if depth ≤ 1 then .error (.ahead .tooDeep (b :: rest))
        else items fuel (depth - 1) true [] rest
      else if b = 123 then
        if depth ≤ 1 then .error (.ahead .tooDeep (b :: rest))
        else fields fuel (depth - 1) true [] rest
      else .error (.ahead .expectedValue (b :: rest))

def items : (fuel depth : Nat) → (first : Bool) → (done : List Value) → Bytes →
    Except Fault (Value × Bytes)
  | 0, _, _, _, bs => .error (.here .eofInList bs)
  | fuel + 1, depth, first, done, bs =>
    match nextItem first bs with
    | .error e => .error e
    | .ok none => .ok (.array done.reverse, close bs)
    | .ok (some bs) =>
      match value fuel depth bs with
      | .error e => .error e
      | .ok (v, rest) => items fuel depth false (v :: done) rest

def fields : (fuel depth : Nat) → (first : Bool) → (done : List (String × Value)) → Bytes →
    Except Fault (Value × Bytes)
  | 0, _, _, _, bs => .error (.here .eofInObject bs)
  | fuel + 1, depth, first, done, bs =>
    match nextName first bs with
    | .error e => .error e
    | .ok none => .ok (Value.ofFields done.reverse, close bs)
    | .ok (some bs) =>
      match name bs with
      | .error e => .error e
      | .ok (n, rest) =>
        match value fuel depth rest with
        | .error e => .error e
        | .ok (v, rest) => fields fuel depth false ((n, v) :: done) rest

end

/-- How many arrays and objects may be open at once, plus one. -/
def maxDepth : Nat := 128

def smallInteger (bs : Bytes) : Except Fault (Value × Bytes) := do
  let bs := skipBlanks bs
  let (v, rest) ← match bs with
    | [] => .error (.here .eofInValue [])
    | b :: rest =>
      if b = 91 ∨ b = 123 then .error (.here .mismatch (b :: rest))
      else value 2 maxDepth (b :: rest)
  match v with
  | .int n => if isSmallInteger n then .ok (v, rest) else .error (.here .mismatch rest)
  | _ => .error (.here .mismatch rest)

def smallFields : (fuel : Nat) → (first : Bool) → (done : List (String × Value)) → Bytes →
    Except Fault (Value × Bytes)
  | 0, _, _, bs => .error (.here .eofInObject bs)
  | fuel + 1, first, done, bs =>
    match nextName first bs with
    | .error e => .error e
    | .ok none => .ok (Value.ofFields done.reverse, close bs)
    | .ok (some bs) =>
      match name bs with
      | .error e => .error e
      | .ok (n, rest) =>
        match smallInteger rest with
        | .error e => .error e
        | .ok (v, rest) => smallFields fuel false ((n, v) :: done) rest

def smallIntegers (bs : Bytes) : Except Fault (Value × Bytes) :=
  match skipBlanks bs with
  | [] => .error (.here .eofInValue [])
  | b :: rest =>
    if b = 123 then smallFields (rest.length + 1) true [] rest
    else if b = 91 then .error (.here .mismatch (b :: rest))
    else match value 1 maxDepth (b :: rest) with
    | .error e => .error e
    | .ok (_, rest) => .error (.here .mismatch rest)

def shaped (shape : Shape) (bs : Bytes) : Except Fault (Value × Bytes) :=
  match shape with
  | .any => value (2 * bs.length + 2) maxDepth bs
  | .smallIntegers => smallIntegers bs

def read (shape : Shape) (bs : Bytes) : Except JsonError Value :=
  match shaped shape bs with
  | .error e => .error (.ofFault bs e)
  | .ok (v, rest) =>
    match skipBlanks rest with
    | [] => .ok v
    | more => .error (.ofFault bs (.ahead .trailingCharacters more))

end SealedHttp.Json
