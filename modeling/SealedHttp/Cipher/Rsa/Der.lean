import SealedHttp.Bytes

/-!
# Distinguished encoding

Just enough of it for keys: definite lengths in their shortest form, sequences, non-negative
integers in their shortest form, octet and bit strings.
-/

namespace SealedHttp.Der

structure Element where
  tag : UInt8
  content : Bytes
  rest : Bytes
  deriving Repr

/-- Reads a length of up to four bytes in its shortest form. -/
def length? : Bytes → Option (Nat × Bytes)
  | [] => none
  | b :: rest =>
    let n := b.toNat
    if n < 128 then some (n, rest)
    else if n = 128 ∨ 132 < n then none
    else do
      let (digits, rest) ← Bytes.split? (n - 128) rest
      let v := Bytes.toNat digits
      if 128 ≤ v ∧ Bytes.sizeOfNat v = n - 128 then some (v, rest) else none

def element? : Bytes → Option Element
  | [] => none
  | tag :: rest => do
    let (n, rest) ← length? rest
    let (content, rest) ← Bytes.split? n rest
    some ⟨tag, content, rest⟩

def expect? (tag : UInt8) (bs : Bytes) : Option (Bytes × Bytes) :=
  match element? bs with
  | some e => if e.tag = tag then some (e.content, e.rest) else none
  | none => none

/-- The content of an element with the given tag that nothing follows. -/
def whole? (tag : UInt8) (bs : Bytes) : Option Bytes :=
  match expect? tag bs with
  | some (content, []) => some content
  | _ => none

def integerTag : UInt8 := 0x02
def bitStringTag : UInt8 := 0x03
def octetStringTag : UInt8 := 0x04
def sequenceTag : UInt8 := 0x30

def natural? : Bytes → Option Nat
  | [] => none
  | [b] => if b < 0x80 then some b.toNat else none
  | a :: b :: rest =>
    if a < 0x80 ∧ ¬(a = 0 ∧ b < 0x80) then some (Bytes.toNat (a :: b :: rest)) else none

def naturals? : (n : Nat) → Bytes → Option (List Nat × Bytes)
  | 0, bs => some ([], bs)
  | n + 1, bs => do
    let (content, bs) ← expect? integerTag bs
    let v ← natural? content
    let (vs, bs) ← naturals? n bs
    some (v :: vs, bs)

end SealedHttp.Der
