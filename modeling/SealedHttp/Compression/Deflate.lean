import SealedHttp.Compression.Inflate
import SealedHttp.Compression.Match

/-!
# Packing deflate streams

A stream is either one block in the fixed code or a sequence of stored blocks. The first is kept if
it is shorter than the input.
-/

namespace SealedHttp.Deflate

open DeflateCode

def storedBlock (final : Bool) (bs : Bytes) : Bytes :=
  (if final then 1 else 0) :: Bytes.ofNatLittle bs.length 2 ++
    Bytes.ofNatLittle (65535 - bs.length) 2 ++ bs

def maxStored : Nat := 65535

def stored (bs : Bytes) : Bytes :=
  if bs.length ≤ maxStored then storedBlock true bs
  else storedBlock false (bs.take maxStored) ++ stored (bs.drop maxStored)
termination_by bs.length
decreasing_by rw [List.length_drop]; simp only [maxStored] at *; omega

def literalWord (s : Nat) : List Bool :=
  if s < 144 then HuffmanTable.word (48 + s) 8
  else if s < 256 then HuffmanTable.word (256 + s) 9
  else if s < 280 then HuffmanTable.word (s - 256) 7
  else HuffmanTable.word (s - 88) 8

def lowBits (v : Nat) : (n : Nat) → List Bool
  | 0 => []
  | n + 1 => v.testBit 0 :: lowBits (v / 2) n

def tokenBits : Token → List Bool
  | .literal b => literalWord b.toNat
  | .copy length distance =>
    let (l, lengthBase, lengthExtra) := rangeOf lengthRanges length
    let (d, distanceBase, distanceExtra) := rangeOf distanceRanges distance
    literalWord (257 + l) ++ lowBits (length - lengthBase) lengthExtra ++
      HuffmanTable.word d 5 ++ lowBits (distance - distanceBase) distanceExtra

def bitsValue : List Bool → Nat
  | [] => 0
  | b :: bs => b.toNat + 2 * bitsValue bs

/-- Bits as bytes, low bit first, the last byte filled up with zeros; `done` stands in front, last
byte first. -/
def pack (done : Bytes) : List Bool → Bytes
  | b₀ :: b₁ :: b₂ :: b₃ :: b₄ :: b₅ :: b₆ :: b₇ :: rest =>
    pack (UInt8.ofNat (bitsValue [b₀, b₁, b₂, b₃, b₄, b₅, b₆, b₇]) :: done) rest
  | [] => done.reverse
  | last => (UInt8.ofNat (bitsValue last) :: done).reverse

def coded (bs : Bytes) : Bytes :=
  let tokens := Match.tokens ⟨32768, 258⟩ bs
  pack [] ([true, true, false] ++ tokens.flatMap tokenBits ++ literalWord 256)

def run (bs : Bytes) : Bytes :=
  if (coded bs).length < bs.length then coded bs else stored bs

end SealedHttp.Deflate
