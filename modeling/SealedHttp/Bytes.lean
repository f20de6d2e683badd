/-!
# Byte strings

Payloads, keys and header values are lists of bytes. This module holds the views that the rest of
the library needs: the bytes of a text, fixed-size chunks and big-endian naturals.
-/

namespace SealedHttp

abbrev Bytes := List UInt8

namespace Bytes

def ofText (s : String) : Bytes :=
  s.toList.flatMap String.utf8EncodeChar

/-- The natural number whose base-256 digits, most significant first, are the given bytes. -/
def toNat (bs : Bytes) : Nat :=
  bs.foldl (fun n b => 256 * n + b.toNat) 0

/-- The `k` low base-256 digits of `n`, most significant first. -/
def ofNat (n : Nat) : (k : Nat) → Bytes
  | 0 => []
  | k + 1 => ofNat (n / 256) k ++ [UInt8.ofNat (n % 256)]

def toNatLittle : Bytes → Nat
  | [] => 0
  | b :: bs => b.toNat + 256 * toNatLittle bs

def ofNatLittle (n : Nat) : (k : Nat) → Bytes
  | 0 => []
  | k + 1 => UInt8.ofNat (n % 256) :: ofNatLittle (n / 256) k

/-- Consecutive pieces of `k` bytes, the last one possibly shorter; none at all when `k` is zero. -/
def chunks : (k : Nat) → Bytes → List Bytes
  | 0, _ => []
  | _ + 1, [] => []
  | k + 1, b :: bs => (b :: bs.take k) :: chunks (k + 1) (bs.drop k)
termination_by _ bs => bs.length
decreasing_by rw [List.length_drop, List.length_cons]; omega

/-- The first `n` bytes and what follows them, `none` when there are fewer. -/
def split? (n : Nat) (bs : Bytes) : Option (Bytes × Bytes) :=
  let front := bs.take n
  if front.length = n then some (front, bs.drop n) else none

def sizeOfNat (n : Nat) : Nat :=
  if n = 0 then 0 else n.log2 / 8 + 1

end Bytes
end SealedHttp
