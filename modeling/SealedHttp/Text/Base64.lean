import SealedHttp.Bytes

/-!
# Base64 armor

The standard alphabet with required padding. Each byte string has exactly one armored form:
missing padding and non-zero trailing bits are refused.
-/

namespace SealedHttp

inductive Base64Error where
  | invalidSymbol (byte : UInt8) (offset : Nat)
  | invalidLength (length : Nat)
  | invalidLastSymbol (byte : UInt8) (offset : Nat)
  | invalidPadding
  deriving DecidableEq, Repr

def Base64Error.message : Base64Error → String
  | .invalidSymbol byte offset => s!"Invalid symbol {byte.toNat}, offset {offset}."
  | .invalidLength length => s!"Invalid input length: {length}"
  | .invalidLastSymbol byte offset => s!"Invalid last symbol {byte.toNat}, offset {offset}."
  | .invalidPadding => "Invalid padding"

namespace Base64

def symbol (n : Nat) : UInt8 :=
  UInt8.ofNat <|
    if n < 26 then 65 + n
    else if n < 52 then 71 + n
    else if n < 62 then n - 4
    else if n = 62 then 43
    else 47

def value? (b : UInt8) : Option Nat :=
  let n := b.toNat
  if 65 ≤ n ∧ n ≤ 90 then some (n - 65)
  else if 97 ≤ n ∧ n ≤ 122 then some (n - 71)
  else if 48 ≤ n ∧ n ≤ 57 then some (n + 4)
  else if n = 43 then some 62
  else if n = 47 then some 63
  else none

def pad : UInt8 := 61

/-- Three bytes become four symbols; a shorter last group is padded. -/
def encode : Bytes → Bytes
  | [] => []
  | [a] =>
    let n := a.toNat
    [symbol (n / 4), symbol (n % 4 * 16), pad, pad]
  | [a, b] =>
    let n := 256 * a.toNat + b.toNat
    [symbol (n / 1024), symbol (n / 16 % 64), symbol (n % 16 * 4), pad]
  | a :: b :: c :: rest =>
    let n := 65536 * a.toNat + 256 * b.toNat + c.toNat
    symbol (n / 262144) :: symbol (n / 4096 % 64) :: symbol (n / 64 % 64) :: symbol (n % 64) ::
      encode rest

/-- The bytes behind the values of symbols; `none` when bits that no byte holds are not zero or a
single symbol is left over. -/
def group? : List Nat → Option Bytes
  | [] => some []
  | [_] => none
  | [x, y] => if y % 16 = 0 then some [UInt8.ofNat (4 * x + y / 16)] else none
  | [x, y, z] =>
    if z % 4 = 0 then
      some [UInt8.ofNat (4 * x + y / 16), UInt8.ofNat (y % 16 * 16 + z / 4)]
    else none
  | x :: y :: z :: w :: rest =>
    (group? rest).map fun bs =>
      UInt8.ofNat (4 * x + y / 16) :: UInt8.ofNat (y % 16 * 16 + z / 4) ::
        UInt8.ofNat (z % 4 * 64 + w) :: bs

def stranger? (offset : Nat) : Bytes → Option (UInt8 × Nat)
  | [] => none
  | b :: rest => if (value? b).isNone then some (b, offset) else stranger? (offset + 1) rest

/-- Reads base64 armor. The checks come in a fixed order: a stray last byte, the first byte that
cannot stand where it stands, a single symbol left over, the padding, the trailing bits. -/
def decode (t : Bytes) : Except Base64Error Bytes :=
  let body := t.takeWhile (· ≠ pad)
  let tail := t.dropWhile (· ≠ pad)
  let last := t.getLastD pad
  if t.length % 4 = 1 ∧ (value? last).isNone ∧ last ≠ pad then
    .error (.invalidSymbol last (t.length - 1))
  else match stranger? 0 body with
  | some (b, offset) => .error (.invalidSymbol b offset)
  | none =>
    if tail ≠ [] ∧ ¬(2 ≤ body.length % 4 ∧ tail.all (· == pad) ∧
        tail.length ≤ 4 - body.length % 4) then
      .error (.invalidSymbol pad body.length)
    else if body.length % 4 = 1 then .error (.invalidLength t.length)
    else if t.length % 4 ≠ 0 then .error .invalidPadding
    else match group? (body.filterMap value?) with
    | some bs => .ok bs
    | none => .error (.invalidLastSymbol (body.getLastD pad) (body.length - 1))

def text (bs : Bytes) : String :=
  String.ofList ((encode bs).map fun b => Char.ofNat b.toNat)

end Base64
end SealedHttp
