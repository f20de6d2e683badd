import SealedHttp.Bytes
import SealedHttp.Text.Quoted

/-!
# Hexadecimal armor

Two digits for each byte, high half first. Writing uses lower case; reading takes both cases.
-/

namespace SealedHttp

inductive HexError where
  | oddLength
  | invalidDigit (byte : UInt8) (index : Nat)
  deriving DecidableEq, Repr

/-- The wording of an armor error; the offending byte is shown as the Latin-1 character it is. -/
def HexError.message : HexError → String
  | .oddLength => "Odd number of digits"
  | .invalidDigit byte index =>
    let shown := Text.quotedChar (Char.ofNat byte.toNat)
    s!"Invalid character {shown} at position {index}"

namespace Hex

def digit (n : Nat) : UInt8 :=
  UInt8.ofNat (if n < 10 then 48 + n else 87 + n)

def value? (b : UInt8) : Option Nat :=
  let n := b.toNat
  if 48 ≤ n ∧ n ≤ 57 then some (n - 48)
  else if 97 ≤ n ∧ n ≤ 102 then some (n - 87)
  else if 65 ≤ n ∧ n ≤ 70 then some (n - 55)
  else none

def encode (bs : Bytes) : Bytes :=
  bs.flatMap fun b => [digit (b.toNat / 16), digit (b.toNat % 16)]

/-- The bytes behind pairs of digits, the first of which stands at `index`. -/
def decodePairs (index : Nat) : Bytes → Except HexError Bytes
  | [] => .ok []
  | [_] => .error .oddLength
  | a :: b :: rest =>
    match value? a, value? b with
    | some x, some y =>
      (decodePairs (index + 2) rest).map (UInt8.ofNat (16 * x + y) :: ·)
    | none, _ => .error (.invalidDigit a index)
    | some _, none => .error (.invalidDigit b (index + 1))

/-- Reads hexadecimal armor. An odd number of digits is refused before any digit is looked at. -/
def decode (t : Bytes) : Except HexError Bytes :=
  if t.length % 2 = 1 then .error .oddLength else decodePairs 0 t

def text (bs : Bytes) : String :=
  String.ofList ((encode bs).map fun b => Char.ofNat b.toNat)

end Hex
end SealedHttp
