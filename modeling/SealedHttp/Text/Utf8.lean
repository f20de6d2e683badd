import SealedHttp.Bytes

/-!
# UTF-8

Decoding stops at the first sequence that no character has and says where it stands and how many
bytes rule it out. Lossy decoding puts one replacement character in place of each such sequence.
-/

namespace SealedHttp

structure Utf8Error where
  /-- Length of the longest well-formed beginning. -/
  validUpTo : Nat
  /-- Bytes of the sequence that cannot be continued; `none` when the input ends inside it. -/
  badLength : Option Nat
  deriving DecidableEq, Repr

namespace Utf8

inductive Scan where
  | char (c : Char) (tail : Nat)
  /-- A sequence of `length` bytes that no character starts with. -/
  | bad (length : Nat)
  | truncated
  deriving Repr

def isTail (b : UInt8) : Bool := 0x80 ≤ b && b < 0xC0

private def ofCode (n : Nat) : Char := Char.ofNat n

/-- Whether `b` may follow the first byte `a` of a character of three or four bytes. -/
def second (a b : UInt8) : Bool :=
  if a == 0xE0 then 0xA0 ≤ b && b < 0xC0
  else if a == 0xED then 0x80 ≤ b && b < 0xA0
  else if a == 0xF0 then 0x90 ≤ b && b < 0xC0
  else if a == 0xF4 then 0x80 ≤ b && b < 0x90
  else isTail b

def scan (a : UInt8) (rest : Bytes) : Scan :=
  let n := a.toNat
  let low (b : UInt8) := b.toNat % 64
  if a < 0x80 then .char (ofCode n) 0
  else if 0xC2 ≤ a && a < 0xE0 then
    match rest with
    | [] => .truncated
    | b :: _ => if isTail b then .char (ofCode (64 * (n % 32) + low b)) 1 else .bad 1
  else if 0xE0 ≤ a && a < 0xF0 then
    match rest with
    | [] => .truncated
    | b :: rest =>
      if second a b then
        match rest with
        | [] => .truncated
        | c :: _ =>
          if isTail c then .char (ofCode (4096 * (n % 16) + 64 * low b + low c)) 2 else .bad 2
      else .bad 1
  else if 0xF0 ≤ a && a < 0xF5 then
    match rest with
    | [] => .truncated
    | b :: rest =>
      if second a b then
        match rest with
        | [] => .truncated
        | c :: rest =>
          if isTail c then
            match rest with
            | [] => .truncated
            | d :: _ =>
              if isTail d then
                .char (ofCode (262144 * (n % 8) + 4096 * low b + 64 * low c + low d)) 3
              else .bad 3
          else .bad 2
      else .bad 1
  else .bad 1

def decodeFrom (pos : Nat) : Bytes → Except Utf8Error (List Char)
  | [] => .ok []
  | a :: rest =>
    match scan a rest with
    | .char c tail => (decodeFrom (pos + 1 + tail) (rest.drop tail)).map (c :: ·)
    | .bad length => .error ⟨pos, some length⟩
    | .truncated => .error ⟨pos, none⟩
termination_by bs => bs.length
decreasing_by all_goals simp only [List.length_drop, List.length_cons]; omega

def decode (bs : Bytes) : Except Utf8Error String :=
  (decodeFrom 0 bs).map String.ofList

/-- The characters of bytes, each ill-formed sequence read as U+FFFD. -/
def decodeLossyList : Bytes → List Char
  | [] => []
  | a :: rest =>
    match scan a rest with
    | .char c tail => c :: decodeLossyList (rest.drop tail)
    | .bad length => '\uFFFD' :: decodeLossyList (rest.drop (length - 1))
    | .truncated => ['\uFFFD']
termination_by bs => bs.length
decreasing_by all_goals simp only [List.length_drop, List.length_cons]; omega

def decodeLossy (bs : Bytes) : String :=
  String.ofList (decodeLossyList bs)

end Utf8

def Utf8Error.message : Utf8Error → String
  | ⟨pos, some n⟩ => s!"invalid utf-8 sequence of {n} bytes from index {pos}"
  | ⟨pos, none⟩ => s!"incomplete utf-8 byte sequence from index {pos}"

end SealedHttp
