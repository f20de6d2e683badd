import SealedHttp.Body.Value
import SealedHttp.Text.Quoted

/-!
# Heads of CBOR items

Every item starts with a head: a major type and an argument, which is part of the first byte or
follows it. Heads are written with the shortest argument.
-/

namespace SealedHttp.Cbor

inductive Fault where
  | ended
  /-- No well-formed item starts at the given offset. -/
  | malformed (offset : Nat)
  | mismatch (found expected : String)
  | other (text : String)
  | tooDeep
  deriving DecidableEq, Repr

/-- The wording of a fault that concerns the meaning of an item. -/
def Fault.semantic (text : String) : String :=
  let shown := Text.quoted text
  s!"Semantic(None, {shown})"

def Fault.message : Fault → String
  | ended => "Io(Error \x7b kind: UnexpectedEof, message: \"failed to fill whole buffer\" \x7d)"
  | malformed offset => s!"Syntax({offset})"
  | mismatch found expected => semantic s!"invalid type: {found}, expected {expected}"
  | other text => semantic text
  | tooDeep => "RecursionLimitExceeded"

/-- A head. A missing length means that a stop follows the contents. -/
inductive Head where
  | positive (n : Nat)
  | negative (n : Nat)
  | bytes (length : Option Nat)
  | text (length : Option Nat)
  | array (length : Option Nat)
  | map (length : Option Nat)
  | tag (n : Nat)
  | simple (n : Nat)
  | float (d : Double)
  | stop
  deriving Repr

def Head.describe : Head → String
  | positive n => s!"integer `{n}`"
  | negative n => let v : Int := -1 - n; s!"integer `{v}`"
  | bytes _ => "bytes"
  | text _ => "string"
  | array _ => "sequence"
  | map _ => "map"
  | tag _ => "tag"
  | simple 20 => "boolean `false`"
  | simple 21 => "boolean `true`"
  | simple 22 => "null"
  | simple 23 => "undefined"
  | simple _ => "simple"
  | float _ => "floating point"
  | stop => "break"

inductive Argument where
  | inline (n : Nat)
  | following (width n : Nat)
  | unbounded

/-- Reads the argument whose low bits in the first byte are `low`; `offset` is that of the byte. -/
def argument (offset low : Nat) (bs : Bytes) : Except Fault (Argument × Bytes) :=
  if low < 24 then .ok (.inline low, bs)
  else if low < 28 then
    let width := 1 <<< (low - 24)
    match Bytes.split? width bs with
    | some (digits, rest) => .ok (.following width (Bytes.toNat digits), rest)
    | none => .error .ended
  else if low = 31 then .ok (.unbounded, bs)
  else .error (.malformed offset)

def Argument.number? : Argument → Option Nat
  | inline n => some n
  | following _ n => some n
  | unbounded => none

/-- The head of an item with the given major type; `none` when there is no such head. -/
def ofArgument? (major : Nat) (a : Argument) : Option Head :=
  match major with
  | 0 => a.number?.map .positive
  | 1 => a.number?.map .negative
  | 2 => some (.bytes a.number?)
  | 3 => some (.text a.number?)
  | 4 => some (.array a.number?)
  | 5 => some (.map a.number?)
  | 6 => a.number?.map .tag
  | _ =>
    match a with
    | .inline n => some (.simple n)
    | .following 1 n => some (.simple n)
    | .following 2 n => some (.float (Double.half.widen n))
    | .following 4 n => some (.float (Double.single.widen n))
    | .following _ n => some (.float ⟨UInt64.ofNat n⟩)
    | .unbounded => some .stop

def head (total : Nat) (bs : Bytes) : Except Fault (Head × Bytes) :=
  match bs with
  | [] => .error .ended
  | b :: rest =>
    let offset := total - bs.length
    match argument offset (b.toNat % 32) rest with
    | .error e => .error e
    | .ok (a, rest) =>
      match ofArgument? (b.toNat / 32) a with
      | some h => .ok (h, rest)
      | none => .error (.malformed offset)

def write (major n : Nat) : Bytes :=
  let first (low : Nat) : UInt8 := UInt8.ofNat (32 * major + low)
  if n < 24 then [first n]
  else if n < 0x100 then first 24 :: Bytes.ofNat n 1
  else if n < 0x10000 then first 25 :: Bytes.ofNat n 2
  else if n < 0x100000000 then first 26 :: Bytes.ofNat n 4
  else first 27 :: Bytes.ofNat n 8

end SealedHttp.Cbor
