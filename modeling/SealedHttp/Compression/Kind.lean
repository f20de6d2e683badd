/-!
# Compression kinds

The five ways a payload may be packed, their wire codes and what can go wrong in unpacking.
-/

namespace SealedHttp

inductive Compression where
  | none
  | gzip
  | deflate
  | snappy
  | lz4
  deriving DecidableEq, Repr, Inhabited

namespace Compression

def code : Compression → Nat
  | none => 0
  | gzip => 1
  | deflate => 2
  | snappy => 3
  | lz4 => 4

def ofCode? : Nat → Option Compression
  | 0 => some none
  | 1 => some gzip
  | 2 => some deflate
  | 3 => some snappy
  | 4 => some lz4
  | _ => Option.none

def name : Compression → String
  | none => "none"
  | gzip => "gzip"
  | deflate => "deflate"
  | snappy => "snappy"
  | lz4 => "lz4"

def isNone (k : Compression) : Bool := k = none

/-- Whether unpacking must be told the length beforehand. -/
def needsOriginalLength (k : Compression) : Bool := k = lz4

theorem ofCode?_code (k : Compression) : ofCode? k.code = some k := by cases k <;> rfl

end Compression

/-- Nothing unpacks to more than 64 MiB. -/
def maxUnpacked : Nat := 67108864

inductive PackingError where
  | malformed (kind : Compression) (reason : String)
  /-- The result does not fit into the announced number of bytes. -/
  | capacity (size : Nat)
  /-- The result, or the room asked for it, exceeds the limit. -/
  | tooLarge (length limit : Nat)
  deriving DecidableEq, Repr

def PackingError.message : PackingError → String
  | .malformed kind reason => s!"malformed {kind.name} payload: {reason}"
  | .capacity size => s!"lz4 output buffer of {size} bytes is too small"
  | .tooLarge length limit => s!"decompressed length {length} exceeds the limit of {limit} bytes"

end SealedHttp
