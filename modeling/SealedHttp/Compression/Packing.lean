import SealedHttp.Compression.Gzip
import SealedHttp.Compression.Kind
import SealedHttp.Compression.Lz4
import SealedHttp.Compression.Snappy
import SealedHttp.Compression.Zlib
import SealedHttp.Text.Basic

/-!
# Packing and unpacking payloads

Unpacking never gives more than the limit of 64 MiB. Where a format announces its size, or the
caller does, a size above the limit is refused before anything is unpacked.
-/

namespace SealedHttp.Compression

def checkLength (length : Nat) : Except PackingError Unit :=
  if maxUnpacked < length then .error (.tooLarge length maxUnpacked) else .ok ()

/-- Room for the output of an LZ4 block whose length is unknown: five times the block, as far as a
word of 64 bits can say. -/
def guessedCapacity (packed : Nat) : Nat := min (5 * packed) Decimal.maxWord

/-- The error of a stream format. An output above the limit is reported with the length at which
unpacking stopped. -/
def ofStop (kind : Compression) : Inflate.Stop → PackingError
  | .malformed reason => .malformed kind reason
  | .overLimit => .tooLarge (maxUnpacked + 1) maxUnpacked

/-- Packs a payload. An empty payload has a packed form, too. -/
def compress (kind : Compression) (bs : Bytes) : Except PackingError Bytes :=
  match kind with
  | none => .ok bs
  | gzip => .ok (Gzip.pack bs)
  | deflate => .ok (Zlib.pack bs)
  | snappy =>
    if 0x100000000 ≤ bs.length then .error (.malformed snappy "input too big")
    else .ok (Snappy.pack bs)
  | lz4 => .ok (Lz4.pack bs)

def decompress (kind : Compression) (bs : Bytes) (originalLength : Option Nat) :
    Except PackingError Bytes :=
  match kind with
  | none => .ok bs
  | gzip => (Gzip.unpack maxUnpacked bs).mapError (ofStop gzip)
  | deflate => (Zlib.unpack maxUnpacked bs).mapError (ofStop deflate)
  | snappy =>
    match Snappy.declared? bs with
    | Option.none => .error (.malformed snappy "invalid length")
    | some (length, body) => do
      checkLength length
      (Snappy.unpack length body).mapError (.malformed snappy)
  | lz4 => do
    let capacity := originalLength.getD (guessedCapacity bs.length)
    checkLength capacity
    (Lz4.unpack capacity bs).mapError fun
      | .malformed reason => .malformed lz4 reason
      | .full => .capacity capacity

end SealedHttp.Compression
