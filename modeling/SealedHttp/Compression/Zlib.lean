import SealedHttp.Checksum
import SealedHttp.Compression.Deflate

/-!
# Zlib streams

Two header bytes, a deflate stream and the Adler-32 checksum of the output. What follows does not
matter.
-/

namespace SealedHttp.Zlib

open Inflate (Stop truncated)

def unpack (limit : Nat) : Bytes → Except Stop Bytes
  | method :: flags :: body =>
    let m := method.toNat
    if m % 16 ≠ 8 ∨ 7 < m / 16 ∨ (256 * m + flags.toNat) % 31 ≠ 0 ∨ flags.toNat.testBit 5 then
      .error (.malformed "invalid zlib header")
    else do
      let (out, rest) ← Inflate.run limit body
      if rest.length < 4 then .error truncated
      else if Bytes.toNat (rest.take 4) ≠ Checksum.adler32 out then
        .error (.malformed "checksum mismatch")
      else .ok out
  | _ => .error truncated

def pack (bs : Bytes) : Bytes :=
  [0x78, 0x9C] ++ Deflate.run bs ++ Bytes.ofNat (Checksum.adler32 bs) 4

end SealedHttp.Zlib
