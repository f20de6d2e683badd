import SealedHttp.Bytes

/-!
# Checksums

CRC-32 guards gzip members, Adler-32 guards zlib streams.
-/

namespace SealedHttp.Checksum

def crcStep (c : UInt32) : UInt32 :=
  if c &&& 1 = 1 then (c >>> 1) ^^^ 0xEDB88320 else c >>> 1

def crcTable : Array UInt32 :=
  (Array.range 256).map fun n => Nat.repeat crcStep 8 (UInt32.ofNat n)

def crcByte (c : UInt32) (b : UInt8) : UInt32 :=
  crcTable.getD ((c ^^^ b.toUInt32) &&& 0xFF).toNat 0 ^^^ (c >>> 8)

def crc32 (bs : Bytes) : Nat :=
  (bs.foldl crcByte 0xFFFFFFFF ^^^ 0xFFFFFFFF).toNat

def adlerByte (sums : Nat × Nat) (x : UInt8) : Nat × Nat :=
  let a := sums.1 + x.toNat
  (a % 65521, (sums.2 + a) % 65521)

def adler32 (bs : Bytes) : Nat :=
  let sums := bs.foldl adlerByte (1, 0)
  65536 * sums.2 + sums.1

end SealedHttp.Checksum
