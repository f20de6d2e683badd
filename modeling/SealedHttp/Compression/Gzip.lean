import SealedHttp.Checksum
import SealedHttp.Compression.Deflate

/-!
# Gzip members

A member is a header with optional fields, a deflate stream and a trailer with the checksum and the
length of the output. One member is read; what follows it does not matter.
-/

namespace SealedHttp.Gzip

open Inflate (Stop truncated)

def maxField : Nat := 65535

structure Flags where
  headerCheck : Bool
  extra : Bool
  name : Bool
  comment : Bool
  reserved : Bool

def Flags.ofByte (b : UInt8) : Flags where
  headerCheck := b.toNat.testBit 1
  extra := b.toNat.testBit 2
  name := b.toNat.testBit 3
  comment := b.toNat.testBit 4
  reserved := 32 ≤ b

def skipExtra : Bytes → Except Stop Bytes
  | a :: b :: rest =>
    match Bytes.split? (a.toNat + 256 * b.toNat) rest with
    | some (_, rest) => .ok rest
    | none => .error truncated
  | _ => .error truncated

def skipText (bs : Bytes) : Except Stop Bytes :=
  match bs.dropWhile (· ≠ 0) with
  | [] => .error truncated
  | _ :: rest =>
    if maxField < bs.length - rest.length - 1 then .error (.malformed "header field too long")
    else .ok rest

/-- Checks the two low bytes of the checksum over the header read so far. -/
def skipCheck (all rest : Bytes) : Except Stop Bytes :=
  match rest with
  | a :: b :: behind =>
    if a.toNat + 256 * b.toNat = Checksum.crc32 (all.take (all.length - rest.length)) % 65536 then
      .ok behind
    else .error (.malformed "header checksum mismatch")
  | _ => .error truncated

def skipIf (present : Bool) (step : Bytes → Except Stop Bytes) (bs : Bytes) : Except Stop Bytes :=
  if present then step bs else .ok bs

def skipHeader (all : Bytes) : Except Stop Bytes :=
  match all with
  | 0x1F :: 0x8B :: 8 :: flagByte :: _ :: _ :: _ :: _ :: _ :: _ :: rest =>
    let flags := Flags.ofByte flagByte
    if flags.reserved then .error (.malformed "reserved header flag")
    else do
      let rest ← skipIf flags.extra skipExtra rest
      let rest ← skipIf flags.name skipText rest
      let rest ← skipIf flags.comment skipText rest
      skipIf flags.headerCheck (skipCheck all) rest
  | _ => .error (.malformed "invalid gzip header")

def unpack (limit : Nat) (bs : Bytes) : Except Stop Bytes := do
  let body ← skipHeader bs
  let (out, rest) ← Inflate.run limit body
  if rest.length < 8 then .error truncated
  else if Bytes.toNatLittle (rest.take 4) ≠ Checksum.crc32 out then
    .error (.malformed "checksum mismatch")
  else if Bytes.toNatLittle ((rest.drop 4).take 4) ≠ out.length % 4294967296 then
    .error (.malformed "length mismatch")
  else .ok out

def header : Bytes := [0x1F, 0x8B, 8, 0, 0, 0, 0, 0, 0, 0xFF]

def pack (bs : Bytes) : Bytes :=
  header ++ Deflate.run bs ++ Bytes.ofNatLittle (Checksum.crc32 bs) 4 ++
    Bytes.ofNatLittle bs.length 4

end SealedHttp.Gzip
