import SealedHttp.Compression.Gzip
import SealedHttp.Compression.Zlib
import SealedHttp.Proofs.ByteStrings
import SealedHttp.Proofs.Compression.CodedBlocks

/-!
# Deflate streams are unpacked to what was packed

Stored blocks are read piece by piece, and a coded stream instruction by instruction. The containers
add a header and a trailer that is checked.
-/

namespace SealedHttp

namespace Deflate

open Inflate (blocks)

theorem append_take_append_drop (out : Array UInt8) (bs : Bytes) (n : Nat) :
    out ++ bs.take n ++ bs.drop n = out ++ bs := by
  apply Array.toList_inj.mp
  simp

theorem bits_first (final : Bool) (rest : Bytes) :
    ∃ r, (BitReader.ofBytes ((if final then 1 else 0) :: rest)).bits 3 = some (final.toNat, r) ∧
      r.align = BitReader.ofBytes rest := by
  cases final <;> exact ⟨_, rfl, rfl⟩

/-- The header of a stored block states the length of its bytes. -/
theorem storedBlock_header {limit : Nat} {piece rest : Bytes} {out : Array UInt8}
    (hpiece : piece.length ≤ maxStored) (hlimit : out.size + piece.length ≤ limit) :
    Inflate.storedBlock limit (.ofBytes (Bytes.ofNatLittle piece.length 2 ++
        (Bytes.ofNatLittle (65535 - piece.length) 2 ++ (piece ++ rest)))) out =
      .ok (out ++ piece, .ofBytes rest) := by
  simp only [maxStored] at hpiece
  simp only [Inflate.storedBlock, BitReader.ofBytes, Bytes.ofNatLittle, List.cons_append,
    List.nil_append, UInt8.toNat_ofNat']
  have hlength : piece.length % 256 % 2 ^ 8 + 256 * (piece.length / 256 % 256 % 2 ^ 8) =
      piece.length := by omega
  rw [hlength, if_neg (by omega), List.take_left, List.drop_left, if_neg (by omega),
    if_neg (by omega)]

theorem blocks_storedBlock {limit : Nat} (final : Bool) {piece rest : Bytes} {out : Array UInt8}
    (hpiece : piece.length ≤ maxStored) (hlimit : out.size + piece.length ≤ limit) :
    blocks limit (.ofBytes (storedBlock final piece ++ rest)) out =
      if final then .ok (out ++ piece, .ofBytes rest)
      else blocks limit (.ofBytes rest) (out ++ piece) := by
  obtain ⟨r, hbits, halign⟩ := bits_first final (Bytes.ofNatLittle piece.length 2 ++
    (Bytes.ofNatLittle (65535 - piece.length) 2 ++ (piece ++ rest)))
  have hblock :
      Inflate.block (final.toNat / 2) limit r out = .ok (out ++ piece, .ofBytes rest) := by
    rw [Inflate.block, if_pos (by cases final <;> rfl), halign,
      storedBlock_header hpiece hlimit]
  rw [storedBlock, List.cons_append, List.append_assoc, List.cons_append, List.append_assoc,
    Inflate.blocks_of_block hbits hblock]
  cases final <;> rfl

theorem blocks_stored {limit : Nat} (bs rest : Bytes) {out : Array UInt8}
    (hlimit : out.size + bs.length ≤ limit) :
    blocks limit (.ofBytes (stored bs ++ rest)) out = .ok (out ++ bs, .ofBytes rest) := by
  -- A piece goes to the end of the output, behind whatever is there.
  fun_induction stored bs generalizing out with
  | case1 bs hshort =>
    rw [blocks_storedBlock true hshort hlimit]
    rfl
  | case2 bs hlong ih =>
    have htake : (bs.take maxStored).length = maxStored := by
      rw [List.length_take]
      omega
    have hdrop : (out ++ bs.take maxStored).size + (bs.drop maxStored).length ≤ limit := by
      rw [Bytes.size_append, htake, List.length_drop]
      omega
    rw [List.append_assoc, blocks_storedBlock false htake.le (by omega)]
    simp only [Bool.false_eq_true, if_false]
    rw [ih hdrop, append_take_append_drop]

/-- Unpacking a packed stream gives the input back, and leaves what stands behind it. -/
theorem run_append (bs rest : Bytes) : Inflate.run bs.length (run bs ++ rest) = .ok (bs, rest) := by
  rw [run]
  split
  · exact Inflate.run_append rest (Inflate.run_coded bs)
  · rw [Inflate.run, blocks_stored bs rest (by simp)]
    simp [BitReader.ofBytes]

end Deflate

namespace Checksum

theorem crc32_lt (bs : Bytes) : crc32 bs < 256 ^ 4 := UInt32.toNat_lt _

theorem foldl_adlerByte_lt (bs : Bytes) {sums : Nat × Nat} (h₁ : sums.1 < 65521)
    (h₂ : sums.2 < 65521) :
    (bs.foldl adlerByte sums).1 < 65521 ∧ (bs.foldl adlerByte sums).2 < 65521 := by
  induction bs generalizing sums with
  | nil => exact ⟨h₁, h₂⟩
  | cons x bs ih => exact ih (Nat.mod_lt _ (by decide)) (Nat.mod_lt _ (by decide))

theorem adler32_lt (bs : Bytes) : adler32 bs < 256 ^ 4 := by
  have hsums : (bs.foldl adlerByte (1, 0)).1 < 65521 ∧ (bs.foldl adlerByte (1, 0)).2 < 65521 :=
    foldl_adlerByte_lt bs (by decide) (by decide)
  simp only [adler32]
  omega

end Checksum

namespace Gzip

theorem unpack_pack (bs : Bytes) : unpack bs.length (pack bs) = .ok bs := by
  have hheader : skipHeader (pack bs) = .ok (Deflate.run bs ++
      (Bytes.ofNatLittle (Checksum.crc32 bs) 4 ++ Bytes.ofNatLittle bs.length 4)) := by
    rw [pack, List.append_assoc, List.append_assoc]
    rfl
  have hcrc : (Bytes.ofNatLittle (Checksum.crc32 bs) 4 ++ Bytes.ofNatLittle bs.length 4).take 4 =
      Bytes.ofNatLittle (Checksum.crc32 bs) 4 := List.take_left' (Bytes.length_ofNatLittle _ _)
  have hlength : (Bytes.ofNatLittle (Checksum.crc32 bs) 4 ++ Bytes.ofNatLittle bs.length 4).drop 4 =
      Bytes.ofNatLittle bs.length 4 := List.drop_left' (Bytes.length_ofNatLittle _ _)
  simp only [unpack, hheader, bind, Except.bind, Deflate.run_append, hcrc, hlength]
  rw [if_neg (by simp), Bytes.toNatLittle_ofNatLittle, Nat.mod_eq_of_lt (Checksum.crc32_lt bs),
    if_neg (by simp), List.take_of_length_le (by simp), Bytes.toNatLittle_ofNatLittle,
    if_neg (by simp)]

end Gzip

namespace Zlib

theorem unpack_pack (bs : Bytes) : unpack bs.length (pack bs) = .ok bs := by
  have hpack : pack bs = 0x78 :: 0x9C :: (Deflate.run bs ++
      Bytes.ofNat (Checksum.adler32 bs) 4) := by
    rw [pack, List.append_assoc]
    rfl
  have htake : (Bytes.ofNat (Checksum.adler32 bs) 4).take 4 =
      Bytes.ofNat (Checksum.adler32 bs) 4 := List.take_of_length_le (by simp)
  rw [hpack, unpack]
  simp only [bind, Except.bind, Deflate.run_append, htake]
  rw [if_neg (by decide), if_neg (by simp), Bytes.toNat_ofNat (Checksum.adler32_lt bs),
    if_neg (by simp)]

end Zlib
end SealedHttp
