import SealedHttp.Proofs.Compression.Bounds

/-!
# Announced lengths

An LZ4 block does not tell how long its output is; whoever unpacks it is told beforehand, or
guesses. The length decides whether the output fits and nothing else: a wrong one can make unpacking
fail, but no block has two outputs.
-/

namespace SealedHttp.Compression

variable {block out : Bytes} {n : Nat}

theorem unpack_of_decompress_lz4 {announced : Option Nat}
    (h : lz4.decompress block announced = .ok out) :
    Lz4.unpack (room block announced) block = .ok out :=
  eq_ok_of_mapError (checkLength_bind_eq_ok_iff.mp h).2

/-- A length above the limit is refused for any block. -/
theorem decompress_lz4_of_lt (block : Bytes) (h : maxUnpacked < n) :
    lz4.decompress block (some n) = .error (.tooLarge n maxUnpacked) :=
  decompress_lz4_eq_tooLarge_iff.mpr ⟨rfl, h, rfl⟩

/-- A block that fits some buffer is unpacked to the same bytes in every buffer that holds them, and
finds every other one too small. -/
theorem decompress_lz4_eq_within {capacity : Nat} (h : Lz4.unpack capacity block = .ok out)
    (hn : n ≤ maxUnpacked) :
    lz4.decompress block (some n) = within (.capacity n) n out.length out := by
  simp only [decompress, Option.getD_some]
  rw [checkLength_eq_within, within_of_le hn, Lz4.unpack_eq_within h n]
  exact mapError_within _

/-- Without a length the guess stands for it. -/
theorem decompress_lz4_none (block : Bytes) :
    lz4.decompress block Option.none = lz4.decompress block (some (guessedCapacity block.length)) :=
  rfl

theorem decompress_lz4_eq_some (block : Bytes) (announced : Option Nat) :
    lz4.decompress block announced = lz4.decompress block (some (room block announced)) := by
  cases announced <;> rfl

/-- How the unpacking of an LZ4 block depends on the length that is announced for it. -/
structure DependsOnFit (block : Bytes) : Prop where
  length_le : ∀ n out, lz4.decompress block (some n) = .ok out → out.length ≤ n
  ok_of_fits : ∀ n out, lz4.decompress block (some n) = .ok out →
    ∀ m, out.length ≤ m → m ≤ maxUnpacked → lz4.decompress block (some m) = .ok out
  capacity_of_short : ∀ n out, lz4.decompress block (some n) = .ok out →
    ∀ m, m < out.length → lz4.decompress block (some m) = .error (.capacity m)
  tooLarge_of_long : ∀ m, maxUnpacked < m →
    lz4.decompress block (some m) = .error (.tooLarge m maxUnpacked)
  guessed : lz4.decompress block Option.none =
    lz4.decompress block (some (min (5 * block.length) Decimal.maxWord))
  /-- With or without lengths, right or wrong ones: what comes out is the same. -/
  out_eq : ∀ announced announced' out out', lz4.decompress block announced = .ok out →
    lz4.decompress block announced' = .ok out' → out = out'

/-- Hostile blocks are no exception: only the size of the output counts against the length. -/
theorem dependsOnFit (block : Bytes) : DependsOnFit block where
  length_le _ _ h := (decompress_lz4_eq_ok h).2
  ok_of_fits n out h m hfits hm := by
    rw [decompress_lz4_eq_within (unpack_of_decompress_lz4 h) hm, within_of_le hfits]
  capacity_of_short n out h m hshort := by
    obtain ⟨hroom, hfits⟩ := decompress_lz4_eq_ok h
    have hm : m ≤ maxUnpacked := hshort.le.trans (hfits.trans hroom)
    rw [decompress_lz4_eq_within (unpack_of_decompress_lz4 h) hm, within_of_lt hshort]
  tooLarge_of_long _ := decompress_lz4_of_lt block
  guessed := decompress_lz4_none block
  out_eq announced announced' out out' h h' := by
    obtain ⟨hroom, hfits⟩ := decompress_lz4_eq_ok h'
    rw [decompress_lz4_eq_some, decompress_lz4_eq_within (unpack_of_decompress_lz4 h) hroom] at h'
    rw [within] at h'
    split at h' <;> cases h'
    rfl

/-- One letter, its copy over itself and another letter. -/
theorem dependsOnFit_overlapping :
    lz4.decompress [0x10, 0x61, 1, 0, 0x10, 0x62] (some 6) = .ok [97, 97, 97, 97, 97, 98] ∧
    lz4.decompress [0x10, 0x61, 1, 0, 0x10, 0x62] (some 67108864) =
      .ok [97, 97, 97, 97, 97, 98] ∧
    lz4.decompress [0x10, 0x61, 1, 0, 0x10, 0x62] (some 5) = .error (.capacity 5) ∧
    lz4.decompress [0x10, 0x61, 1, 0, 0x10, 0x62] (some 67108865) =
      .error (.tooLarge 67108865 67108864) := by
  have hfits : lz4.decompress [0x10, 0x61, 1, 0, 0x10, 0x62] (some 6) =
      .ok [97, 97, 97, 97, 97, 98] := by
    decide +kernel
  have hdepends := dependsOnFit [0x10, 0x61, 1, 0, 0x10, 0x62]
  exact ⟨hfits, hdepends.ok_of_fits _ _ hfits _ (by decide) le_rfl,
    hdepends.capacity_of_short _ _ hfits _ (by decide), hdepends.tooLarge_of_long _ (by decide)⟩

end SealedHttp.Compression
