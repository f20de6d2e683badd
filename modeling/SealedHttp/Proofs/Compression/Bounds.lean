import SealedHttp.Proofs.Results
import SealedHttp.Proofs.Compression.Packing

/-!
# Nothing is unpacked beyond the limit

The bytes may come from anywhere, and so may the length that goes along with them. A block that
declares its length, or is given one, is refused for its size by that number alone. A stream is
refused once its output exceeds the limit.
-/

namespace SealedHttp

/-! ## Outputs fit their room -/

theorem Gzip.length_le_of_unpack {limit : Nat} {packed out : Bytes}
    (h : unpack limit packed = .ok out) : out.length ≤ limit :=
  le_of_within_eq_ok ((unpack_eq_within h limit).symm.trans h)

theorem Zlib.length_le_of_unpack {limit : Nat} {packed out : Bytes}
    (h : unpack limit packed = .ok out) : out.length ≤ limit :=
  le_of_within_eq_ok ((unpack_eq_within h limit).symm.trans h)

theorem Lz4.length_le_of_unpack {capacity : Nat} {packed out : Bytes}
    (h : unpack capacity packed = .ok out) : out.length ≤ capacity :=
  le_of_within_eq_ok ((unpack_eq_within h capacity).symm.trans h)

theorem Snappy.length_of_unpack {length : Nat} {body out : Bytes}
    (h : unpack length body = .ok out) : out.length = length := by
  rw [unpack] at h
  split at h
  · cases h
  · split at h <;> cases h
    assumption

namespace Compression

variable {kind : Compression} {packed out : Bytes} {announced : Option Nat} {length limit : Nat}

/-! ## The size check -/

section Check

variable {size : Nat} {unpacking : Unit → Except PackingError Bytes}

theorem checkLength_bind_eq_ok_iff :
    checkLength size >>= unpacking = .ok out ↔ size ≤ maxUnpacked ∧ unpacking () = .ok out := by
  rw [checkLength_eq_within]
  rcases Nat.lt_or_ge maxUnpacked size with hlong | hfits
  · rw [within_of_lt hlong]
    refine ⟨nofun, ?_⟩
    rintro ⟨hfits, -⟩
    omega
  · rw [within_of_le hfits]
    exact (and_iff_right hfits).symm

/-- Where unpacking itself finds no size at fault, the check alone does. -/
theorem checkLength_bind_eq_tooLarge_iff
    (hunpacking : unpacking () ≠ .error (.tooLarge length limit)) :
    checkLength size >>= unpacking = .error (.tooLarge length limit) ↔
      limit = maxUnpacked ∧ maxUnpacked < length ∧ length = size := by
  rw [checkLength_eq_within]
  rcases Nat.lt_or_ge maxUnpacked size with hlong | hfits
  · rw [within_of_lt hlong]
    constructor
    · rintro ⟨⟩
      exact ⟨rfl, hlong, rfl⟩
    · rintro ⟨rfl, -, rfl⟩
      rfl
  · rw [within_of_le hfits]
    constructor
    · exact fun h => absurd h hunpacking
    · rintro ⟨-, hlong, rfl⟩
      omega

end Check

/-! ## Streams -/

theorem eq_of_stream_eq_tooLarge {unpacked : Except Inflate.Stop Bytes}
    (h : unpacked.mapError (ofStop kind) = .error (.tooLarge length limit)) :
    length = maxUnpacked + 1 ∧ limit = maxUnpacked := by
  obtain ⟨stop, -, hstop⟩ := exists_of_mapError_eq_error h
  cases stop with
  | malformed reason => cases hstop
  | overLimit =>
    cases hstop
    exact ⟨rfl, rfl⟩

/-! ## Blocks -/

theorem decompress_snappy_eq_ok (h : snappy.decompress packed announced = .ok out) :
    out.length ≤ maxUnpacked ∧ ∃ body, Snappy.Declares packed out.length body := by
  rw [decompress] at h
  split at h
  · cases h
  · next length body hdeclared =>
    obtain ⟨hfits, hunpack⟩ := checkLength_bind_eq_ok_iff.mp h
    obtain rfl := Snappy.length_of_unpack (eq_ok_of_mapError hunpack)
    exact ⟨hfits, body, Snappy.declared?_eq_some_iff.mp hdeclared⟩

theorem decompress_snappy_eq_tooLarge_iff :
    snappy.decompress packed announced = .error (.tooLarge length limit) ↔
      limit = maxUnpacked ∧ maxUnpacked < length ∧ ∃ body, Snappy.Declares packed length body := by
  simp only [← Snappy.declared?_eq_some_iff]
  rw [decompress]
  split
  · next hdeclared => simp [hdeclared]
  · next declared body hdeclared =>
    rw [checkLength_bind_eq_tooLarge_iff, hdeclared]
    · simp [eq_comm]
    · intro h
      obtain ⟨reason, -, hreason⟩ := exists_of_mapError_eq_error h
      cases hreason

/-- The size of the buffer for the output of an LZ4 block. -/
def room (packed : Bytes) (announced : Option Nat) : Nat :=
  announced.getD (guessedCapacity packed.length)

theorem decompress_lz4_eq_ok (h : lz4.decompress packed announced = .ok out) :
    room packed announced ≤ maxUnpacked ∧ out.length ≤ room packed announced := by
  obtain ⟨hfits, hunpack⟩ := checkLength_bind_eq_ok_iff.mp h
  exact ⟨hfits, Lz4.length_le_of_unpack (eq_ok_of_mapError hunpack)⟩

theorem decompress_lz4_eq_tooLarge_iff :
    lz4.decompress packed announced = .error (.tooLarge length limit) ↔
      limit = maxUnpacked ∧ maxUnpacked < length ∧ length = room packed announced := by
  refine checkLength_bind_eq_tooLarge_iff ?_
  intro h
  obtain ⟨stop, -, hstop⟩ := exists_of_mapError_eq_error h
  cases stop <;> cases hstop

/-! ## All kinds -/

/-- What unpacking promises for arbitrary bytes and an arbitrary length that goes along. -/
structure IsBounded (kind : Compression) (packed : Bytes) (announced : Option Nat) : Prop where
  length_le : ∀ out, kind.decompress packed announced = .ok out → out.length ≤ maxUnpacked
  declared : kind = snappy → ∀ out, kind.decompress packed announced = .ok out →
    ∃ body, Snappy.Declares packed out.length body
  length_le_room : kind = lz4 → ∀ out, kind.decompress packed announced = .ok out →
    out.length ≤ room packed announced
  tooLarge_snappy : kind = snappy → ∀ length limit,
    kind.decompress packed announced = .error (.tooLarge length limit) ↔
      limit = maxUnpacked ∧ maxUnpacked < length ∧ ∃ body, Snappy.Declares packed length body
  tooLarge_lz4 : kind = lz4 → ∀ length limit,
    kind.decompress packed announced = .error (.tooLarge length limit) ↔
      limit = maxUnpacked ∧ maxUnpacked < length ∧ length = room packed announced
  /-- A stream shows the length at which it was given up. -/
  tooLarge_stream : kind = gzip ∨ kind = deflate → ∀ length limit,
    kind.decompress packed announced = .error (.tooLarge length limit) →
      length = maxUnpacked + 1 ∧ limit = maxUnpacked
  expanding_stream : kind = gzip ∨ kind = deflate → ∀ bs, kind.Unpacks packed bs →
    maxUnpacked < bs.length →
      kind.decompress packed announced = .error (.tooLarge (maxUnpacked + 1) maxUnpacked)

theorem length_le_of_decompress (hkind : kind ≠ none)
    (h : kind.decompress packed announced = .ok out) : out.length ≤ maxUnpacked := by
  cases kind with
  | none => exact absurd rfl hkind
  | gzip => exact Gzip.length_le_of_unpack (eq_ok_of_mapError h)
  | deflate => exact Zlib.length_le_of_unpack (eq_ok_of_mapError h)
  | snappy => exact (decompress_snappy_eq_ok h).1
  | lz4 =>
    obtain ⟨hroom, hfits⟩ := decompress_lz4_eq_ok h
    exact hfits.trans hroom

theorem isBounded (hkind : kind ≠ none) (packed : Bytes) (announced : Option Nat) :
    kind.IsBounded packed announced where
  length_le _ := length_le_of_decompress hkind
  declared := by
    rintro rfl out h
    exact (decompress_snappy_eq_ok h).2
  length_le_room := by
    rintro rfl out h
    exact (decompress_lz4_eq_ok h).2
  tooLarge_snappy := by
    rintro rfl length limit
    exact decompress_snappy_eq_tooLarge_iff
  tooLarge_lz4 := by
    rintro rfl length limit
    exact decompress_lz4_eq_tooLarge_iff
  tooLarge_stream := by
    rintro (rfl | rfl) length limit h
    · exact eq_of_stream_eq_tooLarge h
    · exact eq_of_stream_eq_tooLarge h
  expanding_stream := by
    rintro (rfl | rfl) bs hunpacks hlong
    · rw [hunpacks.decompress_eq_within hkind nofun, within_of_lt hlong]
      rfl
    · rw [hunpacks.decompress_eq_within hkind nofun, within_of_lt hlong]
      rfl

end Compression
end SealedHttp
