import SealedHttp.Compression.Packing
import SealedHttp.Proofs.Compression.Deflate
import SealedHttp.Proofs.Compression.Limits
import SealedHttp.Proofs.Compression.Snappy

/-!
# Packed payloads are unpacked again

Every payload has a packed form of every kind. Whoever wrote a packed form, it unpacks to its
payload up to the limit and is refused above, when the original length is given where it is needed.
The three ways in which the limit is enforced agree on the byte that it falls on.
-/

namespace SealedHttp.Compression

/-- The length that goes along with a packed payload. -/
def announcedLength (kind : Compression) (length : Nat) : Option Nat :=
  if kind.needsOriginalLength then some length else Option.none

/-- The packed forms of a payload: they unpack to it where there is room enough. -/
def Unpacks : (kind : Compression) → (packed bs : Bytes) → Prop
  | none, packed, bs => packed = bs
  | gzip, packed, bs => ∃ limit, Gzip.unpack limit packed = .ok bs
  | deflate, packed, bs => ∃ limit, Zlib.unpack limit packed = .ok bs
  | snappy, packed, bs =>
    ∃ body, Snappy.declared? packed = some (bs.length, body) ∧ Snappy.unpack bs.length body = .ok bs
  | lz4, packed, bs => ∃ capacity, Lz4.unpack capacity packed = .ok bs

/-- The length that a refusal shows. Streams are unpacked up to the first byte above the limit, the
blocks tell their length beforehand. -/
def refusedLength : (kind : Compression) → (length : Nat) → Nat
  | gzip, _ => maxUnpacked + 1
  | deflate, _ => maxUnpacked + 1
  | _, length => length

/-- A packed form opens to its payload up to the limit, and is refused for its size above. Only LZ4
looks at the length that is announced. -/
def OpensUpToLimit (kind : Compression) (packed bs : Bytes) : Prop :=
  ∀ announced, (kind = lz4 → announced = some bs.length) →
    kind.decompress packed announced =
      if bs.length ≤ maxUnpacked then .ok bs
      else .error (.tooLarge (kind.refusedLength bs.length) maxUnpacked)

theorem checkLength_eq_within (length : Nat) :
    checkLength length = within (.tooLarge length maxUnpacked) maxUnpacked length () :=
  ite_eq_within

/-! ## Packing -/

/-- Only snappy refuses inputs, and only far above the limit. -/
theorem exists_compress (kind : Compression) {bs : Bytes} (hlength : bs.length < 0x100000000) :
    ∃ packed, kind.compress bs = .ok packed := by
  cases kind with
  | none => exact ⟨_, rfl⟩
  | gzip => exact ⟨_, rfl⟩
  | deflate => exact ⟨_, rfl⟩
  | snappy => exact ⟨Snappy.pack bs, if_neg (Nat.not_le.mpr hlength)⟩
  | lz4 => exact ⟨_, rfl⟩

theorem unpacks_of_compress {kind : Compression} {bs packed : Bytes}
    (h : kind.compress bs = .ok packed) : kind.Unpacks packed bs := by
  cases kind with
  | none => exact (Except.ok.inj h).symm
  | gzip =>
    cases h
    exact ⟨_, Gzip.unpack_pack bs⟩
  | deflate =>
    cases h
    exact ⟨_, Zlib.unpack_pack bs⟩
  | snappy =>
    rw [compress] at h
    split at h <;> cases h
    next hlength => exact Snappy.exists_pack (Nat.not_le.mp hlength)
  | lz4 =>
    cases h
    exact ⟨_, Lz4.unpack_pack bs⟩

/-! ## Unpacking -/

theorem Unpacks.ne_nil {kind : Compression} (hkind : kind ≠ none) {packed bs : Bytes}
    (h : kind.Unpacks packed bs) : packed ≠ [] := by
  rintro rfl
  cases kind with
  | none => exact hkind rfl
  | gzip =>
    obtain ⟨limit, hunpack⟩ := h
    cases hunpack
  | deflate =>
    obtain ⟨limit, hunpack⟩ := h
    cases hunpack
  | snappy =>
    obtain ⟨body, hdeclared, -⟩ := h
    cases hdeclared
  | lz4 =>
    obtain ⟨capacity, hunpack⟩ := h
    rw [Lz4.unpack, Lz4.sequences] at hunpack
    cases hunpack

theorem Unpacks.decompress_eq_within {kind : Compression} (hkind : kind ≠ none) {packed bs : Bytes}
    (h : kind.Unpacks packed bs) {announced : Option Nat}
    (hannounced : kind = lz4 → announced = some bs.length) :
    kind.decompress packed announced =
      within (.tooLarge (kind.refusedLength bs.length) maxUnpacked) maxUnpacked bs.length bs := by
  cases kind with
  | none => exact absurd rfl hkind
  | gzip =>
    obtain ⟨limit, hunpack⟩ := h
    rw [decompress, Gzip.unpack_eq_within hunpack, mapError_within]
    rfl
  | deflate =>
    obtain ⟨limit, hunpack⟩ := h
    rw [decompress, Zlib.unpack_eq_within hunpack, mapError_within]
    rfl
  | snappy =>
    obtain ⟨body, hdeclared, hunpack⟩ := h
    simp only [decompress, hdeclared]
    rw [checkLength_eq_within]
    refine within_bind ?_
    rw [hunpack]
    rfl
  | lz4 =>
    obtain ⟨capacity, hunpack⟩ := h
    obtain rfl := hannounced rfl
    simp only [decompress, Option.getD_some]
    rw [checkLength_eq_within]
    refine within_bind ?_
    rw [Lz4.unpack_eq_within hunpack, within_of_le (Nat.le_refl _)]
    rfl

theorem Unpacks.opensUpToLimit {kind : Compression} (hkind : kind ≠ none) {packed bs : Bytes}
    (h : kind.Unpacks packed bs) : kind.OpensUpToLimit packed bs := fun _ hannounced =>
  h.decompress_eq_within hkind hannounced

theorem decompress_of_compress {kind : Compression} {bs out : Bytes}
    (hlength : bs.length ≤ maxUnpacked) (h : kind.compress bs = .ok out) :
    kind.decompress out (kind.announcedLength bs.length) = .ok bs := by
  by_cases hkind : kind = none
  · subst hkind
    cases h
    rfl
  · have hannounced : kind = lz4 → kind.announcedLength bs.length = some bs.length := by
      rintro rfl
      rfl
    rw [(unpacks_of_compress h).decompress_eq_within hkind hannounced, within_of_le hlength]

/-- Every payload has a packed form, which is not empty and opens to it up to the limit. So does any
other packed form of the payload: nothing depends on how good the packing is. -/
theorem packed_opens {kind : Compression} (hkind : kind ≠ none) {bs : Bytes}
    (hlength : bs.length ≤ 2 ^ 31) :
    (∃ packed, kind.compress bs = .ok packed ∧ packed ≠ [] ∧ kind.OpensUpToLimit packed bs) ∧
    ∀ packed, kind.Unpacks packed bs → packed ≠ [] ∧ kind.OpensUpToLimit packed bs := by
  have hopens : ∀ packed, kind.Unpacks packed bs → packed ≠ [] ∧ kind.OpensUpToLimit packed bs :=
    fun packed h => ⟨h.ne_nil hkind, h.opensUpToLimit hkind⟩
  obtain ⟨packed, hpacked⟩ := exists_compress kind (show bs.length < 0x100000000 by omega)
  exact ⟨⟨packed, hpacked, hopens packed (unpacks_of_compress hpacked)⟩, hopens⟩

/-- An empty payload comes back, one that is a byte too long does not. -/
theorem packed_opens_boundary :
    (∃ packed, lz4.compress [] = .ok packed ∧ packed ≠ [] ∧
      lz4.decompress packed (some 0) = .ok []) ∧
    ∃ packed, gzip.compress (List.replicate (maxUnpacked + 1) 0) = .ok packed ∧ packed ≠ [] ∧
      gzip.decompress packed Option.none = .error (.tooLarge 67108865 67108864) := by
  have hlong : (List.replicate (maxUnpacked + 1) (0 : UInt8)).length = maxUnpacked + 1 :=
    List.length_replicate
  have hempty : ([] : Bytes).length ≤ 2 ^ 31 := by decide
  have hbound : (List.replicate (maxUnpacked + 1) (0 : UInt8)).length ≤ 2 ^ 31 := by
    rw [hlong]
    decide
  obtain ⟨⟨packed, hpacked, hne, hopens⟩, -⟩ := packed_opens (show lz4 ≠ none by decide) hempty
  obtain ⟨⟨packed', hpacked', hne', hopens'⟩, -⟩ := packed_opens (show gzip ≠ none by decide) hbound
  refine ⟨⟨packed, hpacked, hne, hopens _ fun _ => rfl⟩, packed', hpacked', hne', ?_⟩
  rw [hopens' Option.none (by decide), hlong]
  rfl

end SealedHttp.Compression
