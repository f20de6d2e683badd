import SealedHttp.Proofs.Compression.Bounds
import SealedHttp.Proofs.Envelope.Headers

/-!
# No payload is opened beyond the limit

An envelope may describe anything. If it was compressed, what it is opened to keeps to the limit,
and a length that was read from headers is never the one that it is refused for.
-/

namespace SealedHttp.Envelope

variable {ring : KeyRing} {e : Envelope} {data : Bytes}

/-- A compressed payload is unpacked, unless its steps cannot be undone. -/
theorem tryDecode_cases (ring : KeyRing) (hkind : e.compression ≠ .none) :
    (∃ out, tryDecode ring e = (e.compression.decompress out e.originalLength).mapError .packing) ∨
      ∃ failure, tryDecode ring e = .error failure ∧ ∀ cause, failure ≠ .packing cause := by
  rcases hparse : parseChain e.chain with failure | steps
  · obtain ⟨c, -, rfl⟩ := exists_of_mapError_eq_error hparse
    refine .inr ⟨.unknownStep c, ?_, by simp⟩
    rw [tryDecode, bind_of_error hparse]
  rcases hundo : (SealStep.undoAll ring e.wrappedKey steps e.payload).mapError
    EnvelopeError.cipher with failure | out
  · obtain ⟨cause, -, rfl⟩ := exists_of_mapError_eq_error hundo
    refine .inr ⟨.cipher cause, ?_, by simp⟩
    rw [tryDecode, bind_of_ok hparse, bind_of_error hundo]
  · refine .inl ⟨out, ?_⟩
    rw [tryDecode, bind_of_ok hparse, bind_of_ok hundo,
      if_neg (by simpa [Compression.isNone] using hkind)]

theorem length_le_of_decode (hkind : e.compression ≠ .none) (h : e.decode ring = .done data) :
    data.length ≤ maxUnpacked := by
  rw [decode_eq_done_iff] at h
  rcases tryDecode_cases ring hkind with ⟨out, hunpack⟩ | ⟨failure, hfailure, -⟩
  · rw [hunpack] at h
    exact Compression.length_le_of_decompress hkind (eq_ok_of_mapError h)
  · rw [hfailure] at h
    cases h

/-- A length within the limit is room enough for whatever the payload says. -/
theorem decode_ne_tooLarge (hkind : e.compression = .lz4) {n : Nat}
    (hlength : e.originalLength = some n) (hle : n ≤ maxUnpacked) (payload : Bytes)
    (length limit : Nat) :
    e.decode ring ≠ .degraded ⟨payload, .packing (.tooLarge length limit)⟩ := by
  intro h
  rw [decode_eq_ofExcept] at h
  obtain ⟨-, htry⟩ := eq_of_ofExcept_eq_degraded h
  have hsome : e.compression ≠ .none := hkind.trans_ne nofun
  rcases tryDecode_cases ring hsome with ⟨out, hunpack⟩ | ⟨failure, hfailure, hother⟩
  · rw [hunpack, hkind, hlength] at htry
    obtain ⟨cause, hcause, heq⟩ := exists_of_mapError_eq_error htry
    cases heq
    obtain ⟨-, hlong, hroom⟩ := Compression.decompress_lz4_eq_tooLarge_iff.mp hcause
    rw [hroom] at hlong
    exact absurd hle (Nat.not_le.mpr hlong)
  · rw [hfailure] at htry
    exact hother _ (Except.error.inj htry)

/-- Unpacking is bounded for arbitrary bytes. Hence opening an envelope is, too, and a length that
headers gave is never exceeded. -/
theorem unpacking_bounded :
    (∀ kind : Compression, kind ≠ .none → ∀ packed announced, kind.IsBounded packed announced) ∧
    (∀ ring e data, e.compression ≠ .none → decode ring e = .done data →
      data.length ≤ maxUnpacked) ∧
    ∀ h e n, ofHeaders h = .ok e → e.originalLength = some n → n ≤ maxUnpacked ∧
      ∀ ring payload given length limit, decode ring (e.withPayload payload) ≠
        .degraded ⟨given, .packing (.tooLarge length limit)⟩ := by
  refine ⟨fun kind hkind => Compression.isBounded hkind, fun ring e data => length_le_of_decode, ?_⟩
  intro h e n hread hlength
  obtain ⟨hkind, hle⟩ := (ofHeaders_eq_ok_iff.mp hread).1.isCarried.length n hlength
  exact ⟨hle, fun ring payload => decode_ne_tooLarge hkind hlength hle⟩

/-- A block that declares a byte too many is refused whatever follows, and so is one that is given
such a length. The longest length that headers can give is not. -/
theorem unpacking_bounded_boundary :
    Compression.snappy.decompress [0x81, 0x80, 0x80, 0x20, 7] none =
        .error (.tooLarge 67108865 67108864) ∧
    Compression.lz4.decompress [7] (some 67108865) = .error (.tooLarge 67108865 67108864) ∧
    decode shortestRing ⟨[0x10, 0x61], "", none, .lz4, some 3⟩ = .done [0x61] ∧
      ([0x61] : Bytes).length ≤ maxUnpacked ∧
    ∃ e, ofHeaders ⟨[(HeaderName.originalEncoding, Bytes.ofText "4"),
        (HeaderName.originalLength, Bytes.ofText "67108864")]⟩ = .ok e ∧
      e.originalLength = some 67108864 ∧ ∀ length, decode shortestRing (e.withPayload [7]) ≠
        .degraded ⟨[7], .packing (.tooLarge length 67108864)⟩ := by
  obtain ⟨hbounded, hdecode, hread⟩ := unpacking_bounded
  have hdeclares : Snappy.Declares [0x81, 0x80, 0x80, 0x20, 7] 67108865 [7] :=
    ⟨[0x81, 0x80, 0x80], 0x20, rfl, by decide, by simp, by decide, by decide, by decide⟩
  have hopened : decode shortestRing ⟨[0x10, 0x61], "", none, .lz4, some 3⟩ = .done [0x61] := by
    decide +kernel
  have hheaders : ofHeaders ⟨[(HeaderName.originalEncoding, Bytes.ofText "4"),
      (HeaderName.originalLength, Bytes.ofText "67108864")]⟩ =
        .ok ⟨[], "", none, .lz4, some 67108864⟩ := by
    decide +kernel
  refine ⟨?_, ?_, hopened, hdecode _ _ _ (by decide) hopened, _, hheaders, rfl, ?_⟩
  · exact ((hbounded .snappy nofun _ _).tooLarge_snappy rfl _ _).mpr ⟨rfl, by decide, _, hdeclares⟩
  · exact ((hbounded .lz4 nofun _ _).tooLarge_lz4 rfl _ _).mpr ⟨rfl, by decide, rfl⟩
  · exact fun length => (hread _ _ _ hheaders rfl).2 _ _ _ _ _

end SealedHttp.Envelope
