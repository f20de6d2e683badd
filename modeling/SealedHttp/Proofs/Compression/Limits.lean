import SealedHttp.Compression.Gzip
import SealedHttp.Compression.Zlib
import SealedHttp.Proofs.Compression.Inflate
import SealedHttp.Proofs.Compression.Lz4

/-!
# Outputs under a limit

A limit decides whether something is unpacked and nothing else. What a stream unpacks to under some
limit it unpacks to under every limit that the output does not exceed, and under all others it is
refused for its size. Output never shrinks, so that the first instruction that does not fit settles
it.
-/

namespace SealedHttp

/-- A result whose output has `size` bytes, under a limit. -/
def within {ε α : Type} (refusal : ε) (limit size : Nat) (result : α) : Except ε α :=
  if size ≤ limit then .ok result else .error refusal

section Within

variable {α β δ ε : Type} {refusal : ε} {limit size : Nat} {result : α}

theorem within_of_le (h : size ≤ limit) : within refusal limit size result = .ok result := if_pos h

theorem within_of_lt (h : limit < size) : within refusal limit size result = .error refusal :=
  if_neg (Nat.not_le.mpr h)

theorem ite_eq_within :
    (if limit < size then .error refusal else .ok result) = within refusal limit size result := by
  split
  · next hlong => rw [within_of_lt hlong]
  · next hfits => rw [within_of_le (Nat.le_of_not_lt hfits)]

theorem le_of_within_eq_ok {other : α} (h : within refusal limit size result = .ok other) :
    size ≤ limit := by
  rw [within] at h
  split at h
  · assumption
  · cases h

theorem within_bind {f : α → Except ε β} {last : β} (h : f result = .ok last) :
    within refusal limit size result >>= f = within refusal limit size last := by
  rcases Nat.lt_or_ge limit size with hlong | hfits
  · rw [within_of_lt hlong, within_of_lt hlong]
    rfl
  · rw [within_of_le hfits, within_of_le hfits]
    exact h

theorem mapError_within (g : ε → δ) :
    (within refusal limit size result).mapError g = within (g refusal) limit size result := by
  rw [within, within]
  split <;> rfl

end Within

/-! ## Deflate streams -/

namespace Inflate

open DeflateCode

variable {limit : Nat} {r r' : BitReader} {out out' : Array UInt8}

theorem size_le_of_emit {t : Token} (h : emit limit t out = .ok out') : out.size ≤ out'.size := by
  cases t with
  | literal b =>
    simp only [emit] at h
    split at h <;> cases h
    simp
  | copy length distance =>
    simp only [emit] at h
    split at h
    · cases h
    · split at h <;> cases h
      simp

theorem emit_eq_within {t : Token} (h : emit limit t out = .ok out') (limit' : Nat) :
    emit limit' t out = within .overLimit limit' out'.size out' := by
  cases t with
  | literal b =>
    simp only [emit] at h ⊢
    split at h <;> cases h
    rw [Array.size_push, ite_eq_within]
  | copy length distance =>
    simp only [emit] at h ⊢
    split at h
    · cases h
    · next hback =>
      split at h <;> cases h
      rw [if_neg hback, Token.size_copyBack, ite_eq_within]

theorem codedBlock_of_emit_eq_error {codes : Codes} {t : Token} {failure : Stop}
    (hitem : item codes r = .ok (.token t, r')) (hemit : emit limit t out = .error failure) :
    codedBlock codes limit r out = .error failure := by
  rw [codedBlock]
  split
  · next h => rw [hitem] at h; cases h
  · next h => rw [hitem] at h; cases h
  · next h =>
    rw [hitem] at h
    cases h
    simp only [hemit]

theorem size_le_of_codedBlock {codes : Codes}
    (h : codedBlock codes limit r out = .ok (out', r')) : out.size ≤ out'.size := by
  fun_induction codedBlock codes limit r out with
  | case1 => cases h
  | case2 =>
    cases h
    exact Nat.le_refl _
  | case3 => cases h
  | case4 out r t r₁ hi out₁ he ih => exact Nat.le_trans (size_le_of_emit he) (ih h)

theorem codedBlock_eq_within {codes : Codes} (h : codedBlock codes limit r out = .ok (out', r'))
    {limit' : Nat} (hout : out.size ≤ limit') :
    codedBlock codes limit' r out = within .overLimit limit' out'.size (out', r') := by
  fun_induction codedBlock codes limit r out with
  | case1 => cases h
  | case2 out r r₁ hi =>
    cases h
    rw [codedBlock_of_endOfBlock hi, within_of_le hout]
  | case3 => cases h
  | case4 out r t r₁ hi out₁ he ih =>
    have hemit := emit_eq_within he limit'
    rcases Nat.lt_or_ge limit' out₁.size with hlong | hfits
    · -- Whatever follows, the output stays above the limit.
      rw [within_of_lt hlong] at hemit
      rw [codedBlock_of_emit_eq_error hi hemit,
        within_of_lt (Nat.lt_of_lt_of_le hlong (size_le_of_codedBlock h))]
    · rw [within_of_le hfits] at hemit
      rw [codedBlock_of_token hi hemit]
      exact ih h hfits

theorem size_le_of_storedBlock (h : storedBlock limit r out = .ok (out', r')) :
    out.size ≤ out'.size := by
  unfold storedBlock at h
  split at h
  · dsimp only at h
    split at h
    · cases h
    · split at h
      · cases h
      · split at h <;> cases h
        rw [Bytes.size_append]
        exact Nat.le_add_right _ _
  · cases h

theorem storedBlock_eq_within (h : storedBlock limit r out = .ok (out', r')) (limit' : Nat) :
    storedBlock limit' r out = within .overLimit limit' out'.size (out', r') := by
  unfold storedBlock at h
  split at h
  · next hr =>
    dsimp only at h
    split at h
    · cases h
    · next hcheck =>
      split at h
      · cases h
      · split at h
        · cases h
        · next hlength =>
          cases h
          simp only [storedBlock, hr]
          rw [if_neg hcheck, if_neg hlength, Bytes.size_append, ite_eq_within]
  · cases h

theorem size_le_of_block {kind : Nat} (h : block kind limit r out = .ok (out', r')) :
    out.size ≤ out'.size := by
  unfold block at h
  split at h
  · exact size_le_of_storedBlock h
  · split at h
    · exact size_le_of_codedBlock h
    · split at h
      · split at h
        · cases h
        · exact size_le_of_codedBlock h
      · cases h

theorem block_eq_within {kind : Nat} (h : block kind limit r out = .ok (out', r'))
    {limit' : Nat} (hout : out.size ≤ limit') :
    block kind limit' r out = within .overLimit limit' out'.size (out', r') := by
  unfold block at h ⊢
  split at h
  · next hkind =>
    rw [if_pos hkind]
    exact storedBlock_eq_within h limit'
  · next hkind =>
    rw [if_neg hkind]
    split at h
    · next hfixed =>
      rw [if_pos hfixed]
      exact codedBlock_eq_within h hout
    · next hfixed =>
      rw [if_neg hfixed]
      split at h
      · next hown =>
        rw [if_pos hown]
        split at h
        · cases h
        · next hcodes =>
          exact codedBlock_eq_within h hout
      · cases h

theorem blocks_of_block_eq_error {v : Nat} {failure : Stop} (hbits : r.bits 3 = some (v, r'))
    (hblock : block (v / 2) limit r' out = .error failure) :
    blocks limit r out = .error failure := by
  rw [blocks]
  split
  · next h =>
    rw [hbits] at h
    cases h
  · next h =>
    rw [hbits] at h
    cases h
    split
    · next h =>
      rw [hblock] at h
      exact h.symm
    · next h =>
      rw [hblock] at h
      cases h

theorem size_le_of_blocks (h : blocks limit r out = .ok (out', r')) : out.size ≤ out'.size := by
  fun_induction blocks limit r out with
  | case1 => cases h
  | case2 => cases h
  | case3 r out v r₁ hb out₁ r₂ hk hlast =>
    cases h
    exact size_le_of_block hk
  | case4 r out v r₁ hb out₁ r₂ hk hlast ih => exact Nat.le_trans (size_le_of_block hk) (ih h)

theorem blocks_eq_within (h : blocks limit r out = .ok (out', r')) {limit' : Nat}
    (hout : out.size ≤ limit') :
    blocks limit' r out = within .overLimit limit' out'.size (out', r') := by
  fun_induction blocks limit r out with
  | case1 => cases h
  | case2 => cases h
  | case3 r out v r₁ hb out₁ r₂ hk hlast =>
    cases h
    have hblock := block_eq_within hk hout
    rcases Nat.lt_or_ge limit' out'.size with hlong | hfits
    · rw [within_of_lt hlong] at hblock ⊢
      exact blocks_of_block_eq_error hb hblock
    · rw [within_of_le hfits] at hblock ⊢
      rw [blocks_of_block hb hblock, if_pos hlast]
  | case4 r out v r₁ hb out₁ r₂ hk hlast ih =>
    have hblock := block_eq_within hk hout
    rcases Nat.lt_or_ge limit' out₁.size with hlong | hfits
    · rw [within_of_lt hlong] at hblock
      rw [blocks_of_block_eq_error hb hblock,
        within_of_lt (Nat.lt_of_lt_of_le hlong (size_le_of_blocks h))]
    · rw [within_of_le hfits] at hblock
      rw [blocks_of_block hb hblock, if_neg hlast]
      exact ih h hfits

/-- A stream gives the same output under every limit that the output does not exceed, and none under
any other. -/
theorem run_eq_within {bs out rest : Bytes} (h : run limit bs = .ok (out, rest)) (limit' : Nat) :
    run limit' bs = within .overLimit limit' out.length (out, rest) := by
  unfold run at h
  split at h
  · cases h
  · next out₁ r₁ hb =>
    cases h
    have hblocks := blocks_eq_within hb (Nat.zero_le limit')
    rw [run, Array.length_toList]
    rcases Nat.lt_or_ge limit' out₁.size with hlong | hfits
    · rw [hblocks, within_of_lt hlong, within_of_lt hlong]
    · rw [hblocks, within_of_le hfits, within_of_le hfits]

end Inflate

/-! ## Containers

The trailer is looked at when the output is complete, and it is the output that it is compared
with. -/

open Inflate (run_eq_within)

namespace Gzip

theorem unpack_eq_within {limit : Nat} {bs out : Bytes} (h : unpack limit bs = .ok out)
    (limit' : Nat) : unpack limit' bs = within .overLimit limit' out.length out := by
  rcases hheader : skipHeader bs with failure | body
  · simp only [unpack, hheader, bind, Except.bind] at h
    cases h
  rcases hrun : Inflate.run limit body with failure | ⟨unpacked, rest⟩
  · simp only [unpack, hheader, hrun, bind, Except.bind] at h
    cases h
  simp only [unpack, hheader, hrun, bind, Except.bind] at h
  obtain rfl : unpacked = out := by
    split at h
    · cases h
    · split at h
      · cases h
      · split at h <;> cases h
        rfl
  rw [unpack, hheader]
  change (Inflate.run limit' body >>= _) = _
  rw [run_eq_within hrun limit']
  exact within_bind h

end Gzip

namespace Zlib

theorem unpack_eq_within {limit : Nat} {bs out : Bytes} (h : unpack limit bs = .ok out)
    (limit' : Nat) : unpack limit' bs = within .overLimit limit' out.length out := by
  unfold unpack at h ⊢
  split at h
  · next method flags body =>
    dsimp only at h ⊢
    split at h
    · cases h
    · next hheader =>
      rw [if_neg hheader]
      rcases hrun : Inflate.run limit body with failure | ⟨unpacked, rest⟩
      · simp only [hrun, bind, Except.bind] at h
        cases h
      simp only [hrun, bind, Except.bind] at h
      obtain rfl : unpacked = out := by
        split at h
        · cases h
        · split at h <;> cases h
          rfl
      rw [run_eq_within hrun limit']
      exact within_bind h
  · cases h

end Zlib

/-! ## LZ4 blocks -/

namespace Lz4

/-- The output so far. -/
def Step.out : Step → Array UInt8
  | .done out => out
  | .more out _ => out

variable {capacity low : Nat} {bs : Bytes} {out : Array UInt8} {step : Step}

theorem size_le_of_copyPart (h : copyPart capacity low bs out = .ok step) :
    out.size ≤ step.out.size := by
  unfold copyPart at h
  split at h
  · dsimp only at h
    split at h
    · cases h
    · split at h
      · cases h
      · split at h
        · cases h
        · split at h <;> cases h
          simp [Step.out]
  · cases h

theorem copyPart_eq_within (h : copyPart capacity low bs out = .ok step) (capacity' : Nat) :
    copyPart capacity' low bs out = within .full capacity' step.out.size step := by
  unfold copyPart at h ⊢
  split at h
  · dsimp only at h ⊢
    split at h
    · cases h
    · next hdistance =>
      rw [if_neg hdistance]
      split at h
      · cases h
      · next hlength =>
        split at h
        · cases h
        · split at h
          · cases h
          · next hback =>
            cases h
            rw [if_neg hback, Step.out, Token.size_copyBack, ite_eq_within]
  · cases h

theorem sequence_eq_within {tag : UInt8} (h : sequence capacity tag bs out = .ok step)
    (capacity' : Nat) :
    sequence capacity' tag bs out = within .full capacity' step.out.size step := by
  unfold sequence at h ⊢
  split at h
  · cases h
  · next n rest hlength =>
    split at h
    · cases h
    · next literals rest' hsplit =>
      have hsize : (out ++ literals).size = out.size + n := by
        rw [Bytes.size_append, (Bytes.split?_eq_some_iff.mp hsplit).1]
      split at h
      · cases h
      · split at h
        · next hlast =>
          cases h
          rw [if_pos hlast, Step.out, hsize, ite_eq_within]
        · next hmore =>
          have hle := size_le_of_copyPart h
          rw [if_neg hmore, copyPart_eq_within h capacity']
          split
          · next hlong => rw [within_of_lt (by omega)]
          · rfl

theorem size_le_of_sequence {tag : UInt8} (h : sequence capacity tag bs out = .ok step) :
    out.size ≤ step.out.size := by
  unfold sequence at h
  split at h
  · cases h
  · split at h
    · cases h
    · split at h
      · cases h
      · split at h
        · cases h
          rw [Step.out, Bytes.size_append]
          exact Nat.le_add_right _ _
        · have hle := size_le_of_copyPart h
          rw [Bytes.size_append] at hle
          omega

theorem size_le_of_sequences {out' : Array UInt8} (h : sequences capacity bs out = .ok out') :
    out.size ≤ out'.size := by
  fun_induction sequences capacity bs out with
  | case1 => cases h
  | case2 => cases h
  | case3 out tag rest out₁ hs =>
    cases h
    exact size_le_of_sequence hs
  | case4 out tag rest out₁ rest₁ hs ih => exact Nat.le_trans (size_le_of_sequence hs) (ih h)

theorem sequences_eq_within {out' : Array UInt8} (h : sequences capacity bs out = .ok out')
    (capacity' : Nat) : sequences capacity' bs out = within .full capacity' out'.size out' := by
  fun_induction sequences capacity bs out with
  | case1 => cases h
  | case2 => cases h
  | case3 out tag rest out₁ hs =>
    cases h
    rw [sequences_cons, sequence_eq_within hs capacity', Step.out]
    rcases Nat.lt_or_ge capacity' out'.size with hlong | hfits
    · rw [within_of_lt hlong, within_of_lt hlong]
    · rw [within_of_le hfits, within_of_le hfits]
  | case4 out tag rest out₁ rest₁ hs ih =>
    rw [sequences_cons, sequence_eq_within hs capacity', Step.out]
    rcases Nat.lt_or_ge capacity' out₁.size with hlong | hfits
    · rw [within_of_lt hlong, within_of_lt (Nat.lt_of_lt_of_le hlong (size_le_of_sequences h))]
    · rw [within_of_le hfits]
      exact ih h

/-- A block gives the same output in every buffer that holds it. -/
theorem unpack_eq_within {packed unpacked : Bytes} (h : unpack capacity packed = .ok unpacked)
    (capacity' : Nat) :
    unpack capacity' packed = within .full capacity' unpacked.length unpacked := by
  unfold unpack at h
  split at h
  · cases h
  · next out hs =>
    cases h
    rw [unpack, sequences_eq_within hs capacity', Array.length_toList]
    rcases Nat.lt_or_ge capacity' out.size with hlong | hfits
    · rw [within_of_lt hlong, within_of_lt hlong]
    · rw [within_of_le hfits, within_of_le hfits]

end Lz4
end SealedHttp
