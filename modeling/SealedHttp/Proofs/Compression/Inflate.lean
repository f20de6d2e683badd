import SealedHttp.Compression.Inflate

/-!
# What follows a deflate stream

A stream that was unpacked once is unpacked in the same way when more bytes stand behind it, and the
additional bytes are left over. Each reader has a lemma of that form; the lemma of a block follows the
reader through its instructions.
-/

namespace SealedHttp

namespace BitReader

/-- The same position in a stream with more bytes behind it. -/
def append (r : BitReader) (more : Bytes) : BitReader := ⟨r.pending, r.rest ++ more⟩

@[simp] theorem append_ofBytes (bs more : Bytes) :
    (ofBytes bs).append more = ofBytes (bs ++ more) := rfl

@[simp] theorem rest_append (r : BitReader) (more : Bytes) :
    (r.append more).rest = r.rest ++ more := rfl

variable {r r' : BitReader} (more : Bytes)

theorem next_append {b : Bool} (h : r.next = some (b, r')) :
    (r.append more).next = some (b, r'.append more) := by
  obtain ⟨pending, rest⟩ := r
  cases pending with
  | cons c pending =>
    cases h
    rfl
  | nil =>
    cases rest with
    | nil => cases h
    | cons x rest =>
      cases h
      rfl

theorem bits_append {n v : Nat} (h : r.bits n = some (v, r')) :
    (r.append more).bits n = some (v, r'.append more) := by
  induction n generalizing r v with
  | zero =>
    cases h
    rfl
  | succ n ih =>
    unfold bits at h
    split at h
    · cases h
    · next hb =>
      split at h
      · cases h
      · next hv =>
        cases h
        simp only [bits, next_append more hb, ih hv]

end BitReader

theorem HuffmanTree.walk_append {t : HuffmanTree} {r r' : BitReader} {s : Nat} (more : Bytes)
    (h : t.walk r = .ok (s, r')) : t.walk (r.append more) = .ok (s, r'.append more) := by
  induction t generalizing r with
  | gap => cases h
  | leaf symbol =>
    cases h
    rfl
  | node zero one ihz iho =>
    unfold walk at h
    split at h
    · cases h
    · next hn => simp only [walk, BitReader.next_append more hn, ihz h]
    · next hn => simp only [walk, BitReader.next_append more hn, iho h]

theorem HuffmanTable.decode_append {t : HuffmanTable} {r r' : BitReader} {s : Nat} (more : Bytes)
    (h : t.decode r = .ok (s, r')) : t.decode (r.append more) = .ok (s, r'.append more) := by
  unfold decode at h
  split at h
  · cases h
  all_goals
    next hn => simp only [decode, BitReader.next_append more hn, HuffmanTree.walk_append more h]

namespace Inflate

open DeflateCode

variable {r r' : BitReader} (more : Bytes)

/-! ## Coded blocks -/

theorem inRange_append {ranges : Array (Nat × Nat)} {k v : Nat}
    (h : inRange ranges k r = .ok (v, r')) :
    inRange ranges k (r.append more) = .ok (v, r'.append more) := by
  unfold inRange at h
  split at h
  · cases h
  · next hk =>
    split at h
    · cases h
    · next hb =>
      cases h
      simp only [inRange, hk, BitReader.bits_append more hb]

theorem symbol_append {t : HuffmanTable} {s : Nat} (h : symbol t r = .ok (s, r')) :
    symbol t (r.append more) = .ok (s, r'.append more) := by
  unfold symbol at h
  split at h
  · cases h
  · next hd =>
    cases h
    simp only [symbol, HuffmanTable.decode_append more hd]

theorem item_append {codes : Codes} {i : Item} (h : item codes r = .ok (i, r')) :
    item codes (r.append more) = .ok (i, r'.append more) := by
  unfold item at h
  split at h
  · cases h
  · next s r₁ hs =>
    have hs' := symbol_append more hs
    split at h
    · next hliteral =>
      cases h
      simp only [item, hs', if_pos hliteral]
    · next hliteral =>
      split at h
      · next hend =>
        cases h
        simp only [item, hs', if_neg hliteral, if_pos hend]
      · next hend =>
        split at h
        · cases h
        · next hl =>
          split at h
          · cases h
          · next hd =>
            split at h
            · cases h
            · next hr =>
              cases h
              simp only [item, hs', if_neg hliteral, if_neg hend, inRange_append more hl,
                symbol_append more hd, inRange_append more hr]

/-- A coded block goes on behind an instruction that was carried out. -/
theorem codedBlock_of_token {codes : Codes} {limit : Nat} {t : Token} {out out₁ : Array UInt8}
    (hitem : item codes r = .ok (.token t, r')) (hemit : emit limit t out = .ok out₁) :
    codedBlock codes limit r out = codedBlock codes limit r' out₁ := by
  rw [codedBlock]
  split
  · next h => rw [hitem] at h; cases h
  · next h => rw [hitem] at h; cases h
  · next h =>
    rw [hitem] at h
    cases h
    simp only [hemit]

theorem codedBlock_of_endOfBlock {codes : Codes} {limit : Nat} {out : Array UInt8}
    (hitem : item codes r = .ok (.endOfBlock, r')) :
    codedBlock codes limit r out = .ok (out, r') := by
  rw [codedBlock]
  split
  · next h => rw [hitem] at h; cases h
  · next h => rw [hitem] at h; cases h; rfl
  · next h => rw [hitem] at h; cases h

theorem codedBlock_append {codes : Codes} {limit : Nat} {out out' : Array UInt8}
    (h : codedBlock codes limit r out = .ok (out', r')) :
    codedBlock codes limit (r.append more) out = .ok (out', r'.append more) := by
  -- Only the runs that end well are of interest: the end of the block and an instruction in front
  -- of such a run.
  fun_induction codedBlock codes limit r out with
  | case1 => cases h
  | case2 out r r₁ hi =>
    cases h
    exact codedBlock_of_endOfBlock (item_append more hi)
  | case3 => cases h
  | case4 out r t r₁ hi out₁ he ih =>
    rw [codedBlock_of_token (item_append more hi) he]
    exact ih h

/-! ## Stored blocks -/

theorem storedBlock_append {limit : Nat} {out out' : Array UInt8}
    (h : storedBlock limit r out = .ok (out', r')) :
    storedBlock limit (r.append more) out = .ok (out', r'.append more) := by
  unfold storedBlock at h
  split at h
  · next a b c d rest hr =>
    dsimp only at h
    split at h
    · cases h
    · next hcheck =>
      split at h
      · cases h
      · split at h
        · cases h
        · next hfits hlength =>
          cases h
          -- The bytes were all there, and thus taking them does not reach what stands behind.
          have hle : a.toNat + 256 * b.toNat ≤ rest.length := by
            rw [List.length_take] at hlength
            omega
          simp only [storedBlock, BitReader.rest_append, hr, List.cons_append,
            List.take_append_of_le_length hle, List.drop_append_of_le_length hle]
          rw [if_neg hcheck, if_neg hfits, if_neg hlength]
          rfl
  · cases h

/-! ## The codes of a block -/

theorem threeBits_append {n : Nat} {vs : List Nat} (h : threeBits n r = .ok (vs, r')) :
    threeBits n (r.append more) = .ok (vs, r'.append more) := by
  induction n generalizing r vs with
  | zero =>
    cases h
    rfl
  | succ n ih =>
    unfold threeBits at h
    split at h
    · cases h
    · next hb =>
      split at h
      · cases h
      · next ht =>
        cases h
        simp only [threeBits, BitReader.bits_append more hb, ih ht]

theorem repetition_append {s count value : Nat} {done : List Nat}
    (h : repetition s done r = .ok (count, value, r')) :
    repetition s done (r.append more) = .ok (count, value, r'.append more) := by
  unfold repetition at h ⊢
  dsimp only at h ⊢
  split at h
  · cases h
  · cases h
  · next hb hvalue =>
    cases h
    simp only [BitReader.bits_append more hb, hvalue]

theorem wordLengths_append {t : HuffmanTable} {missing : Nat} {done ls : List Nat}
    (h : wordLengths t missing done r = .ok (ls, r')) :
    wordLengths t missing done (r.append more) = .ok (ls, r'.append more) := by
  fun_induction wordLengths t missing done r with
  | case1 =>
    cases h
    rw [wordLengths, if_pos rfl]
  | case2 => cases h
  | case3 missing done r hmissing s r₁ hs hshort ih =>
    rw [wordLengths, if_neg hmissing]
    split
    · next hs' =>
      rw [symbol_append more hs] at hs'
      cases hs'
    · next hs' =>
      rw [symbol_append more hs] at hs'
      cases hs'
      rw [if_pos hshort]
      exact ih h
  | case4 => cases h
  | case5 => cases h
  | case6 missing done r hmissing s r₁ hs hlong count value r₂ hr hcount ih =>
    rw [wordLengths, if_neg hmissing]
    split
    · next hs' =>
      rw [symbol_append more hs] at hs'
      cases hs'
    · next hs' =>
      rw [symbol_append more hs] at hs'
      cases hs'
      rw [if_neg hlong]
      split
      · next hr' =>
        rw [repetition_append more hr] at hr'
        cases hr'
      · next hr' =>
        rw [repetition_append more hr] at hr'
        cases hr'
        rw [if_neg hcount]
        exact ih h

theorem blockCodes_append {codes : Codes} (h : blockCodes r = .ok (codes, r')) :
    blockCodes (r.append more) = .ok (codes, r'.append more) := by
  unfold blockCodes at h
  split at h
  · cases h
  · next hb =>
    dsimp only at h
    split at h
    · cases h
    · next hcounts =>
      split at h
      · cases h
      · next ht =>
        split at h
        · cases h
        · next hcomplete =>
          split at h
          · cases h
          · next hw =>
            split at h
            · next hliterals hdistances =>
              cases h
              simp only [blockCodes, BitReader.bits_append more hb, if_neg hcounts,
                threeBits_append more ht, if_neg hcomplete, wordLengths_append more hw,
                hliterals, hdistances]
            · cases h

/-! ## Streams -/

theorem block_append {kind limit : Nat} {out out' : Array UInt8}
    (h : block kind limit r out = .ok (out', r')) :
    block kind limit (r.append more) out = .ok (out', r'.append more) := by
  unfold block at h ⊢
  split at h
  · next hkind =>
    rw [if_pos hkind]
    exact storedBlock_append more h
  · next hkind =>
    rw [if_neg hkind]
    split at h
    · next hfixed =>
      rw [if_pos hfixed]
      exact codedBlock_append more h
    · next hfixed =>
      rw [if_neg hfixed]
      split at h
      · next hown =>
        rw [if_pos hown]
        split at h
        · cases h
        · next hcodes =>
          simp only [blockCodes_append more hcodes]
          exact codedBlock_append more h
      · cases h

/-- A stream goes on behind a block that is not the last one. -/
theorem blocks_of_block {limit v : Nat} {r₁ r₂ : BitReader} {out out₁ : Array UInt8}
    (hbits : r.bits 3 = some (v, r₁)) (hblock : block (v / 2) limit r₁ out = .ok (out₁, r₂)) :
    blocks limit r out = if v % 2 = 1 then .ok (out₁, r₂) else blocks limit r₂ out₁ := by
  rw [blocks]
  split
  · next h =>
    rw [hbits] at h
    cases h
  · next h =>
    rw [hbits] at h
    cases h
    split
    · next h =>
      rw [hblock] at h
      cases h
    · next h =>
      rw [hblock] at h
      cases h
      rfl

theorem blocks_append {limit : Nat} {out out' : Array UInt8}
    (h : blocks limit r out = .ok (out', r')) :
    blocks limit (r.append more) out = .ok (out', r'.append more) := by
  fun_induction blocks limit r out with
  | case1 => cases h
  | case2 => cases h
  | case3 r out v r₁ hb out₁ r₂ hk hlast =>
    cases h
    rw [blocks_of_block (BitReader.bits_append more hb) (block_append more hk),
      if_pos hlast]
  | case4 r out v r₁ hb out₁ r₂ hk hlast ih =>
    rw [blocks_of_block (BitReader.bits_append more hb) (block_append more hk),
      if_neg hlast]
    exact ih h

/-- Unpacking does not look behind the stream. -/
theorem run_append {limit : Nat} {bs out rest : Bytes} (h : run limit bs = .ok (out, rest)) :
    run limit (bs ++ more) = .ok (out, rest ++ more) := by
  unfold run at h
  split at h
  · cases h
  · next hb =>
    cases h
    have hmore := blocks_append more hb
    rw [BitReader.append_ofBytes] at hmore
    simp only [run, hmore, BitReader.rest_append]

end Inflate
end SealedHttp
