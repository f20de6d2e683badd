import SealedHttp.Compression.Lz4
import SealedHttp.Proofs.ByteStrings
import SealedHttp.Proofs.Compression.Match

/-!
# LZ4 blocks are unpacked to what was packed

A block of literals is a single sequence that ends behind them. In a block with copies, each of them
ends a sequence, and the instructions that it was written from are carried out again.
-/

namespace SealedHttp.Lz4

theorem extension_replicate (n q : Nat) {r : Nat} (hr : r < 255) (rest : Bytes) :
    extension n (List.replicate q 255 ++ UInt8.ofNat r :: rest) = some (n + 255 * q + r, rest) := by
  induction q generalizing n with
  | zero =>
    have hbyte : (UInt8.ofNat r).toNat = r := by
      rw [UInt8.toNat_ofNat']
      omega
    have hne : UInt8.ofNat r ≠ 255 := by
      intro h
      rw [h] at hbyte
      exact absurd hbyte (Nat.ne_of_gt hr)
    rw [List.replicate_zero, List.nil_append, extension, if_neg hne, hbyte, Nat.mul_zero,
      Nat.add_zero]
  | succ q ih =>
    rw [List.replicate_succ, List.cons_append, extension, if_pos rfl, ih]
    congr 2
    omega

/-- A length is read back from its half byte and the bytes that continue it. -/
theorem length?_high (n : Nat) (rest : Bytes) :
    length? (low n) (high n ++ rest) = some (n, rest) := by
  by_cases hn : n < 15
  · have hlow : low n = n := Nat.min_eq_left hn.le
    rw [length?, hlow, if_neg hn.ne, high, if_pos hn, List.nil_append]
  · have hlow : low n = 15 := Nat.min_eq_right (Nat.le_of_not_lt hn)
    rw [length?, hlow, if_pos rfl, high, if_neg hn, List.append_assoc, List.cons_append,
      List.nil_append, extension_replicate _ _ (Nat.mod_lt _ (by decide))]
    congr 2
    omega

theorem sequences_cons (capacity : Nat) (tag : UInt8) (bs : Bytes) (out : Array UInt8) :
    sequences capacity (tag :: bs) out =
      match sequence capacity tag bs out with
      | .error e => .error e
      | .ok (.done out) => .ok out
      | .ok (.more out rest) => sequences capacity rest out := by
  rw [sequences]
  split <;> simp only [*]

/-- The two halves of a tag. -/
theorem toNat_tag (m n : Nat) :
    (UInt8.ofNat (16 * low m + low n)).toNat / 16 = low m ∧
      (UInt8.ofNat (16 * low m + low n)).toNat % 16 = low n := by
  have hm : low m ≤ 15 := Nat.min_le_right _ _
  have hn : low n ≤ 15 := Nat.min_le_right _ _
  rw [UInt8.toNat_ofNat']
  omega

variable {capacity : Nat} {out : Array UInt8} {bs : Bytes}

/-! ## Sequences -/

theorem sequences_literals (hfits : out.size + bs.length ≤ capacity) :
    sequences capacity (literals bs) out = .ok (out ++ bs) := by
  have htag : (UInt8.ofNat (16 * low bs.length)).toNat / 16 = low bs.length :=
    (toNat_tag bs.length 0).1
  have hsplit : Bytes.split? bs.length bs = some (bs, []) := by
    simpa using Bytes.split?_append bs []
  have hsequence : sequence capacity (UInt8.ofNat (16 * low bs.length)) (high bs.length ++ bs) out =
      .ok (.done (out ++ bs)) := by
    simp only [sequence, htag, length?_high, hsplit]
    rw [if_neg (Nat.not_lt.mpr hfits), if_pos trivial]
  rw [literals, List.cons_append, sequences_cons, hsequence]

theorem copyPart_high {length distance : Nat} (hfour : 4 ≤ length) (hpos : 0 < distance)
    (hword : distance ≤ 65535) (hback : distance ≤ out.size) (hfits : out.size + length ≤ capacity)
    (rest : Bytes) :
    copyPart capacity (low (length - 4))
        (Bytes.ofNatLittle distance 2 ++ (high (length - 4) ++ rest)) out =
      .ok (.more (Token.copyBack distance length out) rest) := by
  have hdistance : (UInt8.ofNat (distance % 256)).toNat +
      256 * (UInt8.ofNat (distance / 256 % 256)).toNat = distance := by
    rw [UInt8.toNat_ofNat', UInt8.toNat_ofNat']
    omega
  simp only [Bytes.ofNatLittle, List.cons_append, List.nil_append, copyPart, hdistance,
    length?_high, Nat.sub_add_cancel hfour]
  rw [if_neg hpos.ne', if_neg (Nat.not_lt.mpr hfits), if_neg (Nat.not_lt.mpr hback)]

/-- A sequence with a copy is carried out, and the ones behind it go on from there. -/
theorem sequences_copy {length distance : Nat} (hfour : 4 ≤ length) (hpos : 0 < distance)
    (hword : distance ≤ 65535) (hback : distance ≤ (out ++ bs).size)
    (hfits : (out ++ bs).size + length ≤ capacity) (rest : Bytes) :
    sequences capacity (UInt8.ofNat (16 * low bs.length + low (length - 4)) ::
        (high bs.length ++ (bs ++
          (Bytes.ofNatLittle distance 2 ++ (high (length - 4) ++ rest))))) out =
      sequences capacity rest (Token.copyBack distance length (out ++ bs)) := by
  obtain ⟨hliterals, hcopy⟩ := toNat_tag bs.length (length - 4)
  have hroom : out.size + bs.length ≤ capacity := by
    rw [← Bytes.size_append]
    exact Nat.le_of_add_right_le hfits
  have hne : Bytes.ofNatLittle distance 2 ++ (high (length - 4) ++ rest) ≠ [] := nofun
  rw [sequences_cons]
  simp only [sequence, hliterals, hcopy, length?_high, Bytes.split?_append]
  rw [if_neg (Nat.not_lt.mpr hroom), if_neg hne, copyPart_high hfour hpos hword hback hfits]

/-! ## Blocks -/

theorem written_eq (run done : Bytes) (tokens : List Token) :
    written run done tokens = done.reverse ++ written run [] tokens := by
  induction tokens generalizing run done with
  | nil => simp [written]
  | cons token tokens ih =>
    cases token with
    | literal b => rw [written, written, ih]
    | copy length distance =>
      rw [written, written, ih, ih [] (_ ++ [])]
      simp

/-- Literals that were put off stand behind the output before they are carried out. -/
theorem sequences_written {reach : Match.Reach} (hreach : reach.maxDistance ≤ 65535)
    {run : Bytes} {tokens : List Token} {whole : Array UInt8}
    (h : Spells reach (out ++ run.reverse) tokens whole) :
    sequences whole.size (written run [] tokens) out = .ok whole := by
  induction tokens generalizing run out with
  | nil =>
    cases h
    rw [written, List.append_nil, List.reverse_reverse]
    exact sequences_literals (Bytes.size_append out run.reverse).ge
  | cons token tokens ih =>
    cases h with
    | literal h =>
      rw [Bytes.push_append_reverse] at h
      exact ih h
    | @copy _ _ length distance _ hfour hlength hpos hdistance hback h =>
      have hfits := h.size_add_le
      have hnext : sequences whole.size (written [] [] tokens)
          (Token.copyBack distance length (out ++ run.reverse)) = .ok whole := ih h
      have hpart := sequences_copy hfour hpos (hdistance.trans hreach) hback hfits
        (written [] [] tokens)
      rw [List.length_reverse, hnext] at hpart
      rw [written, written_eq]
      simpa using hpart

theorem unpack_found (bs : Bytes) : unpack bs.length (found bs) = .ok bs := by
  have hrun : sequences bs.length (written [] [] (Match.tokens ⟨65535, 65535⟩ bs)) #[] =
      .ok bs.toArray := sequences_written (le_refl 65535) (Match.spells_tokens ⟨65535, 65535⟩ bs)
  rw [unpack, found, hrun]

theorem unpack_literals (bs : Bytes) : unpack bs.length (literals bs) = .ok bs := by
  rw [unpack, sequences_literals (by simp)]
  simp

theorem unpack_pack (bs : Bytes) : unpack bs.length (pack bs) = .ok bs := by
  rw [pack]
  split
  · exact unpack_found bs
  · exact unpack_literals bs

end SealedHttp.Lz4
