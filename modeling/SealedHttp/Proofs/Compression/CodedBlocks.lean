import Mathlib.Tactic.Ring
import SealedHttp.Proofs.Compression.BitStreams
import SealedHttp.Proofs.Compression.Inflate
import SealedHttp.Proofs.Compression.Match

/-!
# Coded blocks are unpacked to what was packed

In the fixed code every symbol has a word, and the ranges of lengths and distances follow each other
without a gap. Each instruction is read back from its bits, and those that were found for an input
are carried out to give the input.
-/

namespace SealedHttp

open BitReader (Yields)

/-! ## Ranges -/

namespace DeflateCode

/-- No range begins behind the end of the one before. -/
def IsSeamless (ranges : List (Nat × Nat)) : Prop :=
  ranges.IsChain fun p q => q.1 ≤ p.1 + 2 ^ p.2

instance : DecidablePred IsSeamless := fun ranges =>
  inferInstanceAs (Decidable (ranges.IsChain fun p q => q.1 ≤ p.1 + 2 ^ p.2))

/-- The last range that starts at or below a number contains it. -/
theorem exists_range {n : Nat} {p : Nat × Nat} {ranges : List (Nat × Nat)}
    (hseamless : IsSeamless (p :: ranges)) (hfirst : p.1 ≤ n)
    (hlast : ∀ q ∈ (p :: ranges).getLast?, n < q.1 + 2 ^ q.2) :
    ∃ q, (p :: ranges)[((p :: ranges).takeWhile (·.1 ≤ n)).length - 1]? = some q ∧
      q.1 ≤ n ∧ n < q.1 + 2 ^ q.2 := by
  induction ranges generalizing p with
  | nil =>
    rw [List.takeWhile_cons, if_pos (decide_eq_true hfirst)]
    exact ⟨p, rfl, hfirst, hlast p rfl⟩
  | cons q ranges ih =>
    obtain ⟨hpq, hseamless'⟩ := List.isChain_cons_cons.mp hseamless
    rw [List.takeWhile_cons, if_pos (decide_eq_true hfirst)]
    by_cases hq : q.1 ≤ n
    · obtain ⟨last, hget, hrange⟩ := ih hseamless' hq hlast
      refine ⟨last, ?_, hrange⟩
      rw [← hget, List.takeWhile_cons, if_pos (decide_eq_true hq)]
      rfl
    · rw [List.takeWhile_cons, if_neg (by simpa using hq)]
      exact ⟨p, rfl, hfirst, by omega⟩

/-- The range that is named for a number contains it. -/
structure Covers (ranges : Array (Nat × Nat)) (n : Nat) : Prop where
  getElem?_eq : ranges[(rangeOf ranges n).1]? = some (rangeOf ranges n).2
  le : (rangeOf ranges n).2.1 ≤ n
  lt : n < (rangeOf ranges n).2.1 + 2 ^ (rangeOf ranges n).2.2

theorem covers_of_isSeamless {ranges : Array (Nat × Nat)} {n : Nat}
    (hseamless : IsSeamless ranges.toList) (hfirst : ∃ p ∈ ranges.toList.head?, p.1 ≤ n)
    (hlast : ∀ q ∈ ranges.toList.getLast?, n < q.1 + 2 ^ q.2) : Covers ranges n := by
  obtain ⟨p, hp, hle⟩ := hfirst
  obtain ⟨rest, hranges⟩ := List.head?_eq_some_iff.mp hp
  rw [hranges] at hseamless hlast
  obtain ⟨q, hget, hrange⟩ := exists_range hseamless hle hlast
  rw [← hranges, Array.getElem?_toList] at hget
  have hvalue : (rangeOf ranges n).2 = q := by
    rw [rangeOf, Array.getD_eq_getD_getElem?]
    exact congrArg (·.getD (0, 0)) hget
  rw [← hvalue] at hget hrange
  exact ⟨hget, hrange.1, hrange.2⟩

theorem Covers.lt_size {ranges : Array (Nat × Nat)} {n : Nat} (h : Covers ranges n) :
    (rangeOf ranges n).1 < ranges.size :=
  (Array.getElem?_eq_some_iff.mp h.getElem?_eq).1

theorem covers_lengthRanges {n : Nat} (hmin : 3 ≤ n) (hmax : n ≤ 258) : Covers lengthRanges n := by
  refine covers_of_isSeamless (by decide) ⟨(3, 0), rfl, hmin⟩ fun q hq => ?_
  cases hq
  exact Nat.lt_succ_of_le hmax

theorem covers_distanceRanges {n : Nat} (hmin : 0 < n) (hmax : n ≤ 32768) :
    Covers distanceRanges n := by
  refine covers_of_isSeamless (by decide) ⟨(1, 0), rfl, hmin⟩ fun q hq => ?_
  cases hq
  exact Nat.lt_succ_of_le hmax

end DeflateCode

namespace Deflate

open DeflateCode

@[simp] theorem length_lowBits (v n : Nat) : (lowBits v n).length = n := by
  induction n generalizing v with
  | zero => rfl
  | succ n ih => rw [lowBits, List.length_cons, ih]

theorem bitsValue_lowBits {v n : Nat} (h : v < 2 ^ n) : bitsValue (lowBits v n) = v := by
  induction n generalizing v with
  | zero =>
    rw [pow_zero, Nat.lt_one_iff] at h
    rw [h]
    rfl
  | succ n ih =>
    rw [pow_succ] at h
    rw [lowBits, bitsValue, ih (by omega), Nat.testBit_zero]
    rcases Nat.mod_two_eq_zero_or_one v with hv | hv <;> simp [hv] <;> omega

theorem follow_literalWord : ∀ s < 286, fixedCodes.literals.follow (literalWord s) = some s := by
  decide +kernel

theorem follow_word : ∀ d < 30,
    fixedCodes.distances.follow (HuffmanTable.word d 5) = some d := by
  decide +kernel

end Deflate

/-! ## Instructions -/

namespace Inflate

open DeflateCode Deflate

theorem yields_symbol {t : HuffmanTable} {word : List Bool} {s : Nat}
    (h : t.follow word = some s) : Yields (symbol t) word s := by
  intro r more hstream
  obtain ⟨r', hdecode, hmore⟩ := HuffmanTable.yields_decode h r more hstream
  exact ⟨r', by simp only [symbol, hdecode], hmore⟩

/-- The bits behind the symbol of a range tell its numbers apart. -/
theorem yields_inRange {ranges : Array (Nat × Nat)} {n : Nat} (h : Covers ranges n) :
    Yields (inRange ranges (rangeOf ranges n).1)
      (lowBits (n - (rangeOf ranges n).2.1) (rangeOf ranges n).2.2) n := by
  intro r more hstream
  obtain ⟨r', hbits, hmore⟩ := BitReader.exists_bits hstream
  have hlt : n - (rangeOf ranges n).2.1 < 2 ^ (rangeOf ranges n).2.2 := by
    have hlt := h.lt
    have hle := h.le
    omega
  rw [length_lowBits, bitsValue_lowBits hlt] at hbits
  exact ⟨r', by simp only [inRange, h.getElem?_eq, hbits, Nat.add_sub_cancel' h.le], hmore⟩

theorem yields_endOfBlock : Yields (item fixedCodes) (literalWord 256) .endOfBlock := by
  intro r more hstream
  obtain ⟨r', hsymbol, hmore⟩ :=
    yields_symbol (follow_literalWord 256 (by decide)) r more hstream
  refine ⟨r', ?_, hmore⟩
  simp only [item, hsymbol]
  rfl

theorem yields_literal (b : UInt8) :
    Yields (item fixedCodes) (tokenBits (.literal b)) (.token (.literal b)) := by
  intro r more hstream
  have hbyte : b.toNat < 256 := b.toNat_lt
  obtain ⟨r', hsymbol, hmore⟩ :=
    yields_symbol (follow_literalWord b.toNat (by omega)) r more hstream
  refine ⟨r', ?_, hmore⟩
  simp only [item, hsymbol]
  rw [if_pos hbyte, UInt8.ofNat_toNat]

theorem yields_copy {length distance : Nat} (hfour : 4 ≤ length) (hlong : length ≤ 258)
    (hpos : 0 < distance) (hfar : distance ≤ 32768) :
    Yields (item fixedCodes) (tokenBits (.copy length distance))
      (.token (.copy length distance)) := by
  intro r more hstream
  have hlengths := covers_lengthRanges (by omega) hlong
  have hdistances := covers_distanceRanges hpos hfar
  have hl : (rangeOf lengthRanges length).1 < 29 := hlengths.lt_size
  have hd : (rangeOf distanceRanges distance).1 < 30 := hdistances.lt_size
  simp only [tokenBits, List.append_assoc] at hstream
  obtain ⟨r₁, hsymbol, hstream₁⟩ := yields_symbol
    (follow_literalWord (257 + (rangeOf lengthRanges length).1) (by omega)) r _ hstream
  obtain ⟨r₂, hlength, hstream₂⟩ := yields_inRange hlengths r₁ _ hstream₁
  obtain ⟨r₃, hsymbol', hstream₃⟩ := yields_symbol (follow_word _ hd) r₂ _ hstream₂
  obtain ⟨r', hdistance, hmore⟩ := yields_inRange hdistances r₃ _ hstream₃
  refine ⟨r', ?_, hmore⟩
  simp only [item, hsymbol, Nat.add_sub_cancel_left, hlength, hsymbol', hdistance]
  rw [if_neg (by omega), if_neg (by omega)]

/-! ## Blocks -/

/-- Instructions that spell the input are carried out one by one. -/
theorem yields_codedBlock {reach : Match.Reach} (hlong : reach.maxLength ≤ 258)
    (hfar : reach.maxDistance ≤ 32768) {tokens : List Token} {out whole : Array UInt8}
    (h : Spells reach out tokens whole) :
    Yields (codedBlock fixedCodes whole.size · out) (tokens.flatMap tokenBits ++ literalWord 256)
      whole := by
  induction h with
  | nil out =>
    intro r more hstream
    obtain ⟨r', hitem, hmore⟩ := yields_endOfBlock r more hstream
    exact ⟨r', codedBlock_of_endOfBlock hitem, hmore⟩
  | @literal out whole b tokens h ih =>
    intro r more hstream
    rw [List.flatMap_cons, List.append_assoc, List.append_assoc] at hstream
    obtain ⟨r₁, hitem, hstream₁⟩ := yields_literal b r _ hstream
    rw [← List.append_assoc] at hstream₁
    obtain ⟨r', hblock, hmore⟩ := ih r₁ more hstream₁
    have hroom : out.size + 1 ≤ whole.size := by
      rw [← Array.size_push b]
      exact h.size_le
    exact ⟨r', (codedBlock_of_token hitem (if_neg (Nat.not_lt.mpr hroom))).trans hblock, hmore⟩
  | @copy out whole length distance tokens hfour hlength hpos hdistance hback h ih =>
    intro r more hstream
    rw [List.flatMap_cons, List.append_assoc, List.append_assoc] at hstream
    obtain ⟨r₁, hitem, hstream₁⟩ := yields_copy hfour (hlength.trans hlong) hpos
      (hdistance.trans hfar) r _ hstream
    rw [← List.append_assoc] at hstream₁
    obtain ⟨r', hblock, hmore⟩ := ih r₁ more hstream₁
    have hemit : emit whole.size (.copy length distance) out =
        .ok (Token.copyBack distance length out) := by
      rw [emit, if_neg (Nat.not_lt.mpr hback), if_neg (Nat.not_lt.mpr h.size_add_le)]
    exact ⟨r', (codedBlock_of_token hitem hemit).trans hblock, hmore⟩

/-- The stream that is written for the instructions that were found is a single block. Nothing is
left behind it but the filling of its last byte. -/
theorem run_coded (bs : Bytes) : run bs.length (coded bs) = .ok (bs, []) := by
  obtain ⟨padding, hpadding, hstream⟩ := exists_stream_ofBytes ([true, true, false] ++
    (Match.tokens ⟨32768, 258⟩ bs).flatMap tokenBits ++ literalWord 256)
  rw [List.append_assoc, List.append_assoc] at hstream
  obtain ⟨r₁, hheader, hstream₁⟩ := BitReader.exists_bits hstream
  have hspells := Match.spells_tokens ⟨32768, 258⟩ bs
  obtain ⟨r', hblock, hmore⟩ := yields_codedBlock (le_refl 258) (le_refl 32768) hspells r₁ padding
    hstream₁
  have hrest : r'.rest = [] := BitReader.rest_eq_nil (hmore ▸ hpadding)
  have hblocks : blocks bs.length (.ofBytes (coded bs)) #[] = .ok (bs.toArray, r') :=
    blocks_of_block hheader hblock
  simp only [run, hblocks, hrest]

end Inflate
end SealedHttp
