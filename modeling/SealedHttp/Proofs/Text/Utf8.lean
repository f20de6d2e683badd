import SealedHttp.Text.Utf8

/-!
# Reading UTF-8 that was written

The first byte of a character announces its tail, so the characters of any text are read back from
its bytes.
-/

namespace SealedHttp.Utf8

theorem encodeChar_of_lt {c : Char} (hc : c.toNat < 128) :
    String.utf8EncodeChar c = [UInt8.ofNat c.toNat] := by
  have hc : c.val.toNat ≤ 127 := Nat.le_of_lt_succ hc
  simp only [String.utf8EncodeChar, hc, ↓reduceIte]
  rfl

/-- No byte of a character beyond ASCII is an ASCII character. -/
theorem le_of_mem_encodeChar {c : Char} (hc : 128 ≤ c.toNat) {b : UInt8}
    (hb : b ∈ String.utf8EncodeChar c) : 128 ≤ b.toNat := by
  have hc : ¬c.val.toNat ≤ 127 := Nat.not_le.mpr hc
  unfold String.utf8EncodeChar at hb
  generalize c.val.toNat = v at hb hc
  simp only [hc, ↓reduceIte] at hb
  split at hb
  next =>
    simp only [List.mem_cons, List.not_mem_nil, or_false] at hb
    rcases hb with rfl | rfl <;> rw [UInt8.toNat_ofNat'] <;> omega
  split at hb
  next =>
    simp only [List.mem_cons, List.not_mem_nil, or_false] at hb
    rcases hb with rfl | rfl | rfl <;> rw [UInt8.toNat_ofNat'] <;> omega
  next =>
    simp only [List.mem_cons, List.not_mem_nil, or_false] at hb
    rcases hb with rfl | rfl | rfl | rfl <;> rw [UInt8.toNat_ofNat'] <;> omega

theorem isTail_iff {b : UInt8} : isTail b = true ↔ 0x80 ≤ b.toNat ∧ b.toNat < 0xC0 := by
  simp [isTail, UInt8.le_iff_toNat_le, UInt8.lt_iff_toNat_lt]

/-- The bounds for a second byte are tighter than for a tail behind four first bytes only. -/
theorem second_of_isTail {a b : UInt8} (hb : isTail b = true)
    (hE0 : a.toNat = 0xE0 → 0xA0 ≤ b.toNat) (hED : a.toNat = 0xED → b.toNat < 0xA0)
    (hF0 : a.toNat = 0xF0 → 0x90 ≤ b.toNat) (hF4 : a.toNat = 0xF4 → b.toNat < 0x90) :
    second a b = true := by
  have hrange := isTail_iff.mp hb
  unfold second
  simp only [beq_iff_eq, ← UInt8.toNat_inj]
  split
  next h => simp [UInt8.le_iff_toNat_le, UInt8.lt_iff_toNat_lt, hrange.2, hE0 h]
  split
  next h => simp [UInt8.le_iff_toNat_le, UInt8.lt_iff_toNat_lt, hrange.1, hED h]
  split
  next h => simp [UInt8.le_iff_toNat_le, UInt8.lt_iff_toNat_lt, hrange.2, hF0 h]
  split
  next h => simp [UInt8.le_iff_toNat_le, UInt8.lt_iff_toNat_lt, hrange.1, hF4 h]
  exact hb

section Scan

variable {a b c d : UInt8} {rest : Bytes}

theorem scan_one (ha : a.toNat < 0x80) : scan a rest = .char (Char.ofNat a.toNat) 0 := by
  have hone : a < 0x80 := UInt8.lt_iff_toNat_lt.mpr ha
  simp only [scan, hone, ↓reduceIte]
  rfl

theorem scan_two (ha : 0xC2 ≤ a.toNat ∧ a.toNat < 0xE0) (hb : isTail b = true) :
    scan a (b :: rest) = .char (Char.ofNat (64 * (a.toNat % 32) + b.toNat % 64)) 1 := by
  have hone : ¬a < 0x80 := by simp [UInt8.lt_iff_toNat_lt]; omega
  have htwo : (0xC2 ≤ a && a < 0xE0) = true := by
    simpa [UInt8.le_iff_toNat_le, UInt8.lt_iff_toNat_lt] using ha
  simp only [scan, hone, htwo, hb, ↓reduceIte]
  rfl

theorem scan_three (ha : 0xE0 ≤ a.toNat ∧ a.toNat < 0xF0) (hb : second a b = true)
    (hc : isTail c = true) :
    scan a (b :: c :: rest) =
      .char (Char.ofNat (4096 * (a.toNat % 16) + 64 * (b.toNat % 64) + c.toNat % 64)) 2 := by
  have hone : ¬a < 0x80 := by simp [UInt8.lt_iff_toNat_lt]; omega
  have htwo : ¬(0xC2 ≤ a && a < 0xE0) = true := by
    simp [UInt8.le_iff_toNat_le, UInt8.lt_iff_toNat_lt]; omega
  have hthree : (0xE0 ≤ a && a < 0xF0) = true := by
    simpa [UInt8.le_iff_toNat_le, UInt8.lt_iff_toNat_lt] using ha
  simp only [scan, hone, htwo, hthree, hb, hc, ↓reduceIte]
  rfl

theorem scan_four (ha : 0xF0 ≤ a.toNat ∧ a.toNat < 0xF5) (hb : second a b = true)
    (hc : isTail c = true) (hd : isTail d = true) :
    scan a (b :: c :: d :: rest) =
      .char (Char.ofNat (262144 * (a.toNat % 8) + 4096 * (b.toNat % 64) + 64 * (c.toNat % 64) +
        d.toNat % 64)) 3 := by
  have hone : ¬a < 0x80 := by simp [UInt8.lt_iff_toNat_lt]; omega
  have htwo : ¬(0xC2 ≤ a && a < 0xE0) = true := by
    simp [UInt8.le_iff_toNat_le, UInt8.lt_iff_toNat_lt]; omega
  have hthree : ¬(0xE0 ≤ a && a < 0xF0) = true := by
    simp [UInt8.le_iff_toNat_le, UInt8.lt_iff_toNat_lt]; omega
  have hfour : (0xF0 ≤ a && a < 0xF5) = true := by
    simpa [UInt8.le_iff_toNat_le, UInt8.lt_iff_toNat_lt] using ha
  simp only [scan, hone, htwo, hthree, hfour, hb, hc, hd, ↓reduceIte]
  rfl

end Scan

theorem isTail_ofNat (n : Nat) : isTail (UInt8.ofNat (n % 64 + 128)) = true := by
  rw [isTail_iff, UInt8.toNat_ofNat']
  omega

/-- The bytes of a character are scanned as that character, whatever comes behind them. -/
theorem exists_scan (c : Char) : ∃ a tail, String.utf8EncodeChar c = a :: tail ∧
    ∀ rest, scan a (tail ++ rest) = .char c tail.length := by
  have hvalid : c.val.toNat < 0xD800 ∨ 0xDFFF < c.val.toNat ∧ c.val.toNat < 0x110000 := c.valid
  have hc : Char.ofNat c.val.toNat = c := Char.ofNat_toNat c
  unfold String.utf8EncodeChar
  generalize c.val.toNat = v at hvalid hc
  dsimp only
  split
  next hone =>
    refine ⟨_, [], rfl, fun rest => ?_⟩
    rw [scan_one (by rw [UInt8.toNat_ofNat']; omega), UInt8.toNat_ofNat',
      Nat.mod_eq_of_lt (by omega), hc]
    rfl
  split
  next hone htwo =>
    refine ⟨_, [_], rfl, fun rest => ?_⟩
    rw [List.singleton_append, scan_two (by rw [UInt8.toNat_ofNat']; omega) (isTail_ofNat v)]
    rw [← hc]
    congr 2
    simp only [UInt8.toNat_ofNat']
    omega
  split
  next hone htwo hthree =>
    refine ⟨_, [_, _], rfl, fun rest => ?_⟩
    have hsecond :
        second (UInt8.ofNat (v / 4096 % 16 + 224)) (UInt8.ofNat (v / 64 % 64 + 128)) = true := by
      apply second_of_isTail (isTail_ofNat _) <;> simp only [UInt8.toNat_ofNat'] <;> omega
    rw [List.cons_append, List.singleton_append,
      scan_three (by rw [UInt8.toNat_ofNat']; omega) hsecond (isTail_ofNat v)]
    rw [← hc]
    congr 2
    simp only [UInt8.toNat_ofNat']
    omega
  next hone htwo hthree =>
    refine ⟨_, [_, _, _], rfl, fun rest => ?_⟩
    have hsecond :
        second (UInt8.ofNat (v / 262144 % 8 + 240)) (UInt8.ofNat (v / 4096 % 64 + 128)) = true := by
      apply second_of_isTail (isTail_ofNat _) <;> simp only [UInt8.toNat_ofNat'] <;> omega
    rw [List.cons_append, List.cons_append, List.singleton_append,
      scan_four (by rw [UInt8.toNat_ofNat']; omega) hsecond (isTail_ofNat _) (isTail_ofNat v)]
    rw [← hc]
    congr 2
    simp only [UInt8.toNat_ofNat']
    omega

theorem decodeFrom_flatMap (cs : List Char) (pos : Nat) :
    decodeFrom pos (cs.flatMap String.utf8EncodeChar) = .ok cs := by
  induction cs generalizing pos with
  | nil => rw [List.flatMap_nil, decodeFrom]
  | cons c cs ih =>
    obtain ⟨a, tail, hc, hscan⟩ := exists_scan c
    rw [List.flatMap_cons, hc, List.cons_append, decodeFrom, hscan]
    dsimp only
    rw [List.drop_left, ih]
    rfl

theorem decode_ofText (s : String) : decode (Bytes.ofText s) = .ok s := by
  rw [decode, Bytes.ofText, decodeFrom_flatMap]
  exact congrArg Except.ok String.ofList_toList

end SealedHttp.Utf8
