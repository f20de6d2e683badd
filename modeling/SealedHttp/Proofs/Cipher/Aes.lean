import SealedHttp.Cipher.Aes.Ecb
import SealedHttp.Proofs.ByteStrings

/-!
# AES opens what it sealed

Every part of a round has an inverse: the box by computation over all bytes, the mixing of columns
because multiplication in the field is additive. Rounds and blocks follow by induction, so that the
round keys do not matter; the filling of the last block is removed at the end.
-/

namespace SealedHttp.Aes

/-! ## Bytes as field elements -/

theorem invSub_sub (a : UInt8) : invSub (sub a) = a := by
  have hsub (a : UInt8) : sub a = box.toList.getD a.toNat 0 := by
    simp [sub, ← Array.getD_eq_getD_getElem?]
  have hinv (a : UInt8) : invSub a = inverseBox.toList.getD a.toNat 0 := by
    simp [invSub, ← Array.getD_eq_getD_getElem?]
  rw [hinv, hsub]
  -- The tables are looked up as lists, which the kernel evaluates faster than arrays.
  exact Bytes.forall_byte
    (p := fun a => inverseBox.toList.getD (box.toList.getD a.toNat 0).toNat 0 = a)
    (by decide +kernel) a

/-- Doubling without a case distinction: the bit that is shifted out comes back in four places. -/
theorem double_eq (a : UInt8) :
    double a = a <<< 1 ^^^ a >>> 7 ^^^ (a >>> 7) <<< 1 ^^^ (a >>> 7) <<< 3 ^^^ (a >>> 7) <<< 4 :=
  Bytes.forall_byte
    (p := fun a => double a =
      a <<< 1 ^^^ a >>> 7 ^^^ (a >>> 7) <<< 1 ^^^ (a >>> 7) <<< 3 ^^^ (a >>> 7) <<< 4)
    (by decide +kernel) a

theorem double_xor (a b : UInt8) : double (a ^^^ b) = double a ^^^ double b := by
  simp only [double_eq, UInt8.shiftLeft_xor, UInt8.shiftRight_xor]
  ac_rfl

theorem times9_xor (a b : UInt8) : times9 (a ^^^ b) = times9 a ^^^ times9 b := by
  simp only [times9, double_xor]
  ac_rfl

theorem times11_xor (a b : UInt8) : times11 (a ^^^ b) = times11 a ^^^ times11 b := by
  simp only [times11, double_xor]
  ac_rfl

theorem times13_xor (a b : UInt8) : times13 (a ^^^ b) = times13 a ^^^ times13 b := by
  simp only [times13, double_xor]
  ac_rfl

theorem times14_xor (a b : UInt8) : times14 (a ^^^ b) = times14 a ^^^ times14 b := by
  simp only [times14, double_xor]
  ac_rfl

/-! ## Columns

The first row of the inverse matrix times the four columns of the matrix. -/

theorem inverse_own (a : UInt8) :
    times14 (double a) ^^^ times11 a ^^^ times13 a ^^^ times9 (times3 a) = a :=
  Bytes.forall_byte
    (p := fun a => times14 (double a) ^^^ times11 a ^^^ times13 a ^^^ times9 (times3 a) = a)
    (by decide +kernel) a

theorem inverse_second (a : UInt8) :
    times14 (times3 a) ^^^ times11 (double a) ^^^ times13 a ^^^ times9 a = 0 :=
  Bytes.forall_byte
    (p := fun a => times14 (times3 a) ^^^ times11 (double a) ^^^ times13 a ^^^ times9 a = 0)
    (by decide +kernel) a

theorem inverse_third (a : UInt8) :
    times14 a ^^^ times11 (times3 a) ^^^ times13 (double a) ^^^ times9 a = 0 :=
  Bytes.forall_byte
    (p := fun a => times14 a ^^^ times11 (times3 a) ^^^ times13 (double a) ^^^ times9 a = 0)
    (by decide +kernel) a

theorem inverse_fourth (a : UInt8) :
    times14 a ^^^ times11 a ^^^ times13 (times3 a) ^^^ times9 (double a) = 0 :=
  Bytes.forall_byte
    (p := fun a => times14 a ^^^ times11 a ^^^ times13 (times3 a) ^^^ times9 (double a) = 0)
    (by decide +kernel) a

theorem inverse_row (a b c d : UInt8) :
    times14 (double a ^^^ times3 b ^^^ c ^^^ d) ^^^ times11 (a ^^^ double b ^^^ times3 c ^^^ d) ^^^
      times13 (a ^^^ b ^^^ double c ^^^ times3 d) ^^^
      times9 (times3 a ^^^ b ^^^ c ^^^ double d) = a := by
  simp only [times9_xor, times11_xor, times13_xor, times14_xor]
  calc
    _ = (times14 (double a) ^^^ times11 a ^^^ times13 a ^^^ times9 (times3 a)) ^^^
        (times14 (times3 b) ^^^ times11 (double b) ^^^ times13 b ^^^ times9 b) ^^^
        (times14 c ^^^ times11 (times3 c) ^^^ times13 (double c) ^^^ times9 c) ^^^
        (times14 d ^^^ times11 d ^^^ times13 (times3 d) ^^^ times9 (double d)) := by ac_rfl
    _ = a := by
      rw [inverse_own, inverse_second, inverse_third, inverse_fourth]
      simp only [UInt8.xor_zero]

namespace Word

@[simp] theorem add_add (u v : Word) : (u.add v).add v = u := by
  simp only [add, UInt8.xor_assoc, UInt8.xor_self, UInt8.xor_zero]

@[simp] theorem map_invSub_map_sub (w : Word) : (w.map sub).map invSub = w := by
  simp only [map, invSub_sub]

/-- The other rows of the matrices are the first one, rotated. -/
@[simp] theorem invMix_mix (w : Word) : w.mix.invMix = w := by
  obtain ⟨a, b, c, d⟩ := w
  simp only [invMix, mix, Word.mk.injEq]
  refine ⟨inverse_row a b c d, ?_, ?_, ?_⟩
  · refine Eq.trans ?_ (inverse_row b c d a)
    ac_rfl
  · refine Eq.trans ?_ (inverse_row c d a b)
    ac_rfl
  · refine Eq.trans ?_ (inverse_row d a b c)
    ac_rfl

end Word

/-! ## Rounds -/

namespace State

@[simp] theorem add_add (s t : State) : (s.add t).add t = s := by
  simp [add]

@[simp] theorem invShiftRows_shiftRows (s : State) : s.shiftRows.invShiftRows = s := rfl

@[simp] theorem map_invMix_map_mix (s : State) : (s.map Word.mix).map Word.invMix = s := by
  simp [map]

@[simp] theorem unscramble_scramble (s : State) : s.scramble.unscramble = s := by
  simp [unscramble, scramble, map]

end State

theorem unrounds_rounds_singleton (key s : State) : unrounds [key] (rounds [key] s) = s := by
  calc
    _ = ((s.scramble.add key).add key).unscramble := rfl
    _ = s := by rw [State.add_add, State.unscramble_scramble]

theorem unrounds_rounds (keys : List State) (s : State) : unrounds keys (rounds keys s) = s := by
  induction keys generalizing s with
  | nil => rfl
  | cons key keys ih =>
    -- The last round is the only one that mixes no columns.
    cases keys with
    | nil => exact unrounds_rounds_singleton key s
    | cons next keys =>
      calc
        _ = (((unrounds (next :: keys) (rounds (next :: keys)
              ((s.scramble.map Word.mix).add key))).add key).map Word.invMix).unscramble := rfl
        _ = s := by
          rw [ih, State.add_add, State.map_invMix_map_mix, State.unscramble_scramble]

theorem decipher_encipher (k : Schedule) (s : State) : k.decipher (k.encipher s) = s := by
  rw [Schedule.decipher, Schedule.encipher, unrounds_rounds, State.add_add]

/-! ## Blocks -/

namespace State

theorem ofBytes_toBytes_append (s : State) (rest : Bytes) :
    ofBytes (s.toBytes ++ rest) = s :: ofBytes rest := rfl

@[simp] theorem length_toBytes (s : State) : s.toBytes.length = blockSize := rfl

theorem ofBytes_flatMap (ss : List State) : ofBytes (ss.flatMap toBytes) = ss := by
  induction ss with
  | nil => rfl
  | cons s ss ih => rw [List.flatMap_cons, ofBytes_toBytes_append, ih]

theorem length_flatMap (ss : List State) : (ss.flatMap toBytes).length = blockSize * ss.length := by
  induction ss with
  | nil => rfl
  | cons s ss ih =>
    rw [List.flatMap_cons, List.length_append, ih, length_toBytes, List.length_cons]
    ring

/-- Sixteen bytes are the bytes of a state. -/
theorem exists_toBytes {bs : Bytes} (h : bs.length = blockSize) : ∃ s : State, s.toBytes = bs := by
  match bs, h with
  | [a, b, c, d, e, f, g, h, i, j, k, l, m, n, o, p], _ =>
    exact ⟨⟨⟨a, b, c, d⟩, ⟨e, f, g, h⟩, ⟨i, j, k, l⟩, ⟨m, n, o, p⟩⟩, rfl⟩

/-- Whole blocks are the bytes of some states. -/
theorem exists_flatMap {bs : Bytes} (h : bs.length % blockSize = 0) :
    ∃ ss : List State, ss.flatMap toBytes = bs := by
  obtain ⟨n, hn⟩ := Nat.dvd_of_mod_eq_zero h
  induction n generalizing bs with
  | zero => exact ⟨[], (List.length_eq_zero_iff.mp hn).symm⟩
  | succ n ih =>
    rw [Nat.mul_succ] at hn
    have htake : (bs.take blockSize).length = blockSize := by
      rw [List.length_take]
      omega
    obtain ⟨s, hs⟩ := exists_toBytes htake
    have hdrop : (bs.drop blockSize).length = blockSize * n := by
      rw [List.length_drop]
      omega
    obtain ⟨ss, hss⟩ := ih (by rw [hdrop]; exact Nat.mul_mod_right _ _) hdrop
    exact ⟨s :: ss, by rw [List.flatMap_cons, hs, hss, List.take_append_drop]⟩

end State

theorem mapBlocks_flatMap (f : State → State) (ss : List State) :
    mapBlocks f (ss.flatMap State.toBytes) = (ss.map f).flatMap State.toBytes := by
  rw [mapBlocks, State.ofBytes_flatMap, List.flatMap_map]

theorem length_mapBlocks (f : State → State) {bs : Bytes} (h : bs.length % blockSize = 0) :
    (mapBlocks f bs).length = bs.length := by
  obtain ⟨ss, rfl⟩ := State.exists_flatMap h
  rw [mapBlocks_flatMap, State.length_flatMap, State.length_flatMap, List.length_map]

theorem mapBlocks_mapBlocks {f g : State → State} (h : ∀ s, g (f s) = s) {bs : Bytes}
    (hbs : bs.length % blockSize = 0) : mapBlocks g (mapBlocks f bs) = bs := by
  obtain ⟨ss, rfl⟩ := State.exists_flatMap hbs
  have hmap : (ss.map f).map g = ss := by
    rw [List.map_map, show g ∘ f = id from funext h, List.map_id]
  rw [mapBlocks_flatMap, mapBlocks_flatMap, hmap]

/-! ## Payloads -/

theorem length_fill (data : Bytes) :
    (fill data).length = blockSize * (data.length / blockSize + 1) := by
  simp only [fill, List.length_append, List.length_replicate, blockSize]
  omega

theorem unfill?_fill (data : Bytes) : unfill? (fill data) = some data := by
  have hn : 1 ≤ blockSize - data.length % blockSize ∧
      blockSize - data.length % blockSize ≤ blockSize := by
    simp only [blockSize]
    omega
  simp only [fill]
  -- From here on all that matters about the filling is that it has 1 to 16 bytes.
  generalize blockSize - data.length % blockSize = n at hn
  obtain ⟨hpos, hle⟩ := hn
  have hlast : ((data ++ List.replicate n (UInt8.ofNat n)).getLastD 0).toNat = n := by
    obtain ⟨m, rfl⟩ := Nat.exists_eq_succ_of_ne_zero (Nat.one_le_iff_ne_zero.mp hpos)
    rw [List.replicate_succ', ← List.append_assoc, List.getLastD_concat, UInt8.toNat_ofNat']
    exact Nat.mod_eq_of_lt (hle.trans_lt (by decide))
  have hkept : (data ++ List.replicate n (UInt8.ofNat n)).length - n = data.length := by
    simp
  simp only [unfill?, hlast, hkept, List.drop_left, List.take_left]
  rw [if_pos ⟨hpos, hle, trivial⟩]

/-- Sealing with a usable key succeeds, and opening with the same key undoes it. -/
theorem exists_encrypt {key : Bytes} (hkey : isKeyLength key.length) (data : Bytes) :
    ∃ ct, encrypt key data = .ok ct ∧ decrypt key ct = .ok data := by
  have hfill : (fill data).length % blockSize = 0 := by
    rw [length_fill]
    exact Nat.mul_mod_right _ _
  have hlength := length_mapBlocks (Schedule.ofKey key).encipher hfill
  refine ⟨mapBlocks (Schedule.ofKey key).encipher (fill data), by rw [encrypt, if_pos hkey], ?_⟩
  rw [decrypt, if_neg, if_pos hkey, mapBlocks_mapBlocks (decipher_encipher _) hfill, unfill?_fill]
  rintro (hempty | hmod)
  · rw [List.isEmpty_iff] at hempty
    rw [hempty, length_fill, List.length_nil] at hlength
    simp only [blockSize] at hlength
    omega
  · exact hmod (by rw [hlength, hfill])

/-- What sealing gives, opening undoes; an unusable key seals nothing. -/
theorem decrypt_of_encrypt {key data ct : Bytes} (h : encrypt key data = .ok ct) :
    decrypt key ct = .ok data := by
  by_cases hkey : isKeyLength key.length
  · obtain ⟨ct', henc, hdec⟩ := exists_encrypt hkey data
    rw [h, Except.ok.injEq] at henc
    rwa [henc]
  · rw [encrypt, if_neg hkey] at h
    cases h

end SealedHttp.Aes
