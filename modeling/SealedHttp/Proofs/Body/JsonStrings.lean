import SealedHttp.Body.JsonReader
import SealedHttp.Body.JsonText
import SealedHttp.Proofs.Text.Utf8

/-!
# Reading JSON strings that were written

Every character is read back from its escape or from its own bytes, none of which are quotes,
backslashes or controls.
-/

namespace SealedHttp.Json

open Value

theorem fourDigits?_control {n : Nat} (hn : n < 32) :
    fourDigits? 48 48 (UInt8.ofNat (hexDigit (n / 16)).toNat)
      (UInt8.ofNat (hexDigit (n % 16)).toNat) = some n :=
  (show ∀ n < 32, fourDigits? 48 48 (UInt8.ofNat (hexDigit (n / 16)).toNat)
    (UInt8.ofNat (hexDigit (n % 16)).toNat) = some n by decide) n hn

theorem toNat_hexDigit_lt {m : Nat} (hm : m < 16) : (hexDigit m).toNat < 128 :=
  (show ∀ m < 16, (hexDigit m).toNat < 128 by decide) m hm

/-- Bytes of a string that stand for themselves. -/
def IsVerbatim (b : UInt8) : Prop := b ≠ 34 ∧ b ≠ 92 ∧ ¬b < 32

theorem stringBytes_verbatim {bs : Bytes} (h : ∀ b ∈ bs, IsVerbatim b) (fuel : Nat)
    (done rest : Bytes) :
    stringBytes (fuel + bs.length) done (bs ++ rest) =
      stringBytes fuel (bs.reverse ++ done) rest := by
  induction bs generalizing done with
  | nil => rfl
  | cons b bs ih =>
    obtain ⟨hquote, hescape, hcontrol⟩ := h b List.mem_cons_self
    rw [List.length_cons, ← Nat.add_assoc, List.cons_append, stringBytes, if_neg hquote,
      if_neg hescape, if_neg hcontrol, ih fun c hc => h c (List.mem_cons_of_mem b hc),
      List.reverse_cons, List.append_assoc]
    rfl

theorem isVerbatim_of_mem {c : Char} (hquote : c.toNat ≠ 34) (hescape : c.toNat ≠ 92)
    (hcontrol : ¬c.toNat < 32) {b : UInt8} (hb : b ∈ String.utf8EncodeChar c) : IsVerbatim b := by
  have hnat : b.toNat ≠ 34 ∧ b.toNat ≠ 92 ∧ ¬b.toNat < 32 := by
    by_cases hc : c.toNat < 128
    · rw [Utf8.encodeChar_of_lt hc, List.mem_singleton] at hb
      rw [hb, UInt8.toNat_ofNat', Nat.mod_eq_of_lt (Nat.lt_trans hc (by decide))]
      exact ⟨hquote, hescape, hcontrol⟩
    · have hle := Utf8.le_of_mem_encodeChar (Nat.not_lt.mp hc) hb
      omega
  refine ⟨?_, ?_, ?_⟩
  · rintro rfl
    exact hnat.1 rfl
  · rintro rfl
    exact hnat.2.1 rfl
  · exact mt UInt8.lt_iff_toNat_lt.mp hnat.2.2

theorem stringBytes_escape {bs read rest : Bytes} (h : escape bs = .ok (read, rest)) (fuel : Nat)
    (done : Bytes) :
    stringBytes (fuel + 1) done (92 :: bs) = stringBytes fuel (read.reverse ++ done) rest := by
  rw [stringBytes, if_neg (by decide), if_pos rfl, h]

theorem unicodeEscape_control {n : Nat} (hn : n < 32) (rest : Bytes) :
    unicodeEscape (48 :: 48 :: UInt8.ofNat (hexDigit (n / 16)).toNat ::
      UInt8.ofNat (hexDigit (n % 16)).toNat :: rest) = .ok (Char.ofNat n, rest) := by
  have hlow : isLowSurrogate n = false := by
    simp only [isLowSurrogate, Bool.and_eq_false_iff, decide_eq_false_iff_not]
    omega
  have hhigh : isHighSurrogate n = false := by
    simp only [isHighSurrogate, Bool.and_eq_false_iff, decide_eq_false_iff_not]
    omega
  rw [unicodeEscape, hexEscape, fourDigits?_control hn]
  change (if isLowSurrogate n = true then _ else if isHighSurrogate n = true then _ else _) = _
  rw [hlow, hhigh]
  rfl

/-- A character in front of a string is read from what it is written as. -/
theorem exists_stringBytes_jsonChar (c : Char) :
    ∃ k ≤ ((jsonChar c).flatMap String.utf8EncodeChar).length, ∀ fuel done rest,
      stringBytes (fuel + k) done ((jsonChar c).flatMap String.utf8EncodeChar ++ rest) =
        stringBytes fuel ((String.utf8EncodeChar c).reverse ++ done) rest := by
  by_cases hletter : c.toNat ∈ [34, 92, 8, 9, 10, 12, 13]
  · have hc := Char.ofNat_toNat c
    generalize c.toNat = n at hletter hc
    simp only [List.mem_cons, List.not_mem_nil, or_false] at hletter
    rcases hletter with rfl | rfl | rfl | rfl | rfl | rfl | rfl <;> subst hc <;>
      exact ⟨1, by decide, fun _ _ _ => rfl⟩
  simp only [List.mem_cons, List.not_mem_nil, or_false, not_or] at hletter
  obtain ⟨hquote, hescape, h8, h9, h10, h12, h13⟩ := hletter
  have hquote' : c ≠ '"' := fun h => hquote (congrArg Char.toNat h)
  have hescape' : c ≠ '\\' := fun h => hescape (congrArg Char.toNat h)
  simp only [jsonChar, hquote', hescape', h8, h9, h10, h12, h13, ↓reduceIte]
  split
  next hcontrol =>
    have hhigh : (hexDigit (c.toNat / 16)).toNat < 128 := toNat_hexDigit_lt (by omega)
    have hlow : (hexDigit (c.toNat % 16)).toNat < 128 := toNat_hexDigit_lt (by omega)
    simp only [List.flatMap_cons, List.flatMap_nil, Utf8.encodeChar_of_lt hhigh,
      Utf8.encodeChar_of_lt hlow]
    refine ⟨1, ?_, fun fuel done rest => ?_⟩
    · simp only [List.length_append, List.length_singleton]
      omega
    have hescaped := unicodeEscape_control hcontrol rest
    rw [Char.ofNat_toNat] at hescaped
    have hread : escape (117 :: 48 :: 48 :: UInt8.ofNat (hexDigit (c.toNat / 16)).toNat ::
        UInt8.ofNat (hexDigit (c.toNat % 16)).toNat :: rest) =
        .ok (String.utf8EncodeChar c, rest) := by
      rw [escape, if_pos rfl, hescaped]
      rfl
    exact stringBytes_escape hread fuel done
  next hcontrol =>
    refine ⟨_, Nat.le_refl _, fun fuel done rest => ?_⟩
    rw [List.flatMap_singleton]
    exact stringBytes_verbatim (fun b hb => isVerbatim_of_mem hquote hescape hcontrol hb) _ _ _

theorem exists_stringBytes_flatMap (cs : List Char) :
    ∃ k ≤ ((cs.flatMap jsonChar).flatMap String.utf8EncodeChar).length, ∀ fuel done rest,
      stringBytes (fuel + k) done ((cs.flatMap jsonChar).flatMap String.utf8EncodeChar ++ rest) =
        stringBytes fuel ((cs.flatMap String.utf8EncodeChar).reverse ++ done) rest := by
  induction cs with
  | nil => exact ⟨0, Nat.le_refl _, fun _ _ _ => rfl⟩
  | cons c cs ih =>
    obtain ⟨k, hk, hread⟩ := exists_stringBytes_jsonChar c
    obtain ⟨m, hm, hreads⟩ := ih
    refine ⟨m + k, ?_, fun fuel done rest => ?_⟩
    · rw [List.flatMap_cons, List.flatMap_append, List.length_append]
      omega
    · rw [List.flatMap_cons, List.flatMap_append, List.append_assoc, ← Nat.add_assoc, hread, hreads,
        List.flatMap_cons, List.reverse_append, List.append_assoc]

/-- A string behind its opening quote. -/
theorem string_jsonString (s : String) (rest : Bytes) :
    string ((s.toList.flatMap jsonChar).flatMap String.utf8EncodeChar ++ 34 :: rest) =
      .ok (s, rest) := by
  obtain ⟨k, hk, hreads⟩ := exists_stringBytes_flatMap s.toList
  generalize hwritten : (s.toList.flatMap jsonChar).flatMap String.utf8EncodeChar = written at *
  obtain ⟨fuel, hfuel⟩ : ∃ fuel, (written ++ 34 :: rest).length + 1 = fuel + 1 + k :=
    ⟨(written ++ 34 :: rest).length - k, by
      rw [List.length_append]
      omega⟩
  have hstring : stringBytes ((written ++ 34 :: rest).length + 1) [] (written ++ 34 :: rest) =
      .ok (Bytes.ofText s, rest) := by
    rw [hfuel, hreads, stringBytes, if_pos rfl, List.append_nil, List.reverse_reverse]
    rfl
  rw [string, hstring]
  dsimp only
  rw [Utf8.decode_ofText]

end SealedHttp.Json
