import SealedHttp.Body.JsonNumber
import SealedHttp.Proofs.Text.Decimal
import SealedHttp.Proofs.Text.Utf8

/-!
# Reading JSON integers that were written

Digits come without leading zeros, and all of them are read as long as the number fits 64 bits.
What comes behind a written number is nothing that would continue it.
-/

namespace SealedHttp.Json

/-- What may come behind a written value. -/
def Ends (rest : Bytes) : Prop := ∀ b ∈ rest.head?, b = 44 ∨ b = 93 ∨ b = 125

theorem digit?_of_ends {b : UInt8} {rest : Bytes} (h : Ends (b :: rest)) : digit? b = none := by
  rcases h b rfl with rfl | rfl | rfl <;> rfl

theorem dropDigits_of_ends {rest : Bytes} (h : Ends rest) : dropDigits rest = rest := by
  cases rest with
  | nil => rfl
  | cons b rest =>
    apply List.dropWhile_cons_of_neg
    rw [digit?_of_ends h]
    exact nofun

section Digits

def digitBytes (cs : List Char) : Bytes := cs.map fun c => UInt8.ofNat c.toNat

theorem flatMap_of_isDigit {cs : List Char} (h : ∀ c ∈ cs, c.isDigit) :
    cs.flatMap String.utf8EncodeChar = digitBytes cs := by
  induction cs with
  | nil => rfl
  | cons c cs ih =>
    have hc : c.toNat ≤ 57 := (Char.isDigit_iff_toNat.mp (h c List.mem_cons_self)).2
    rw [List.flatMap_cons, Utf8.encodeChar_of_lt (Nat.lt_of_le_of_lt hc (by decide)),
      ih fun d hd => h d (List.mem_cons_of_mem c hd)]
    rfl

theorem digit?_ofNat {c : Char} (hc : c.isDigit = true) :
    digit? (UInt8.ofNat c.toNat) = some (c.toNat - 48) := by
  have hrange : 48 ≤ c.toNat ∧ c.toNat ≤ 57 := Char.isDigit_iff_toNat.mp hc
  have htoNat : (UInt8.ofNat c.toNat).toNat = c.toNat := by
    rw [UInt8.toNat_ofNat']
    omega
  have hrange' : 48 ≤ UInt8.ofNat c.toNat ∧ UInt8.ofNat c.toNat ≤ 57 := by
    rw [UInt8.le_iff_toNat_le, UInt8.le_iff_toNat_le, htoNat]
    exact hrange
  rw [digit?, if_pos hrange', htoNat]

theorem le_ofDigitChars (cs : List Char) (n : Nat) : n ≤ Nat.ofDigitChars 10 cs n := by
  induction cs generalizing n with
  | nil => exact Nat.le_refl n
  | cons c cs ih =>
    rw [Nat.ofDigitChars_cons]
    exact Nat.le_trans (by omega) (ih _)

theorem digits_append {cs : List Char} (h : ∀ c ∈ cs, c.isDigit) {rest : Bytes} (hrest : Ends rest)
    {n : Nat} (hn : Nat.ofDigitChars 10 cs n ≤ maxSignificand) :
    digits n (digitBytes cs ++ rest) = (Nat.ofDigitChars 10 cs n, rest) := by
  induction cs generalizing n with
  | nil =>
    cases rest with
    | nil => rfl
    | cons b rest =>
      change digits n (b :: rest) = (n, b :: rest)
      rw [digits, digit?_of_ends hrest]
  | cons c cs ih =>
    rw [Nat.ofDigitChars_cons] at hn ⊢
    have hfits := Nat.le_trans (le_ofDigitChars cs _) hn
    have hdigit := digit?_ofNat (h c List.mem_cons_self)
    rw [← ih (fun d hd => h d (List.mem_cons_of_mem c hd)) hn]
    change digits n (UInt8.ofNat c.toNat :: (digitBytes cs ++ rest)) = _
    rw [digits, hdigit]
    exact if_pos hfits

end Digits

theorem number_toDigits {n : Nat} (hn : n ≤ maxSignificand) {rest : Bytes} (hrest : Ends rest)
    (negative : Bool) :
    number negative (digitBytes (Nat.toDigits 10 n) ++ rest) = tail negative n 0 rest := by
  rcases Nat.eq_zero_or_pos n with rfl | hpos
  · change number negative (48 :: rest) = _
    cases rest with
    | nil => rfl
    | cons b rest =>
      change (if (digit? b).isSome = true then _ else _) = _
      rw [digit?_of_ends hrest]
      rfl
  · obtain ⟨c, cs, hcs, hc⟩ := Decimal.exists_toDigits hpos
    have hdigits : ∀ d ∈ c :: cs, d.isDigit := fun d hd =>
      Decimal.isDigit_of_mem_toDigits (hcs ▸ hd)
    have hvalue : Nat.ofDigitChars 10 cs (c.toNat - 48) = n := by
      have htoDigits := Nat.ofDigitChars_ten_toDigits (n := n)
      rwa [hcs, Nat.ofDigitChars_cons, Nat.mul_zero, Nat.zero_add] at htoDigits
    have hread := digits_append (fun d hd => hdigits d (List.mem_cons_of_mem c hd)) hrest
      (n := c.toNat - 48) (Nat.le_trans (Nat.le_of_eq hvalue) hn)
    rw [hvalue] at hread
    rw [hcs]
    change number negative (UInt8.ofNat c.toNat :: (digitBytes cs ++ rest)) = _
    unfold number
    dsimp only
    rw [digit?_ofNat (hdigits c List.mem_cons_self)]
    split
    next h => cases h
    next h => exact absurd (Option.some.inj h) hc
    next d hne h =>
      cases h
      rw [hread]
      dsimp only
      rw [dropDigits_of_ends hrest, Nat.sub_self]

theorem tail_of_ends {rest : Bytes} (hrest : Ends rest) (negative : Bool) (n : Nat) :
    tail negative n 0 rest =
      if !negative then .ok (.int n, rest)
      else if n = 0 ∨ 0x8000000000000000 < n then .ok (.double (Double.ofNat n).neg, rest)
      else .ok (.int (-n), rest) := by
  cases rest with
  | nil => rfl
  | cons b rest =>
    rcases hrest b rfl with rfl | rfl | rfl <;> rfl

end SealedHttp.Json
