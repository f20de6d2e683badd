import SealedHttp.Text.Basic

/-!
# Numbers in decimal

A reader takes exactly the writings of the numbers that it allows for. One of these is what a number
is written as.
-/

namespace SealedHttp.Decimal

/-- The writings of a number: digits, leading zeros among them, with or without a plus sign. -/
def IsNumeral (cs : List Char) (n : Nat) : Prop :=
  ∃ ds, (cs = ds ∨ cs = '+' :: ds) ∧ ds ≠ [] ∧ (∀ c ∈ ds, c.isDigit) ∧ Nat.ofDigitChars 10 ds 0 = n

theorem foldlM_digits {cs : List Char} (h : ∀ c ∈ cs, c.isDigit) (n : Nat) :
    cs.foldlM (fun n c => if c.isDigit then some (10 * n + (c.toNat - 48)) else none) n =
      some (Nat.ofDigitChars 10 cs n) := by
  induction cs generalizing n with
  | nil => rfl
  | cons c cs ih =>
    rw [List.foldlM_cons, if_pos (h c List.mem_cons_self), Nat.ofDigitChars_cons]
    exact ih (fun x hx => h x (List.mem_cons_of_mem c hx)) _

theorem foldlM_digits_eq_some {cs : List Char} {m n : Nat}
    (h : cs.foldlM (fun n c => if c.isDigit then some (10 * n + (c.toNat - 48)) else none) m =
      some n) : (∀ c ∈ cs, c.isDigit) ∧ Nat.ofDigitChars 10 cs m = n := by
  have hdigits : ∀ c ∈ cs, c.isDigit := by
    induction cs generalizing m with
    | nil => simp
    | cons c cs ih =>
      rw [List.foldlM_cons] at h
      split at h
      · next hc => exact List.forall_mem_cons.mpr ⟨hc, ih h⟩
      · cases h
  rw [foldlM_digits hdigits, Option.some.injEq] at h
  exact ⟨hdigits, h⟩

theorem read?_of_isNumeral {max n : Nat} {cs : List Char} (h : IsNumeral cs n) (hn : n ≤ max) :
    read? max cs = some n := by
  obtain ⟨ds, hcs, hne, hdigits, rfl⟩ := h
  have hds : digits? ds = some (Nat.ofDigitChars 10 ds 0) := foldlM_digits hdigits 0
  have hread : (if ds.isEmpty then none else (digits? ds).filter (· ≤ max)) =
      some (Nat.ofDigitChars 10 ds 0) := by
    rw [if_neg (by simpa using hne), hds, Option.filter_some, if_pos (by simpa using hn)]
  rcases hcs with rfl | rfl
  · unfold read?
    split
    · -- A sign in front is no digit.
      exact absurd (hdigits '+' List.mem_cons_self) (by decide)
    · exact hread
  · exact hread

theorem isNumeral_of_digits? {cs ds : List Char} {max n : Nat} (hcs : cs = ds ∨ cs = '+' :: ds)
    (h : (if ds.isEmpty then none else (digits? ds).filter (· ≤ max)) = some n) :
    IsNumeral cs n ∧ n ≤ max := by
  split at h
  · cases h
  · next hne =>
    obtain ⟨hdigits, hmax⟩ := Option.filter_eq_some_iff.mp h
    obtain ⟨hall, hvalue⟩ := foldlM_digits_eq_some hdigits
    exact ⟨⟨ds, hcs, by simpa using hne, hall, hvalue⟩, of_decide_eq_true hmax⟩

/-- Every writing of a number is read, and nothing else is. -/
theorem read?_eq_some_iff {max n : Nat} {cs : List Char} :
    read? max cs = some n ↔ IsNumeral cs n ∧ n ≤ max := by
  constructor
  · intro h
    unfold read? at h
    dsimp only at h
    split at h
    · exact isNumeral_of_digits? (.inr rfl) h
    · exact isNumeral_of_digits? (.inl rfl) h
  · rintro ⟨hnumeral, hn⟩
    exact read?_of_isNumeral hnumeral hn

theorem IsNumeral.unique {cs : List Char} {m n : Nat} (hm : IsNumeral cs m) (hn : IsNumeral cs n) :
    m = n := by
  have hread : some m = some n :=
    (read?_of_isNumeral hm (Nat.le_max_left m n)).symm.trans
      (read?_of_isNumeral hn (Nat.le_max_right m n))
  exact Option.some.inj hread

theorem isDigit_of_mem_toDigits {n : Nat} {c : Char} (h : c ∈ Nat.toDigits 10 n) : c.isDigit :=
  Nat.isDigit_of_mem_toDigits (by decide) (by decide) h

theorem isDigit_of_mem_toString {n : Nat} {c : Char} (h : c ∈ (toString n).toList) : c.isDigit := by
  rw [Nat.toString_eq_repr, Nat.toList_repr] at h
  exact isDigit_of_mem_toDigits h

theorem isNumeral_toDigits (n : Nat) : IsNumeral (Nat.toDigits 10 n) n :=
  ⟨_, .inl rfl, Nat.toDigits_ne_nil, fun _ => isDigit_of_mem_toDigits, Nat.ofDigitChars_ten_toDigits⟩

theorem isNumeral_toString (n : Nat) : IsNumeral (toString n).toList n := by
  rw [Nat.toString_eq_repr, Nat.toList_repr]
  exact isNumeral_toDigits n

/-- Only zero is written with a leading zero. -/
theorem exists_toDigits {n : Nat} (hn : 0 < n) :
    ∃ c cs, Nat.toDigits 10 n = c :: cs ∧ c.toNat - 48 ≠ 0 := by
  induction n using Nat.strongRecOn with
  | ind n ih =>
    by_cases hlt : n < 10
    · refine ⟨n.digitChar, [], Nat.toDigits_of_lt_base hlt, ?_⟩
      rw [Nat.toNat_digitChar_of_lt_ten hlt]
      omega
    · have hle : 10 ≤ n := Nat.not_lt.mp hlt
      obtain ⟨c, cs, hcs, hc⟩ := ih (n / 10) (by omega) (by omega)
      refine ⟨c, cs ++ [(n % 10).digitChar], ?_, hc⟩
      rw [Nat.toDigits_of_base_le (by decide) hle, hcs, List.cons_append]

theorem eq_zero_of_head?_toDigits {n : Nat} (h : (Nat.toDigits 10 n).head? = some '0') : n = 0 := by
  rcases Nat.eq_zero_or_pos n with hzero | hpos
  · exact hzero
  · obtain ⟨c, cs, hcs, hc⟩ := exists_toDigits hpos
    rw [hcs] at h
    cases h
    exact absurd rfl hc

end SealedHttp.Decimal
