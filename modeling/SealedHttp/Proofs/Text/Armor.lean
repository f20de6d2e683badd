import SealedHttp.Proofs.ByteStrings
import SealedHttp.Proofs.Text.Trimming
import SealedHttp.Text.Base64
import SealedHttp.Text.Basic
import SealedHttp.Text.Hex

/-!
# Armor is undone by reading it

Hexadecimal armor is read pair by pair. Base64 armor is a run of symbols, the values of six bits
each, followed by the padding that its length calls for.
-/

namespace SealedHttp

namespace Hex

theorem value?_digit : ∀ n < 16, value? (digit n) = some n := by decide

theorem length_encode (bs : Bytes) : (encode bs).length = 2 * bs.length := by
  induction bs with
  | nil => rfl
  | cons b bs ih =>
    have hb : encode (b :: bs) = digit (b.toNat / 16) :: digit (b.toNat % 16) :: encode bs := rfl
    rw [hb, List.length_cons, List.length_cons, List.length_cons, ih]
    omega

theorem decodePairs_encode (index : Nat) (bs : Bytes) :
    decodePairs index (encode bs) = .ok bs := by
  induction bs generalizing index with
  | nil => rfl
  | cons b bs ih =>
    have hb := b.toNat_lt
    have hhigh := value?_digit (b.toNat / 16) (by omega)
    have hlow := value?_digit (b.toNat % 16) (by omega)
    change decodePairs index (digit (b.toNat / 16) :: digit (b.toNat % 16) :: encode bs) = _
    rw [decodePairs, hhigh, hlow]
    simp only [ih, Except.map]
    rw [Nat.div_add_mod, UInt8.ofNat_toNat]

theorem decode_encode (bs : Bytes) : decode (encode bs) = .ok bs := by
  have heven : ¬(encode bs).length % 2 = 1 := by
    rw [length_encode]
    omega
  rw [decode, if_neg heven, decodePairs_encode]

end Hex

namespace Base64

/-- The values of six bits that a byte string is cut into, from the left. One or two bytes at the
end give two or three values, the last of them filled up with zero bits. -/
def sextets : Bytes → List Nat
  | [] => []
  | [a] =>
    let n := a.toNat
    [n / 4, n % 4 * 16]
  | [a, b] =>
    let n := 256 * a.toNat + b.toNat
    [n / 1024, n / 16 % 64, n % 16 * 4]
  | a :: b :: c :: rest =>
    let n := 65536 * a.toNat + 256 * b.toNat + c.toNat
    n / 262144 :: n / 4096 % 64 :: n / 64 % 64 :: n % 64 :: sextets rest

/-- The length of the padding behind `n` symbols. -/
def padding (n : Nat) : Nat := (4 - n % 4) % 4

theorem value?_symbol : ∀ n < 64, value? (symbol n) = some n := by decide

theorem symbol_ne_pad : ∀ n < 64, symbol n ≠ pad := by decide

theorem symbol_lt : ∀ n < 64, (symbol n).toNat < 128 := by decide

theorem isGraphic_symbol : ∀ n < 64, Text.IsGraphic (Char.ofNat (symbol n).toNat) := by decide

theorem sextets_lt {bs : Bytes} : ∀ n ∈ sextets bs, n < 64 := by
  fun_induction sextets bs with
  | case1 => simp
  | case2 a n =>
    have ha := a.toNat_lt
    simp only [List.forall_mem_cons]
    exact ⟨by omega, by omega, by simp⟩
  | case3 a b n =>
    have ha := a.toNat_lt
    have hb := b.toNat_lt
    simp only [List.forall_mem_cons]
    exact ⟨by omega, by omega, by omega, by simp⟩
  | case4 a b c rest n ih =>
    have ha := a.toNat_lt
    have hb := b.toNat_lt
    have hc := c.toNat_lt
    simp only [List.forall_mem_cons]
    exact ⟨by omega, by omega, by omega, by omega, ih⟩

theorem length_sextets_mod_ne_one (bs : Bytes) : (sextets bs).length % 4 ≠ 1 := by
  fun_induction sextets bs with
  | case4 a b c rest n ih => simpa [Nat.add_assoc] using ih
  | _ => simp

theorem group?_sextets (bs : Bytes) : group? (sextets bs) = some bs := by
  fun_induction sextets bs with
  | case1 => rfl
  | case2 a n =>
    have hn : 4 * (n / 4) + n % 4 * 16 / 16 = n := by omega
    rw [group?, if_pos (Nat.mul_mod_left _ _), hn, UInt8.ofNat_toNat]
  | case3 a b n =>
    have hb := b.toNat_lt
    have ha : 4 * (n / 1024) + n / 16 % 64 / 16 = a.toNat := by omega
    have hb' : n / 16 % 64 % 16 * 16 + n % 16 * 4 / 4 = b.toNat := by omega
    rw [group?, if_pos (Nat.mul_mod_left _ _), ha, hb', UInt8.ofNat_toNat, UInt8.ofNat_toNat]
  | case4 a b c rest n ih =>
    have hb := b.toNat_lt
    have hc := c.toNat_lt
    have ha : 4 * (n / 262144) + n / 4096 % 64 / 16 = a.toNat := by omega
    have hb' : n / 4096 % 64 % 16 * 16 + n / 64 % 64 / 4 = b.toNat := by omega
    have hc' : n / 64 % 64 % 4 * 64 + n % 64 = c.toNat := by omega
    rw [group?, ih, ha, hb', hc', Option.map_some]
    simp only [UInt8.ofNat_toNat]

/-- Armor is the symbols of the values, then padding up to a multiple of four. -/
theorem encode_eq (bs : Bytes) :
    encode bs = (sextets bs).map symbol ++
      List.replicate (padding (sextets bs).length) pad := by
  fun_induction sextets bs with
  | case1 => rfl
  | case2 a n => rfl
  | case3 a b n => rfl
  | case4 a b c rest n ih =>
    rw [encode, ih]
    simp [padding, Nat.add_assoc, n]

theorem length_encode_mod (bs : Bytes) : (encode bs).length % 4 = 0 := by
  rw [encode_eq, List.length_append, List.length_map, List.length_replicate, padding]
  omega

theorem stranger?_symbols {ns : List Nat} (h : ∀ n ∈ ns, n < 64) (offset : Nat) :
    stranger? offset (ns.map symbol) = none := by
  induction ns generalizing offset with
  | nil => rfl
  | cons n ns ih =>
    rw [List.map_cons, stranger?, value?_symbol n (h n List.mem_cons_self)]
    exact ih (fun m hm => h m (List.mem_cons_of_mem n hm)) _

theorem filterMap_symbols {ns : List Nat} (h : ∀ n ∈ ns, n < 64) :
    (ns.map symbol).filterMap value? = ns := by
  induction ns with
  | nil => rfl
  | cons n ns ih =>
    rw [List.map_cons, List.filterMap_cons_some (value?_symbol n (h n List.mem_cons_self)),
      ih fun m hm => h m (List.mem_cons_of_mem n hm)]

theorem takeWhile_encode (bs : Bytes) :
    (encode bs).takeWhile (· ≠ pad) = (sextets bs).map symbol ∧
      (encode bs).dropWhile (· ≠ pad) = List.replicate (padding (sextets bs).length) pad := by
  have hbody : ∀ b ∈ (sextets bs).map symbol, decide (b ≠ pad) = true := by
    intro b hb
    obtain ⟨n, hn, rfl⟩ := List.mem_map.mp hb
    exact decide_eq_true (symbol_ne_pad n (sextets_lt n hn))
  rw [encode_eq, List.takeWhile_append_of_pos hbody, List.dropWhile_append_of_pos hbody]
  cases padding (sextets bs).length <;> simp [List.replicate_succ]

theorem decode_encode (bs : Bytes) : decode (encode bs) = .ok bs := by
  obtain ⟨hbody, htail⟩ := takeWhile_encode bs
  have hlength := length_encode_mod bs
  have hone := length_sextets_mod_ne_one bs
  have hpadding : List.replicate (padding (sextets bs).length) pad ≠ [] →
      2 ≤ (sextets bs).length % 4 ∧ padding (sextets bs).length ≤ 4 - (sextets bs).length % 4 := by
    intro hne
    have hpos : padding (sextets bs).length ≠ 0 := by
      rintro hzero
      rw [hzero] at hne
      exact hne rfl
    simp only [padding] at hpos ⊢
    omega
  simp only [decode, hbody, htail, stranger?_symbols sextets_lt, filterMap_symbols sextets_lt,
    group?_sextets, List.length_map, List.length_replicate]
  rw [if_neg (by omega), if_neg, if_neg hone, if_neg (by omega)]
  rintro ⟨hne, hbad⟩
  obtain ⟨htwo, hle⟩ := hpadding hne
  exact hbad ⟨htwo, by simp, hle⟩

/-! ## Armor as a text -/

theorem mem_encode {bs : Bytes} {b : UInt8} (h : b ∈ encode bs) :
    b.toNat < 128 ∧ Text.IsGraphic (Char.ofNat b.toNat) := by
  rw [encode_eq, List.mem_append] at h
  rcases h with h | h
  · obtain ⟨n, hn, rfl⟩ := List.mem_map.mp h
    exact ⟨symbol_lt n (sextets_lt n hn), isGraphic_symbol n (sextets_lt n hn)⟩
  · rw [List.eq_of_mem_replicate h]
    decide

theorem ofText_text (bs : Bytes) : Bytes.ofText (text bs) = encode bs :=
  Bytes.ofText_ofList fun _ hb => (mem_encode hb).1

theorem isGraphic_of_mem_text {bs : Bytes} {c : Char} (h : c ∈ (text bs).toList) :
    Text.IsGraphic c := by
  rw [text, String.toList_ofList] at h
  obtain ⟨b, hb, rfl⟩ := List.mem_map.mp h
  exact (mem_encode hb).2

theorem isToken_text {bs : Bytes} (hne : bs ≠ []) : Text.IsToken (text bs) where
  ne_empty h := by
    have hencode : encode bs = encode [] := by
      rw [← ofText_text, h]
      rfl
    have hdecode := decode_encode bs
    rw [hencode, decode_encode, Except.ok.injEq] at hdecode
    exact hne hdecode.symm
  graphic _ hc := isGraphic_of_mem_text hc

end Base64

end SealedHttp
