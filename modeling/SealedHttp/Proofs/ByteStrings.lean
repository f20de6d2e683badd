import Mathlib.Data.List.Induction
import Mathlib.Tactic.Ring
import SealedHttp.Bytes

/-!
# Views of byte strings

The big-endian and little-endian naturals behind a byte string, its pieces and its texts lead back
to the byte string itself. The length of a number is where its leading digit stands.
-/

namespace SealedHttp

/-- A list begins with copies of `a` and goes on behind them. -/
theorem eq_replicate_append_drop {α : Type} [DecidableEq α] (a : α) (as : List α) :
    as = List.replicate (as.takeWhile (· = a)).length a ++
      as.drop (as.takeWhile (· = a)).length := by
  have hcopies : as.takeWhile (· = a) = List.replicate (as.takeWhile (· = a)).length a := by
    refine List.eq_replicate_of_mem fun x hx => ?_
    exact of_decide_eq_true (List.all_eq_true.mp List.all_takeWhile x hx)
  rw [← hcopies]
  exact (List.prefix_iff_eq_append.mp (List.takeWhile_prefix _)).symm

namespace Bytes

/-- What holds of the 256 bytes holds of all. It turns a law of single bytes into a computation. -/
theorem forall_byte {p : UInt8 → Prop} (h : ∀ n < 256, p (UInt8.ofNat n)) (a : UInt8) : p a := by
  have ha := h a.toNat a.toNat_lt
  rwa [UInt8.ofNat_toNat] at ha

/-! ## Big-endian numbers -/

theorem foldl_toNat (n : Nat) (bs : Bytes) :
    bs.foldl (fun n b => 256 * n + b.toNat) n = n * 256 ^ bs.length + toNat bs := by
  induction bs generalizing n with
  | nil => simp [toNat]
  | cons b bs ih =>
    have hb : toNat (b :: bs) = b.toNat * 256 ^ bs.length + toNat bs := by
      change bs.foldl _ (256 * 0 + b.toNat) = _
      rw [ih]
      ring
    rw [List.foldl_cons, ih, hb, List.length_cons]
    ring

theorem toNat_cons (b : UInt8) (bs : Bytes) :
    toNat (b :: bs) = b.toNat * 256 ^ bs.length + toNat bs := by
  change bs.foldl _ (256 * 0 + b.toNat) = _
  rw [foldl_toNat]
  ring

theorem toNat_append (xs ys : Bytes) :
    toNat (xs ++ ys) = toNat xs * 256 ^ ys.length + toNat ys := by
  rw [toNat, List.foldl_append, foldl_toNat]
  rfl

theorem toNat_lt (bs : Bytes) : toNat bs < 256 ^ bs.length := by
  induction bs with
  | nil => exact Nat.one_pos
  | cons b bs ih =>
    have hb : (b.toNat + 1) * 256 ^ bs.length ≤ 256 * 256 ^ bs.length :=
      Nat.mul_le_mul_right _ b.toNat_lt
    rw [Nat.add_mul, Nat.one_mul] at hb
    rw [toNat_cons, List.length_cons, pow_succ']
    omega

@[simp] theorem length_ofNat (n k : Nat) : (ofNat n k).length = k := by
  induction k generalizing n with
  | zero => rfl
  | succ k ih => rw [ofNat, List.length_append, ih, List.length_singleton]

theorem toNat_ofNat {n k : Nat} (h : n < 256 ^ k) : toNat (ofNat n k) = n := by
  induction k generalizing n with
  | zero =>
    rw [pow_zero] at h
    rw [Nat.lt_one_iff.mp h]
    rfl
  | succ k ih =>
    have hq : n / 256 < 256 ^ k := Nat.div_lt_of_lt_mul (by rwa [pow_succ'] at h)
    rw [ofNat, toNat_append, ih hq]
    simp only [toNat, List.foldl_cons, List.foldl_nil, List.length_singleton, UInt8.toNat_ofNat']
    omega

theorem ofNat_toNat (bs : Bytes) : ofNat (toNat bs) bs.length = bs := by
  induction bs using List.reverseRecOn with
  | nil => rfl
  | append_singleton bs b ih =>
    have hb := b.toNat_lt
    have hn : toNat (bs ++ [b]) = 256 * toNat bs + b.toNat := by
      rw [toNat, List.foldl_append]
      rfl
    rw [List.length_append, List.length_singleton, ofNat, hn,
      show (256 * toNat bs + b.toNat) / 256 = toNat bs by omega,
      show (256 * toNat bs + b.toNat) % 256 = b.toNat by omega, ih, UInt8.ofNat_toNat]

/-! ## Little-endian numbers -/

@[simp] theorem length_ofNatLittle (n k : Nat) : (ofNatLittle n k).length = k := by
  induction k generalizing n with
  | zero => rfl
  | succ k ih => rw [ofNatLittle, List.length_cons, ih]

theorem toNatLittle_ofNatLittle (n k : Nat) : toNatLittle (ofNatLittle n k) = n % 256 ^ k := by
  induction k generalizing n with
  | zero => rw [pow_zero, Nat.mod_one]; rfl
  | succ k ih =>
    rw [ofNatLittle, toNatLittle, ih, pow_succ', Nat.mod_mul]
    simp

/-! ## The length of a number -/

theorem sizeOfNat_zero : sizeOfNat 0 = 0 := rfl

theorem lt_pow_sizeOfNat (n : Nat) : n < 256 ^ sizeOfNat n := by
  by_cases hn : n = 0
  · rw [hn]
    exact Nat.one_pos
  · have hlog : n < 2 ^ (n.log2 + 1) := (Nat.log2_lt hn).mp (Nat.lt_succ_self _)
    have hle : 2 ^ (n.log2 + 1) ≤ 2 ^ (8 * (n.log2 / 8 + 1)) :=
      Nat.pow_le_pow_right (by decide) (by omega)
    rw [sizeOfNat, if_neg hn, show (256 : Nat) = 2 ^ 8 by rfl, ← pow_mul]
    exact hlog.trans_le hle

theorem pow_le_of_size {n k : Nat} (h : sizeOfNat n = k + 1) : 256 ^ k ≤ n := by
  have hn : n ≠ 0 := by
    rintro rfl
    rw [sizeOfNat_zero] at h
    omega
  rw [sizeOfNat, if_neg hn] at h
  have hlog : 2 ^ n.log2 ≤ n := (Nat.le_log2 hn).mp le_rfl
  have hle : 2 ^ (8 * k) ≤ 2 ^ n.log2 := Nat.pow_le_pow_right (by decide) (by omega)
  rw [show (256 : Nat) = 2 ^ 8 by rfl, ← pow_mul]
  exact hle.trans hlog

theorem sizeOfNat_pos {n : Nat} (h : 0 < n) : 0 < sizeOfNat n := by
  rw [sizeOfNat, if_neg h.ne']
  exact Nat.succ_pos _

/-! ## Pieces -/

theorem split?_append (xs ys : Bytes) : split? xs.length (xs ++ ys) = some (xs, ys) := by
  simp [split?]

theorem split?_eq_some_iff {n : Nat} {bs front back : Bytes} :
    split? n bs = some (front, back) ↔ front.length = n ∧ front ++ back = bs := by
  constructor
  · intro h
    simp only [split?] at h
    split at h
    · next hlength =>
      cases h
      exact ⟨hlength, List.take_append_drop n bs⟩
    · cases h
  · rintro ⟨rfl, rfl⟩
    exact split?_append front back

@[simp] theorem chunks_nil (k : Nat) : chunks k [] = [] := by
  cases k <;> simp [chunks]

theorem chunks_of_ne_nil {k : Nat} {bs : Bytes} (hk : 0 < k) (h : bs ≠ []) :
    chunks k bs = bs.take k :: chunks k (bs.drop k) := by
  obtain ⟨k, rfl⟩ := Nat.exists_eq_succ_of_ne_zero hk.ne'
  obtain ⟨b, bs, rfl⟩ := List.exists_cons_of_ne_nil h
  rw [chunks, List.take_succ_cons, List.drop_succ_cons]

/-- A first piece of full length is cut off as it is, whatever follows. -/
theorem chunks_append {k : Nat} (hk : 0 < k) {front : Bytes} (h : front.length = k)
    (back : Bytes) : chunks k (front ++ back) = front :: chunks k back := by
  have hne : front ++ back ≠ [] := by
    intro hnil
    have hfront := (List.append_eq_nil_iff.mp hnil).1
    rw [hfront, List.length_nil] at h
    omega
  rw [chunks_of_ne_nil hk hne, List.take_append_of_le_length h.ge, List.take_of_length_le h.le,
    ← h, List.drop_left]

theorem flatten_chunks {k : Nat} (hk : 0 < k) (bs : Bytes) : (chunks k bs).flatten = bs := by
  fun_induction chunks k bs with
  | case1 => omega
  | case2 => rfl
  | case3 k b bs ih => simp [ih hk]

theorem length_le_of_mem_chunks {k : Nat} {bs piece : Bytes} (h : piece ∈ chunks k bs) :
    piece.length ≤ k := by
  fun_induction chunks k bs with
  | case1 => cases h
  | case2 => cases h
  | case3 k b bs ih =>
    rcases List.mem_cons.mp h with rfl | h
    · simp
    · exact ih h

theorem ne_nil_of_mem_chunks {k : Nat} {bs piece : Bytes} (h : piece ∈ chunks k bs) :
    piece ≠ [] := by
  fun_induction chunks k bs with
  | case1 => cases h
  | case2 => cases h
  | case3 k b bs ih =>
    rcases List.mem_cons.mp h with rfl | h
    · exact List.cons_ne_nil _ _
    · exact ih h

/-! ## Output -/

theorem size_append (out : Array UInt8) (bs : Bytes) : (out ++ bs).size = out.size + bs.length := by
  rw [← Array.length_toList, Array.toList_appendList, List.length_append, Array.length_toList]

theorem push_append_reverse (out : Array UInt8) (run : Bytes) (b : UInt8) :
    (out ++ run.reverse).push b = out ++ (b :: run).reverse := by
  apply Array.toList_inj.mp
  simp

/-! ## Texts -/

theorem utf8EncodeChar_of_lt (b : UInt8) :
    b.toNat < 128 → String.utf8EncodeChar (Char.ofNat b.toNat) = [b] :=
  forall_byte (p := fun b => b.toNat < 128 → String.utf8EncodeChar (Char.ofNat b.toNat) = [b])
    (by decide +kernel) b

/-- Reading bytes below 128 as characters and writing these in UTF-8 changes nothing. -/
theorem ofText_ofList {bs : Bytes} (h : ∀ b ∈ bs, b.toNat < 128) :
    ofText (String.ofList (bs.map fun b => Char.ofNat b.toNat)) = bs := by
  rw [ofText, String.toList_ofList]
  induction bs with
  | nil => rfl
  | cons b bs ih =>
    rw [List.map_cons, List.flatMap_cons, utf8EncodeChar_of_lt b (h b List.mem_cons_self),
      ih fun c hc => h c (List.mem_cons_of_mem b hc)]
    rfl

theorem ofText_eq_nil_iff {s : String} : ofText s = [] ↔ s = "" := by
  rw [ofText, List.flatMap_eq_nil_iff]
  constructor
  · intro h
    apply String.toList_inj.mp
    cases hs : s.toList with
    | nil => rfl
    | cons c cs =>
      have hc := h c (hs ▸ List.mem_cons_self)
      have hlength := String.length_utf8EncodeChar c
      rw [hc] at hlength
      exact absurd hlength.symm c.utf8Size_pos.ne'
  · rintro rfl
    simp

end Bytes
end SealedHttp
