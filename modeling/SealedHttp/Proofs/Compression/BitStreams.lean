import Mathlib.Data.Nat.Bitwise
import SealedHttp.Compression.Deflate

/-!
# Streams of bits

What a reader finds depends on the bits in front of it, not on how they are spread over bytes. Words
that were written one after the other are read in the same order, whatever stands behind them.
-/

namespace SealedHttp

/-! ## Readers -/

namespace BitReader

def byteBits (b : UInt8) : List Bool := (List.range 8).map b.toNat.testBit

@[simp] theorem length_byteBits (b : UInt8) : (byteBits b).length = 8 := by
  rw [byteBits, List.length_map, List.length_range]

/-- The bits in front of a reader. -/
def stream (r : BitReader) : List Bool := r.pending ++ r.rest.flatMap byteBits

theorem length_flatMap_byteBits (bs : Bytes) : (bs.flatMap byteBits).length = 8 * bs.length := by
  induction bs with
  | nil => rfl
  | cons b bs ih =>
    rw [List.flatMap_cons, List.length_append, length_byteBits, ih, List.length_cons,
      Nat.mul_succ, Nat.add_comm]

theorem length_stream (r : BitReader) : r.stream.length = r.size := by
  rw [stream, List.length_append, length_flatMap_byteBits, size]

theorem rest_eq_nil {r : BitReader} (h : r.stream.length < 8) : r.rest = [] := by
  rw [length_stream, size] at h
  exact List.length_eq_zero_iff.mp (by omega)

variable {r : BitReader} {more : List Bool}

theorem exists_next {b : Bool} (h : r.stream = b :: more) :
    ∃ r', r.next = some (b, r') ∧ r'.stream = more := by
  obtain ⟨pending, rest⟩ := r
  cases pending with
  | cons c pending =>
    cases h
    exact ⟨_, rfl, rfl⟩
  | nil =>
    cases rest with
    | nil => cases h
    | cons x rest =>
      cases h
      exact ⟨_, rfl, rfl⟩

theorem exists_bits {word : List Bool} (h : r.stream = word ++ more) :
    ∃ r', r.bits word.length = some (Deflate.bitsValue word, r') ∧ r'.stream = more := by
  induction word generalizing r with
  | nil => exact ⟨r, rfl, h⟩
  | cons b word ih =>
    obtain ⟨r₁, hnext, hstream⟩ := exists_next h
    obtain ⟨r', hbits, hmore⟩ := ih hstream
    refine ⟨r', ?_, hmore⟩
    simp only [List.length_cons, bits, hnext, hbits, Deflate.bitsValue]

/-- In front of anything more, the reader makes `a` of a word. -/
def Yields {ε α : Type} (read : BitReader → Except ε (α × BitReader)) (word : List Bool) (a : α) :
    Prop :=
  ∀ (r : BitReader) (more : List Bool), r.stream = word ++ more →
    ∃ r', read r = .ok (a, r') ∧ r'.stream = more

end BitReader

open BitReader (Yields)

/-! ## Prefix codes -/

namespace HuffmanTree

/-- The symbol at the end of a word. -/
def follow : HuffmanTree → List Bool → Option Nat
  | leaf symbol, [] => some symbol
  | node zero one, b :: word => if b then one.follow word else zero.follow word
  | _, _ => none

theorem yields_walk {t : HuffmanTree} {word : List Bool} {s : Nat} (h : t.follow word = some s) :
    Yields t.walk word s := by
  intro r more hstream
  induction t generalizing word r with
  | gap => cases word <;> cases h
  | leaf symbol =>
    cases word with
    | nil =>
      cases h
      exact ⟨r, rfl, hstream⟩
    | cons b word => cases h
  | node zero one ihz iho =>
    cases word with
    | nil => cases h
    | cons b word =>
      obtain ⟨r₁, hnext, hstream₁⟩ := BitReader.exists_next hstream
      cases b with
      | false =>
        obtain ⟨r', hwalk, hmore⟩ := ihz h r₁ hstream₁
        exact ⟨r', by simp only [walk, hnext, hwalk], hmore⟩
      | true =>
        obtain ⟨r', hwalk, hmore⟩ := iho h r₁ hstream₁
        exact ⟨r', by simp only [walk, hnext, hwalk], hmore⟩

end HuffmanTree

namespace HuffmanTable

def follow (t : HuffmanTable) : List Bool → Option Nat
  | [] => none
  | b :: word => if b then t.one.follow word else t.zero.follow word

theorem yields_decode {t : HuffmanTable} {word : List Bool} {s : Nat}
    (h : t.follow word = some s) : Yields t.decode word s := by
  intro r more hstream
  cases word with
  | nil => cases h
  | cons b word =>
    obtain ⟨r₁, hnext, hstream₁⟩ := BitReader.exists_next hstream
    cases b with
    | false =>
      obtain ⟨r', hwalk, hmore⟩ := HuffmanTree.yields_walk h r₁ more hstream₁
      exact ⟨r', by simp only [decode, hnext, hwalk], hmore⟩
    | true =>
      obtain ⟨r', hwalk, hmore⟩ := HuffmanTree.yields_walk h r₁ more hstream₁
      exact ⟨r', by simp only [decode, hnext, hwalk], hmore⟩

end HuffmanTable

/-! ## Writing bits -/

namespace Deflate

open BitReader (byteBits)

theorem testBit_bitsValue (bits : List Bool) (k : Nat) :
    (bitsValue bits).testBit k = bits.getD k false := by
  induction bits generalizing k with
  | nil => simp [bitsValue]
  | cons b bits ih =>
    cases k with
    | zero =>
      rw [bitsValue]
      cases b <;> simp
    | succ k =>
      have hhalf : (b.toNat + 2 * bitsValue bits) / 2 = bitsValue bits := by
        have hbit := b.toNat_le
        omega
      rw [bitsValue, Nat.testBit_succ, hhalf, ih, List.getD_cons_succ]

theorem bitsValue_lt (bits : List Bool) : bitsValue bits < 2 ^ bits.length := by
  induction bits with
  | nil => exact Nat.one_pos
  | cons b bits ih =>
    have hbit := b.toNat_le
    rw [bitsValue, List.length_cons, pow_succ]
    omega

/-- Bits that fit into a byte are filled up with zeros. -/
theorem byteBits_bitsValue {bits : List Bool} (h : bits.length ≤ 8) :
    byteBits (UInt8.ofNat (bitsValue bits)) = bits ++ List.replicate (8 - bits.length) false := by
  have hlt : bitsValue bits < 2 ^ 8 :=
    (bitsValue_lt bits).trans_le (Nat.pow_le_pow_right (by decide) h)
  rw [byteBits, UInt8.toNat_ofNat', Nat.mod_eq_of_lt hlt]
  refine List.ext_getElem (by simp [h]) fun k hk _ => ?_
  rw [List.getElem_map, List.getElem_range, testBit_bitsValue, List.getD_eq_getElem?_getD]
  by_cases hword : k < bits.length
  · rw [List.getElem_append_left hword, List.getElem?_eq_getElem hword, Option.getD_some]
  · rw [List.getElem_append_right (Nat.le_of_not_lt hword), List.getElem_replicate,
      List.getElem?_eq_none (Nat.le_of_not_lt hword), Option.getD_none]

/-- The bits come back, and fewer than eight more fill up the last byte. -/
theorem exists_stream_pack (done : Bytes) (bits : List Bool) : ∃ padding : List Bool,
    padding.length < 8 ∧
      (pack done bits).flatMap byteBits = done.reverse.flatMap byteBits ++ bits ++ padding := by
  fun_induction pack done bits with
  | case1 done b₀ b₁ b₂ b₃ b₄ b₅ b₆ b₇ rest ih =>
    obtain ⟨padding, hshort, hpack⟩ := ih
    refine ⟨padding, hshort, ?_⟩
    rw [hpack, List.reverse_cons, List.flatMap_append, List.flatMap_singleton,
      byteBits_bitsValue (by simp)]
    simp
  | case2 done => exact ⟨[], by decide, by simp⟩
  | case3 done last hlong hne =>
    have hlength : last.length < 8 := by
      rcases last with
        _ | ⟨_, _ | ⟨_, _ | ⟨_, _ | ⟨_, _ | ⟨_, _ | ⟨_, _ | ⟨_, _ | ⟨_, _⟩⟩⟩⟩⟩⟩⟩⟩
      case cons.cons.cons.cons.cons.cons.cons.cons => exact (hlong _ _ _ _ _ _ _ _ _ rfl).elim
      all_goals simp
    have hpos : 0 < last.length := List.length_pos_iff.mpr hne
    refine ⟨List.replicate (8 - last.length) false, ?_, ?_⟩
    · rw [List.length_replicate]
      omega
    · rw [List.reverse_cons, List.flatMap_append, List.flatMap_singleton,
        byteBits_bitsValue hlength.le, List.append_assoc]

theorem exists_stream_ofBytes (bits : List Bool) : ∃ padding : List Bool, padding.length < 8 ∧
    (BitReader.ofBytes (pack [] bits)).stream = bits ++ padding :=
  exists_stream_pack [] bits

end Deflate
end SealedHttp
