import SealedHttp.Bytes

/-!
# Reading bits

A reader holds the bits of a byte that was begun, low bits first, and the bytes behind it. Its size
counts the unread bits; every read makes it smaller.
-/

namespace SealedHttp

structure BitReader where
  /-- Unread bits of the byte in progress. -/
  pending : List Bool
  rest : Bytes
  deriving Repr

namespace BitReader

def ofBytes (bs : Bytes) : BitReader := ⟨[], bs⟩

def size (r : BitReader) : Nat := r.pending.length + 8 * r.rest.length

def next : BitReader → Option (Bool × BitReader)
  | ⟨b :: pending, rest⟩ => some (b, ⟨pending, rest⟩)
  | ⟨[], []⟩ => none
  | ⟨[], x :: rest⟩ =>
    let n := x.toNat
    some (n.testBit 0, ⟨[n.testBit 1, n.testBit 2, n.testBit 3, n.testBit 4, n.testBit 5,
      n.testBit 6, n.testBit 7], rest⟩)

theorem size_of_next {r r' : BitReader} {b : Bool} (h : r.next = some (b, r')) :
    r'.size + 1 = r.size := by
  unfold next at h
  split at h <;> simp only [Option.some.injEq, Prod.mk.injEq, reduceCtorEq] at h
  all_goals
    obtain ⟨-, rfl⟩ := h
    simp only [size, List.length_cons, List.length_nil]
    omega

/-- The next `n` bits as a number, low bit first. -/
def bits : (n : Nat) → BitReader → Option (Nat × BitReader)
  | 0, r => some (0, r)
  | n + 1, r =>
    match r.next with
    | none => none
    | some (b, r) =>
      match bits n r with
      | none => none
      | some (v, r) => some (b.toNat + 2 * v, r)

theorem size_of_bits {n v : Nat} {r r' : BitReader} (h : r.bits n = some (v, r')) :
    r'.size + n = r.size := by
  induction n generalizing r v with
  | zero =>
    simp only [bits, Option.some.injEq, Prod.mk.injEq] at h
    rw [← h.2, Nat.add_zero]
  | succ n ih =>
    unfold bits at h
    split at h
    · cases h
    · next hb =>
      split at h
      · cases h
      · next hv =>
        simp only [Option.some.injEq, Prod.mk.injEq] at h
        obtain ⟨-, rfl⟩ := h
        have := size_of_next hb
        have := ih hv
        omega

def align (r : BitReader) : BitReader := ⟨[], r.rest⟩

theorem size_align_le (r : BitReader) : r.align.size ≤ r.size := by
  simp only [align, size, List.length_nil]
  omega

end BitReader
end SealedHttp
