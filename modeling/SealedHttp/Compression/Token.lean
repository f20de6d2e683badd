import SealedHttp.Bytes

/-!
# Literals and copies

All packed formats describe their output by the same two instructions: a byte as it is, or a run
copied from earlier output, which may overlap its own copy.
-/

namespace SealedHttp

inductive Token where
  | literal (b : UInt8)
  /-- The next `length` bytes repeat what stands `distance` bytes before them. -/
  | copy (length distance : Nat)
  deriving DecidableEq, Repr

namespace Token

/-- Appends `length` bytes, each the one that stands `distance` before the end. -/
def copyBack (distance : Nat) : (length : Nat) → Array UInt8 → Array UInt8
  | 0, out => out
  | n + 1, out => copyBack distance n (out.push (out.getD (out.size - distance) 0))

@[simp] theorem size_copyBack (distance length : Nat) (out : Array UInt8) :
    (copyBack distance length out).size = out.size + length := by
  induction length generalizing out with
  | zero => rfl
  | succ n ih => rw [copyBack, ih, Array.size_push]; omega

end Token
end SealedHttp
