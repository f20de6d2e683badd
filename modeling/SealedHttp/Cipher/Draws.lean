import SealedHttp.Bytes

/-!
# Random draws

Random material comes from a source that is read in order. Every use of it hands back the source
with the draws it took removed, so that equal sources give equal results.
-/

namespace SealedHttp

/-- A source of random numbers and how many of them were used. -/
structure Draws where
  source : Nat → Nat
  used : Nat

namespace Draws

def next (d : Draws) : Nat × Draws := (d.source d.used, { d with used := d.used + 1 })

def take {α : Type} (f : Nat → α) : (n : Nat) → Draws → List α × Draws
  | 0, d => ([], d)
  | n + 1, d =>
    let (x, d) := d.next
    let (xs, d) := take f n d
    (f x :: xs, d)

/-- Goes on with the result of a step, unless the step failed. -/
def andThen {ε α β : Type} (x : StateM Draws (Except ε α)) (f : α → StateM Draws (Except ε β)) :
    StateM Draws (Except ε β) := do
  match ← x with
  | .error e => pure (.error e)
  | .ok a => f a

def alphanumeric (n : Nat) : UInt8 :=
  let k := n % 62
  UInt8.ofNat (if k < 26 then 65 + k else if k < 52 then 71 + k else k - 4)

def nonZero (n : Nat) : UInt8 := UInt8.ofNat (n % 255 + 1)

def messageKeyLength : Nat := 16

/-- A fresh key for one message: ASCII letters and digits. -/
def messageKey : StateM Draws Bytes := take alphanumeric messageKeyLength

def filler (n : Nat) : StateM Draws Bytes := take nonZero n

end Draws
end SealedHttp
