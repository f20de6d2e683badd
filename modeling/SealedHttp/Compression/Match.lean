import SealedHttp.Compression.Token

/-!
# Finding repetitions

A greedy search for earlier runs: a table remembers where each group of four bytes was seen last,
and a candidate counts only after its bytes have been compared. Nothing else relies on how good the
search is.
-/

namespace SealedHttp.Match

structure Reach where
  maxDistance : Nat
  maxLength : Nat

def slots : Nat := 32768

def slot (data : Array UInt8) (i : Nat) : Nat :=
  let byte k := (data.getD (i + k) 0).toUInt32
  let word := byte 0 ||| byte 1 <<< 8 ||| byte 2 <<< 16 ||| byte 3 <<< 24
  ((word ^^^ word >>> 7 ^^^ word >>> 15) &&& 32767).toNat

def agreement (data : Array UInt8) (i j : Nat) : (bound : Nat) → Nat
  | 0 => 0
  | n + 1 =>
    if i < data.size ∧ j < data.size ∧ data.getD i 0 = data.getD j 0 then
      agreement data (i + 1) (j + 1) n + 1
    else 0

/-- Length and distance of a run of at least four bytes that position `i` repeats. The table holds
one more than the position last seen, zero for a free slot. -/
def candidate? (reach : Reach) (data : Array UInt8) (table : Array Nat) (i : Nat) :
    Option (Nat × Nat) :=
  let seen := table.getD (slot data i) 0
  let distance := i + 1 - seen
  if seen = 0 ∨ reach.maxDistance < distance then none
  else
    let length := agreement data (i - distance) i reach.maxLength
    if length < 4 then none else some (length, distance)

/-- The instructions for the bytes from position `i` on, in front of which stand those of `done`,
last first. -/
def tokensFrom (reach : Reach) (data : Array UInt8) (i : Nat) (table : Array Nat)
    (done : List Token) : List Token :=
  if h : i < data.size then
    match candidate? reach data table i with
    | some (length, distance) =>
      tokensFrom reach data (i + max 1 length) (table.setIfInBounds (slot data i) (i + 1))
        (.copy length distance :: done)
    | none =>
      tokensFrom reach data (i + 1) (table.setIfInBounds (slot data i) (i + 1))
        (.literal data[i] :: done)
  else done.reverse
termination_by data.size - i
decreasing_by
  · exact Nat.sub_lt_sub_left h (by omega)
  · exact Nat.sub_lt_sub_left h (Nat.lt_succ_self i)

def tokens (reach : Reach) (bs : Bytes) : List Token :=
  tokensFrom reach bs.toArray 0 (Array.replicate slots 0) []

end SealedHttp.Match
