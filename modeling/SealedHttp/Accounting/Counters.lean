/-!
# Counters and request tags

A counter per key, of 64 bits. Adding takes two steps when the key is absent: a lookup that fails,
then an insertion which allows for the key having appeared in between.

Every request gets a tag: the number of its worker, an underscore and a number that the worker
counts up. Tags of different workers differ before the underscore.
-/

namespace SealedHttp

/-- Counters in the order in which their keys appeared; a key has at most one. -/
structure Counters (κ : Type) where
  entries : List (κ × UInt64) := []
  deriving Repr

namespace Counters

variable {κ : Type} [DecidableEq κ]

def empty : Counters κ := {}

def find? (key : κ) (c : Counters κ) : Option UInt64 := c.entries.lookup key

def get (key : κ) (c : Counters κ) : UInt64 := (c.find? key).getD 0

def raise (key : κ) (delta : UInt64) (c : Counters κ) : Counters κ :=
  ⟨c.entries.map fun (k, n) => if k = key then (k, n + delta) else (k, n)⟩

/-- The lookup of an addition: adds at once if the key has a counter. -/
def bump? (key : κ) (delta : UInt64) (c : Counters κ) : Option (UInt64 × Counters κ) :=
  (c.find? key).map fun n => (n + delta, c.raise key delta)

/-- The insertion of an addition: makes a counter unless there is one by now. -/
def insertOrBump (key : κ) (delta : UInt64) (c : Counters κ) : UInt64 × Counters κ :=
  match c.bump? key delta with
  | some r => r
  | none => (delta, ⟨c.entries ++ [(key, delta)]⟩)

def add (key : κ) (delta : UInt64) (c : Counters κ) : UInt64 × Counters κ :=
  match c.bump? key delta with
  | some r => r
  | none => c.insertOrBump key delta

def snapshot (c : Counters κ) : List (κ × UInt64) := c.entries

end Counters

structure RequestTags where
  drawn : Counters Nat := {}
  deriving Repr

namespace RequestTags

/-- The tag of the request that a worker counts as its `n`-th. -/
def text (worker n : Nat) : String := toString worker ++ "_" ++ toString n

def next (worker : Nat) (t : RequestTags) : String × RequestTags :=
  let (n, drawn) := t.drawn.add worker 1
  (text worker n.toNat, ⟨drawn⟩)

end RequestTags
end SealedHttp
