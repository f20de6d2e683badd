import SealedHttp.Bytes

/-!
# Route patterns

A pattern is a path in which `:name` stands for a segment or the end of one, and `*name` for the
rest of the path. A segment holds at most one parameter, and every parameter has a name.
-/

namespace SealedHttp.Routing

inductive Part where
  | byte (b : UInt8)
  /-- Captures up to the next slash. -/
  | param (name : Bytes)
  /-- Captures the rest of the path. -/
  | rest (name : Bytes)
  deriving DecidableEq, Repr

abbrev Pattern := List Part

inductive Refusal where
  /-- A route that is in the way. -/
  | conflict (route : Bytes)
  | crowdedSegment
  | unnamed
  | misplacedRest
  | tooManyParams
  deriving DecidableEq, Repr

def slash : UInt8 := 47

def colon : UInt8 := 58

def star : UInt8 := 42

/-- How many parameters a route may have, not counting one for the rest. -/
def maxParams : Nat := 25

/-- Reads the parts of a route; `left` more parameters may follow. -/
def parseFrom (left : Nat) : Bytes → Except Refusal Pattern
  | [] => .ok []
  | b :: bs =>
    if b = colon ∨ b = star then
      let name := bs.takeWhile (· ≠ slash)
      if name.any fun c => c = colon ∨ c = star then .error .crowdedSegment
      else if name.isEmpty then .error .unnamed
      else if b = star then (parseFrom left (bs.dropWhile (· ≠ slash))).map (.rest name :: ·)
      else if left = 0 then .error .tooManyParams
      else (parseFrom (left - 1) (bs.dropWhile (· ≠ slash))).map (.param name :: ·)
    else (parseFrom left bs).map (.byte b :: ·)
termination_by bs => bs.length
decreasing_by
  all_goals have := (List.dropWhile_suffix (l := bs) (· ≠ slash)).length_le
  all_goals simp only [List.length_cons]; omega

def parse (route : Bytes) : Except Refusal Pattern := parseFrom maxParams route

namespace Pattern

def names : Pattern → List Bytes
  | [] => []
  | .param name :: ps => name :: names ps
  | _ :: ps => names ps

def literal : Pattern → Bytes
  | .byte b :: ps => b :: literal ps
  | _ => []

def wild : Pattern → Pattern
  | .byte _ :: ps => wild ps
  | ps => ps

def rename : Pattern → List Bytes → Bytes
  | [], _ => []
  | .byte b :: ps, names => b :: rename ps names
  | .param _ :: ps, name :: names => colon :: name ++ rename ps names
  | .param name :: ps, [] => colon :: name ++ rename ps []
  | .rest name :: ps, names => star :: name ++ rename ps names

theorem length_wild_le (ps : Pattern) : ps.wild.length ≤ ps.length := by
  induction ps with
  | nil => simp [wild]
  | cons p ps ih => cases p <;> simp [wild]; omega

end Pattern
end SealedHttp.Routing
