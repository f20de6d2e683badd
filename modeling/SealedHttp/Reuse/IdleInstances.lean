/-!
# Pools

A pool keeps instances that nobody uses, up to a bound, and hands out the one that was given back
last. An instance is reset when it is given back. Giving back and changing the bound take two steps
each, since the bound is kept apart from the idle instances.
-/

namespace SealedHttp

/-- Why no instance can be had. -/
inductive InstanceError where
  | construction (typeName reason : String)
  /-- The lock of the pool was left behind by a crash. -/
  | lockPoisoned
  deriving DecidableEq, Repr

def InstanceError.message : InstanceError → String
  | construction typeName reason => s!"handler type {typeName} cannot be constructed: {reason}"
  | lockPoisoned => "mutex lock poisoned"

/-- The idle instances, last given back first, and how many may be kept. -/
structure Pool (α : Type) where
  idle : List α := []
  maxIdle : Nat
  deriving Repr

/-- A maker of instances; `σ` is what it knows about those made before. -/
abbrev Factory (σ α : Type) := StateM σ (Except InstanceError α)

namespace Pool

variable {σ α : Type}

def empty (maxIdle : Nat) : Pool α := { maxIdle }

def obtain? (make : Factory σ α) (p : Pool α) : StateM σ (Except InstanceError α × Pool α) :=
  match p.idle with
  | a :: rest => pure (.ok a, { p with idle := rest })
  | [] => do pure (← make, p)

/-- Keeps an instance if fewer than `bound` are idle; tells whether it did. -/
def keepWithin (bound : Nat) (a : α) (p : Pool α) : Bool × Pool α :=
  if p.idle.length < bound then (true, { p with idle := a :: p.idle }) else (false, p)

def free (reset : α → α) (a : α) (p : Pool α) : Bool × Pool α :=
  p.keepWithin p.maxIdle (reset a)

/-- Drops the idle instances beyond `bound`, those given back last. -/
def truncate (bound : Nat) (p : Pool α) : Pool α :=
  { p with idle := p.idle.drop (p.idle.length - bound) }

def setMaxIdle (n : Nat) (p : Pool α) : Pool α := truncate n { p with maxIdle := n }

def clear (p : Pool α) : Pool α := { p with idle := [] }

def summary (p : Pool α) : String := s!"Pool \x7b max_idle: {p.maxIdle}, .. \x7d"

end Pool
end SealedHttp
