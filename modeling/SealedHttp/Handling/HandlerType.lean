import SealedHttp.Handling.Behaviour
import SealedHttp.ResponsePolicy
import SealedHttp.Reuse.IdleInstances
import SealedHttp.Settings.Basic

/-!
# Handler types

A handler type names a behaviour and says how its responses are transformed and how many idle
instances of it are kept. Instances are numbered in the order in which they are made.
-/

namespace SealedHttp

structure HandlerType (σ : Type) where
  name : String
  behaviour : Behaviour σ
  policy : Policy := {}
  /-- Its own bound on idle instances, which goes before the bound of the server. -/
  ownMaxIdle : Option Nat := none

abbrev InstancePool (σ : Type) := Pool (Instance σ)

/-- How the making of instances went so far, over all types. -/
structure Constructions where
  attempts : Nat := 0
  made : Nat := 0
  deriving DecidableEq, Repr

namespace Constructions

def failed (c : Constructions) : Constructions := { c with attempts := c.attempts + 1 }

def succeeded (c : Constructions) : Constructions := ⟨c.attempts + 1, c.made + 1⟩

end Constructions

namespace HandlerType

variable {σ : Type}

/-- The type that serves what no route leads to; its handlers have a state without meaning. -/
def notFound (state : σ) : HandlerType σ :=
  { name := "NotFound", behaviour := { fresh := fun _ => .ok state, reset := fun s => s } }

def maxIdle (serverBound : Nat) (t : HandlerType σ) : Nat := t.ownMaxIdle.getD serverBound

def emptyPool (serverBound : Nat) (t : HandlerType σ) : InstancePool σ :=
  .empty (t.maxIdle serverBound)

/-- Tries to make an instance. -/
def create (t : HandlerType σ) : StateM Constructions (Except InstanceError (Instance σ)) :=
  fun c =>
    match t.behaviour.fresh c.attempts with
    | .error reason => (.error (.construction t.name reason), c.failed)
    | .ok state => (.ok ⟨state, { instanceId := c.made + 1, typeName := t.name }⟩, c.succeeded)

theorem create_of_fresh {t : HandlerType σ} {state : σ} {c : Constructions}
    (h : t.behaviour.fresh c.attempts = .ok state) :
    t.create.run c =
      (.ok ⟨state, { instanceId := c.made + 1, typeName := t.name }⟩, c.succeeded) := by
  simp only [create, StateT.run, h]

theorem create_of_error {t : HandlerType σ} {reason : String} {c : Constructions}
    (h : t.behaviour.fresh c.attempts = .error reason) :
    t.create.run c = (.error (.construction t.name reason), c.failed) := by
  simp only [create, StateT.run, h]

def acquire (t : HandlerType σ) (p : InstancePool σ) :
    StateM Constructions (Except InstanceError (Instance σ) × InstancePool σ) :=
  p.obtain? t.create

/-- Resets an instance and gives it back; tells whether it was kept. -/
def release (t : HandlerType σ) (i : Instance σ) (p : InstancePool σ) : Bool × InstancePool σ :=
  p.free (Instance.reset t.behaviour) i

def summary (t : HandlerType σ) (p : InstancePool σ) : String :=
  let name := Text.quoted t.name
  s!"HandlerType \x7b name: {name}, policy: {t.policy.summary}, pool: {p.summary} \x7d"

end HandlerType
end SealedHttp
