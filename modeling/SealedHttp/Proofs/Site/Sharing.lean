import Mathlib.Logic.Relation
import SealedHttp.Proofs.Site.Pooling

/-!
# Requests side by side

Workers share the pools of a site. Between two steps of one request other requests may count, take
an instance, work on their own one or give it back. Whatever the order, no pool ever keeps more than
its bound, and all that lies idle has a blank exchange.
-/

namespace SealedHttp

variable {σ : Type}

/-- No more instances are idle than the bound allows, and nothing of a request is left on them. -/
structure Pool.IsTidy (p : InstancePool σ) : Prop where
  length_le : p.idle.length ≤ p.maxIdle
  isBlank : ∀ i ∈ p.idle, i.exchange.reset = i.exchange

namespace Pool

theorem isTidy_empty (maxIdle : Nat) : IsTidy (.empty maxIdle : InstancePool σ) :=
  ⟨Nat.zero_le _, fun _ hi => absurd hi List.not_mem_nil⟩

theorem IsTidy.tail {p : InstancePool σ} (hp : p.IsTidy) {i : Instance σ}
    {rest : List (Instance σ)} (hidle : p.idle = i :: rest) :
    IsTidy { p with idle := rest } := by
  obtain ⟨hlength, hblank⟩ := hp
  rw [hidle] at hlength hblank
  exact ⟨Nat.le_of_succ_le hlength, fun j hj => hblank j (List.mem_cons_of_mem i hj)⟩

theorem IsTidy.release {p : InstancePool σ} (hp : p.IsTidy) (t : HandlerType σ) (i : Instance σ) :
    (t.release i p).2.IsTidy := by
  rw [HandlerType.release, free, keepWithin]
  split
  · next hroom =>
    refine ⟨hroom, ?_⟩
    intro j hj
    rcases List.mem_cons.mp hj with rfl | hj
    · rfl
    · exact hp.isBlank j hj
  · exact hp

end Pool

namespace Site

variable {site : Site σ}

/-- A request that has its instance, which is as the request left it so far. -/
structure Flight (σ : Type) where
  target : Target σ
  current : Instance σ

/-! ## Steps -/

/-- One step of one request. The draws of all requests come from one source, and what a handler does
with its instance is its own affair. -/
inductive Step (site : Site σ) :
    State σ × List (Flight σ) → State σ × List (Flight σ) → Prop
  | count (s : State σ) (flights : List (Flight σ)) (key : String) :
      Step site (s, flights) (s.count key, flights)
  | refuse {s s' : State σ} {t : Target σ} {failure : InstanceError} (flights : List (Flight σ))
      (h : s.obtain? site t = (.error failure, s')) : Step site (s, flights) (s', flights)
  | take {s s' : State σ} {t : Target σ} {i : Instance σ} (flights : List (Flight σ))
      (h : s.obtain? site t = (.ok i, s')) : Step site (s, flights) (s', ⟨t, i⟩ :: flights)
  | tag (s : State σ) (flights : List (Flight σ)) (worker : Nat) :
      Step site (s, flights) ((s.drawTag worker).2, flights)
  | draw (s : State σ) (flights : List (Flight σ)) (draws : Draws) :
      Step site (s, flights) ({ s with draws }, flights)
  | work (s : State σ) (before after : List (Flight σ)) (t : Target σ) (i j : Instance σ) :
      Step site (s, before ++ ⟨t, i⟩ :: after) (s, before ++ ⟨t, j⟩ :: after)
  | giveBack (s : State σ) (before after : List (Flight σ)) (t : Target σ) (i : Instance σ) :
      Step site (s, before ++ ⟨t, i⟩ :: after) (s.giveBack site t i, before ++ after)

/-- Any number of steps. -/
abbrev Steps (site : Site σ) := Relation.ReflTransGen site.Step

/-- The site gets into this state, and no request has an instance. -/
def Reachable (site : Site σ) (s : State σ) : Prop :=
  ∃ draws, site.Steps (site.initial draws, []) (s, [])

theorem reachable_initial (site : Site σ) (draws : Draws) : site.Reachable (site.initial draws) :=
  ⟨draws, .refl⟩

/-- A request that is served without others in between takes such steps, and the ones of others can
come before and after them. -/
theorem steps_handle (site : Site σ) (r : Request) (worker : Nat) (s : State σ)
    (flights : List (Flight σ)) :
    site.Steps (s, flights) (((site.handle r worker).run s).2, flights) := by
  have hcount : site.Steps (s, flights) (s.count (site.target r.path).key, flights) :=
    .single (.count s flights _)
  rcases hobtained : site.obtained r s with ⟨failure | i, s'⟩
  · rw [handle_of_error hobtained]
    exact hcount.tail (.refuse flights hobtained)
  · rw [handle_of_ok hobtained, serve_run]
    refine hcount.tail (.take flights hobtained) |>.tail (.tag _ _ worker) |>.tail (.draw _ _ _)
      |>.tail (.work _ [] flights _ _ _) |>.tail (.giveBack _ [] flights _ _)

theorem Reachable.handle {s : State σ} (h : site.Reachable s) (r : Request) (worker : Nat) :
    site.Reachable ((site.handle r worker).run s).2 := by
  obtain ⟨draws, hsteps⟩ := h
  exact ⟨draws, hsteps.trans (steps_handle site r worker s [])⟩

/-! ## What all steps keep -/

structure IsTidy (site : Site σ) (s : State σ) : Prop where
  length_eq : s.pools.length = site.types.length
  pools : ∀ p ∈ s.pools, p.IsTidy
  fallbackPool : s.fallbackPool.IsTidy

theorem IsTidy.pool {s : State σ} (h : site.IsTidy s) (index : Option Nat) :
    (s.pool index).IsTidy := by
  cases index with
  | none => exact h.fallbackPool
  | some k =>
    rw [State.pool]
    rcases hpool : s.pools[k]? with _ | p
    · exact h.fallbackPool
    · exact h.pools p (List.mem_of_getElem? hpool)

theorem IsTidy.setPool {s : State σ} (h : site.IsTidy s) (index : Option Nat)
    {p : InstancePool σ} (hp : p.IsTidy) : site.IsTidy (s.setPool index p) := by
  cases index with
  | none => exact ⟨h.length_eq, h.pools, hp⟩
  | some k =>
    refine ⟨List.length_set.trans h.length_eq, ?_, h.fallbackPool⟩
    intro q hq
    rcases List.mem_or_eq_of_mem_set hq with hq | rfl
    · exact h.pools q hq
    · exact hp

theorem isTidy_initial (site : Site σ) (draws : Draws) : site.IsTidy (site.initial draws) := by
  refine ⟨List.length_mapIdx, ?_, Pool.isTidy_empty _⟩
  intro p hp
  obtain ⟨_, _, rfl⟩ := List.mem_mapIdx.mp hp
  exact Pool.isTidy_empty _

theorem IsTidy.obtain? {s s' : State σ} (h : site.IsTidy s) {t : Target σ}
    {result : Except InstanceError (Instance σ)} (hobtain : s.obtain? site t = (result, s')) :
    site.IsTidy s' := by
  cases hpools : site.usePools with
  | false =>
    rw [obtain?_of_no_pools hpools] at hobtain
    cases hobtain
    exact ⟨h.length_eq, h.pools, h.fallbackPool⟩
  | true =>
    rcases hidle : (s.pool t.index).idle with _ | ⟨i, rest⟩
    · rw [obtain?_of_empty hpools hidle] at hobtain
      cases hobtain
      have hset := h.setPool t.index (h.pool t.index)
      exact ⟨hset.length_eq, hset.pools, hset.fallbackPool⟩
    · rw [obtain?_of_idle hpools hidle] at hobtain
      cases hobtain
      exact h.setPool t.index ((h.pool t.index).tail hidle)

theorem IsTidy.giveBack {s : State σ} (h : site.IsTidy s) (t : Target σ) (i : Instance σ) :
    site.IsTidy (s.giveBack site t i) := by
  rw [State.giveBack]
  split
  · exact h.setPool t.index ((h.pool t.index).release t.handlerType i)
  · exact h

theorem Step.isTidy {s s' : State σ} {flights flights' : List (Flight σ)}
    (hstep : site.Step (s, flights) (s', flights')) (h : site.IsTidy s) : site.IsTidy s' := by
  cases hstep with
  | count => exact ⟨h.length_eq, h.pools, h.fallbackPool⟩
  | refuse _ hobtain => exact h.obtain? hobtain
  | take _ hobtain => exact h.obtain? hobtain
  | tag => exact ⟨h.length_eq, h.pools, h.fallbackPool⟩
  | draw => exact ⟨h.length_eq, h.pools, h.fallbackPool⟩
  | work => exact h
  | giveBack => exact h.giveBack _ _

theorem Steps.isTidy {before after : State σ × List (Flight σ)} (hsteps : site.Steps before after)
    (h : site.IsTidy before.1) : site.IsTidy after.1 := by
  induction hsteps with
  | refl => exact h
  | tail _ hstep ih => exact hstep.isTidy ih

theorem Reachable.isTidy {s : State σ} (h : site.Reachable s) : site.IsTidy s := by
  obtain ⟨draws, hsteps⟩ := h
  exact Steps.isTidy hsteps (isTidy_initial site draws)

end Site
end SealedHttp
