import Mathlib.Data.List.Nodup
import SealedHttp.Handling.HandlerType
import SealedHttp.Proofs.Traces

/-!
# Who has an instance

Any number of callers share a pool: they take instances, have others made, work on what they have
and give it back, while the bound moves and the pool is emptied. If the factory never gives an
identity twice, an instance is idle or with one caller, and what was dropped does not come back.
-/

namespace SealedHttp

variable {σ α ι κ : Type}

/-! ## What a factory makes -/

namespace Factory

/-- What the factory knows after `n` calls. -/
def after (make : Factory σ α) (start : σ) : Nat → σ
  | 0 => start
  | n + 1 => (make.run (make.after start n)).2

/-- The identity of what the next call makes, if it makes anything. -/
def made (make : Factory σ α) (ident : α → ι) (s : σ) : List ι :=
  ((make.run s).1.toOption.map ident).toList

/-- The identities that `n` calls give. -/
def issued (make : Factory σ α) (ident : α → ι) (start : σ) : Nat → List ι
  | 0 => []
  | n + 1 => make.issued ident start n ++ make.made ident (make.after start n)

def IsFresh (make : Factory σ α) (ident : α → ι) (start : σ) : Prop :=
  ∀ n, (make.issued ident start n).Nodup

end Factory

namespace HandlerType

variable (t : HandlerType σ)

/-- Whichever attempts fail, instances are numbered without a gap. -/
theorem issued_create (start : Constructions) (n : Nat) : ∃ m,
    (Factory.after t.create start n).made = start.made + m ∧
      Factory.issued t.create Instance.id start n = List.range' (start.made + 1) m := by
  induction n with
  | zero => exact ⟨0, rfl, rfl⟩
  | succ n ih =>
    obtain ⟨m, hmade, hissued⟩ := ih
    rw [Factory.after, Factory.issued, Factory.made, hissued]
    rcases hfresh : t.behaviour.fresh (Factory.after t.create start n).attempts with reason | state
    · rw [create_of_error hfresh]
      exact ⟨m, hmade, List.append_nil _⟩
    · rw [create_of_fresh hfresh]
      refine ⟨m + 1, congrArg (· + 1) hmade, ?_⟩
      rw [List.range'_concat, Nat.one_mul, Nat.add_right_comm, ← hmade]
      rfl

theorem isFresh_create (start : Constructions) : Factory.IsFresh t.create Instance.id start := by
  intro n
  obtain ⟨m, -, hissued⟩ := issued_create t start n
  rw [hissued]
  exact List.nodup_range'

theorem id_reset (i : Instance σ) : (Instance.reset t.behaviour i).id = i.id := rfl

end HandlerType

namespace Pool

variable {make : Factory σ α} {reset : α → α} {ident : α → ι} {p p' : Pool α}

/-! ## Single calls -/

theorem obtain?_of_idle {a : α} {rest : List α} (hidle : p.idle = a :: rest)
    (make : Factory σ α) : p.obtain? make = pure (.ok a, { p with idle := rest }) := by
  rw [obtain?, hidle]

theorem obtain?_cases {m m' : σ} {result : Except InstanceError α}
    (h : (p.obtain? make).run m = ((result, p'), m')) :
    (∃ a rest, p.idle = a :: rest ∧ result = .ok a ∧ p' = { p with idle := rest } ∧ m' = m) ∨
      (p.idle = [] ∧ make.run m = (result, m') ∧ p' = p) := by
  rcases hidle : p.idle with _ | ⟨a, rest⟩
  · simp only [obtain?, hidle] at h
    cases h
    exact .inr ⟨rfl, rfl, rfl⟩
  · rw [obtain?_of_idle hidle] at h
    cases h
    exact .inl ⟨a, rest, rfl, rfl, rfl, rfl⟩

theorem keepWithin_cases {bound : Nat} {a : α} {kept : Bool}
    (h : p.keepWithin bound a = (kept, p')) :
    (p.idle.length < bound ∧ kept = true ∧ p' = { p with idle := a :: p.idle }) ∨
      (bound ≤ p.idle.length ∧ kept = false ∧ p' = p) := by
  rw [keepWithin] at h
  split at h
  · next hroom =>
    cases h
    exact .inl ⟨hroom, rfl, rfl⟩
  · next hfull =>
    cases h
    exact .inr ⟨Nat.le_of_not_lt hfull, rfl, rfl⟩

theorem free_cases {a : α} {kept : Bool} (h : p.free reset a = (kept, p')) :
    (p.idle.length < p.maxIdle ∧ kept = true ∧ p' = { p with idle := reset a :: p.idle }) ∨
      (p.maxIdle ≤ p.idle.length ∧ kept = false ∧ p' = p) :=
  keepWithin_cases h

theorem sublist_setMaxIdle (n : Nat) (p : Pool α) : (p.setMaxIdle n).idle.Sublist p.idle :=
  List.drop_sublist _ _

theorem length_truncate_le (n : Nat) (p : Pool α) : (p.truncate n).idle.length ≤ n := by
  rw [truncate, List.length_drop]
  omega

/-- No more instances are idle than the bound allows, and all of them were reset. -/
structure IsClean (reset : α → α) (p : Pool α) : Prop where
  length_le : p.idle.length ≤ p.maxIdle
  isReset : ∀ a ∈ p.idle, ∃ b, reset b = a

namespace IsClean

theorem obtain? (hp : p.IsClean reset) {m m' : σ} {result : Except InstanceError α}
    (h : (p.obtain? make).run m = ((result, p'), m')) : p'.IsClean reset := by
  rcases obtain?_cases h with ⟨a, rest, hidle, -, rfl, -⟩ | ⟨-, -, rfl⟩
  · obtain ⟨hlength, hreset⟩ := hp
    rw [hidle] at hlength hreset
    exact ⟨Nat.le_of_succ_le hlength, fun b hb => hreset b (List.mem_cons_of_mem a hb)⟩
  · exact hp

theorem free (hp : p.IsClean reset) {a : α} {kept : Bool} (h : p.free reset a = (kept, p')) :
    p'.IsClean reset := by
  rcases free_cases h with ⟨hroom, -, rfl⟩ | ⟨-, -, rfl⟩
  · exact ⟨hroom, List.forall_mem_cons.mpr ⟨⟨a, rfl⟩, hp.isReset⟩⟩
  · exact hp

theorem setMaxIdle (hp : p.IsClean reset) (n : Nat) : (p.setMaxIdle n).IsClean reset := by
  refine ⟨?_, fun a ha => hp.isReset a ((sublist_setMaxIdle n p).subset ha)⟩
  exact length_truncate_le n { p with maxIdle := n }

theorem empty (maxIdle : Nat) : (empty maxIdle : Pool α).IsClean reset :=
  ⟨Nat.zero_le _, fun _ ha => absurd ha List.not_mem_nil⟩

theorem clear (p : Pool α) : p.clear.IsClean reset :=
  ⟨Nat.zero_le _, fun _ ha => absurd ha List.not_mem_nil⟩

end IsClean

/-! ## Callers -/

/-- A call to the pool with its answer, or what a caller does with an instance it has. -/
inductive Event (κ α : Type) where
  | obtain (caller : κ) (result : Except InstanceError α)
  | create (caller : κ) (result : Except InstanceError α)
  | work (caller : κ) (a b : α)
  | free (caller : κ) (a : α) (kept : Bool)
  | setMaxIdle (n : Nat)
  | clear

/-- The identity of the instance that a caller is given. -/
def Event.given (ident : α → ι) : Event κ α → List ι
  | obtain _ result => (result.toOption.map ident).toList
  | create _ result => (result.toOption.map ident).toList
  | _ => []

/-- A pool with what its factory knows and what its callers have. -/
structure Shared (σ κ α : Type) where
  pool : Pool α
  maker : σ
  held : List (κ × α)

namespace Shared

variable {s s' : Shared σ κ α}

def initial (maxIdle : Nat) (start : σ) : Shared σ κ α := ⟨.empty maxIdle, start, []⟩

/-- The identities of all instances, idle or with a caller. -/
def idents (ident : α → ι) (s : Shared σ κ α) : List ι :=
  s.pool.idle.map ident ++ s.held.map fun h => ident h.2

/-- The identities of the instances that are dropped. -/
def dropped (ident : α → ι) (s : Shared σ κ α) : Event κ α → List ι
  | .free _ a false => [ident a]
  | .setMaxIdle n => (s.pool.idle.take (s.pool.idle.length - n)).map ident
  | .clear => s.pool.idle.map ident
  | _ => []

def give (caller : κ) (result : Except InstanceError α) (held : List (κ × α)) : List (κ × α) :=
  (result.toOption.map (caller, ·)).toList ++ held

/-- Each call is one step. A caller changes an instance as it likes, but not its identity. -/
inductive Step (make : Factory σ α) (reset : α → α) (ident : α → ι) :
    Shared σ κ α → Event κ α → Shared σ κ α → Prop
  | obtain {p p' : Pool α} {m m' : σ} {result : Except InstanceError α} (caller : κ)
      (held : List (κ × α)) (h : (p.obtain? make).run m = ((result, p'), m')) :
      Step make reset ident ⟨p, m, held⟩ (.obtain caller result) ⟨p', m', give caller result held⟩
  | create {m m' : σ} {result : Except InstanceError α} (caller : κ) (p : Pool α)
      (held : List (κ × α)) (h : make.run m = (result, m')) :
      Step make reset ident ⟨p, m, held⟩ (.create caller result) ⟨p, m', give caller result held⟩
  | work {a b : α} (caller : κ) (p : Pool α) (m : σ) (before after : List (κ × α))
      (h : ident b = ident a) :
      Step make reset ident ⟨p, m, before ++ (caller, a) :: after⟩ (.work caller a b)
        ⟨p, m, before ++ (caller, b) :: after⟩
  | free {p p' : Pool α} {a : α} {kept : Bool} (caller : κ) (m : σ) (before after : List (κ × α))
      (h : p.free reset a = (kept, p')) :
      Step make reset ident ⟨p, m, before ++ (caller, a) :: after⟩ (.free caller a kept)
        ⟨p', m, before ++ after⟩
  | setMaxIdle (n : Nat) (p : Pool α) (m : σ) (held : List (κ × α)) :
      Step make reset ident ⟨p, m, held⟩ (.setMaxIdle n) ⟨p.setMaxIdle n, m, held⟩
  | clear (p : Pool α) (m : σ) (held : List (κ × α)) :
      Step make reset ident ⟨p, m, held⟩ .clear ⟨p.clear, m, held⟩

abbrev Run (make : Factory σ α) (reset : α → α) (ident : α → ι) (s : Shared σ κ α)
    (events : List (Event κ α)) (s' : Shared σ κ α) : Prop :=
  Trace (Step make reset ident) s events s'

/-! ## Identities -/

theorem idents_middle (ident : α → ι) (p : Pool α) (m : σ) (before after : List (κ × α))
    (caller : κ) (a : α) :
    (idents ident ⟨p, m, before ++ (caller, a) :: after⟩).Perm
      (ident a :: idents ident ⟨p, m, before ++ after⟩) := by
  simp only [idents, List.map_append, List.map_cons]
  exact (List.perm_middle.append_left _).trans List.perm_middle

theorem idents_give (ident : α → ι) (p : Pool α) (m : σ) (caller : κ)
    (result : Except InstanceError α) (held : List (κ × α)) :
    (idents ident ⟨p, m, give caller result held⟩).Perm
      ((result.toOption.map ident).toList ++ idents ident ⟨p, m, held⟩) := by
  cases result with
  | error failure => exact .refl _
  | ok a => exact idents_middle ident p m [] held caller a

/-- Identities only appear if the factory is called, and only disappear if they are dropped. -/
theorem Step.idents_cases (hreset : ∀ a, ident (reset a) = ident a) {e : Event κ α}
    (h : Step make reset ident s e s') :
    (s'.maker = s.maker ∧ e.given ident ⊆ s.idents ident ∧
        (s.idents ident).Perm (s.dropped ident e ++ s'.idents ident)) ∨
      (s'.maker = (make.run s.maker).2 ∧ e.given ident = make.made ident s.maker ∧
        s.dropped ident e = [] ∧ (s'.idents ident).Perm (e.given ident ++ s.idents ident)) := by
  cases h with
  | @obtain p p' m m' result caller held h =>
    have hgive := idents_give ident p' m' caller result held
    rcases obtain?_cases h with ⟨a, rest, hidle, rfl, rfl, rfl⟩ | ⟨-, hmake, rfl⟩
    · have hidents : idents ident ⟨p, m', held⟩ =
          ident a :: idents ident ⟨{ p with idle := rest }, m', held⟩ := by
        simp only [idents, hidle, List.map_cons, List.cons_append]
      refine .inl ⟨rfl, ?_, hidents ▸ hgive.symm⟩
      exact hidents ▸ List.cons_subset.mpr ⟨List.mem_cons_self, List.nil_subset _⟩
    · exact .inr ⟨congrArg Prod.snd hmake.symm, by rw [Factory.made, hmake]; rfl, rfl, hgive⟩
  | @create m m' result caller p held h =>
    have hgive := idents_give ident p m' caller result held
    exact .inr ⟨congrArg Prod.snd h.symm, by rw [Factory.made, h]; rfl, rfl, hgive⟩
  | work caller p m before after h =>
    refine .inl ⟨rfl, List.nil_subset _, ?_⟩
    exact (idents_middle ident p m before after caller _).trans
      (h ▸ (idents_middle ident p m before after caller _).symm)
  | @free p p' a kept caller m before after h =>
    have hmiddle := idents_middle ident p m before after caller a
    refine .inl ⟨rfl, List.nil_subset _, ?_⟩
    rcases free_cases h with ⟨-, rfl, rfl⟩ | ⟨-, rfl, rfl⟩
    · simpa only [dropped, idents, List.map_cons, List.cons_append, hreset, List.nil_append]
        using hmiddle
    · exact hmiddle
  | setMaxIdle n p m held =>
    refine .inl ⟨rfl, List.nil_subset _, ?_⟩
    simp only [dropped, idents, Pool.setMaxIdle, truncate]
    rw [← List.append_assoc, ← List.map_append, List.take_append_drop]
  | clear p m held => exact .inl ⟨rfl, List.nil_subset _, .refl _⟩

theorem Step.isClean {e : Event κ α} (h : Step make reset ident s e s')
    (hclean : s.pool.IsClean reset) : s'.pool.IsClean reset := by
  cases h with
  | obtain caller held h => exact hclean.obtain? h
  | create => exact hclean
  | work => exact hclean
  | free caller m before after h => exact hclean.free h
  | setMaxIdle n => exact hclean.setMaxIdle n
  | clear p => exact .clear p

/-! ## Runs -/

/-- The identities that callers were given, in this order. -/
def handedOut (ident : α → ι) (events : List (Event κ α)) : List ι :=
  events.flatMap (Event.given ident)

theorem handedOut_append (ident : α → ι) (events later : List (Event κ α)) :
    handedOut ident (events ++ later) = handedOut ident events ++ handedOut ident later :=
  List.flatMap_append

theorem handedOut_concat (ident : α → ι) (events : List (Event κ α)) (e : Event κ α) :
    handedOut ident (events ++ [e]) = handedOut ident events ++ e.given ident := by
  rw [handedOut_append, handedOut, handedOut, List.flatMap_singleton]

/-- All instances are told apart, callers were given every one of them, and the factory made what
callers were given. -/
structure IsTracked (make : Factory σ α) (ident : α → ι) (start : σ) (events : List (Event κ α))
    (s : Shared σ κ α) (n : Nat) : Prop where
  maker_eq : s.maker = make.after start n
  nodup : (s.idents ident).Nodup
  idents_subset : s.idents ident ⊆ handedOut ident events
  handedOut_subset : handedOut ident events ⊆ make.issued ident start n

variable {start : σ} {events : List (Event κ α)} {n : Nat}

/-- What a factory makes next was never handed out. -/
theorem IsTracked.not_mem_of_made (hfresh : make.IsFresh ident start)
    (h : IsTracked make ident start events s n) {x : ι} (hx : x ∈ make.made ident s.maker) :
    x ∉ handedOut ident events := by
  have hnodup := hfresh (n + 1)
  rw [Factory.issued, ← h.maker_eq, List.nodup_append'] at hnodup
  exact fun hhanded => hnodup.2.2 (h.handedOut_subset hhanded) hx

theorem IsTracked.step (hfresh : make.IsFresh ident start) (hreset : ∀ a, ident (reset a) = ident a)
    (h : IsTracked make ident start events s n) {e : Event κ α}
    (hstep : Step make reset ident s e s') :
    ∃ n', IsTracked make ident start (events ++ [e]) s' n' := by
  rcases hstep.idents_cases hreset with ⟨hmaker, hgiven, hperm⟩ | ⟨hmaker, hgiven, -, hperm⟩
  · refine ⟨n, hmaker.trans h.maker_eq, ?_, ?_, ?_⟩
    · exact (hperm.nodup h.nodup).of_append_right
    · rw [handedOut_concat]
      intro x hx
      exact List.mem_append_left _
        (h.idents_subset (hperm.symm.subset (List.mem_append_right _ hx)))
    · rw [handedOut_concat, List.append_subset]
      exact ⟨h.handedOut_subset, fun x hx => h.handedOut_subset (h.idents_subset (hgiven hx))⟩
  · have hissued := hfresh (n + 1)
    rw [Factory.issued, ← h.maker_eq, ← hgiven, List.nodup_append'] at hissued
    refine ⟨n + 1, ?_, ?_, ?_, ?_⟩
    · rw [hmaker, h.maker_eq, Factory.after]
    · rw [hperm.nodup_iff, List.nodup_append']
      refine ⟨hissued.2.1, h.nodup, ?_⟩
      intro x hx hold
      exact h.not_mem_of_made hfresh (hgiven ▸ hx) (h.idents_subset hold)
    · rw [handedOut_concat]
      intro x hx
      rcases List.mem_append.mp (hperm.subset hx) with hnew | hold
      · exact List.mem_append_right _ hnew
      · exact List.mem_append_left _ (h.idents_subset hold)
    · rw [handedOut_concat, Factory.issued, ← h.maker_eq, hgiven]
      exact List.append_subset.mpr ⟨fun x hx => List.mem_append_left _ (h.handedOut_subset hx),
        List.subset_append_right _ _⟩

variable {maxIdle : Nat}

theorem Run.isTracked (hfresh : make.IsFresh ident start) (hreset : ∀ a, ident (reset a) = ident a)
    (hrun : Run make reset ident (initial maxIdle start) events s) :
    ∃ n, IsTracked make ident start events s n := by
  induction hrun with
  | nil => exact ⟨0, rfl, List.nodup_nil, List.Subset.refl _, List.Subset.refl _⟩
  | snoc _ hstep ih =>
    obtain ⟨n, htracked⟩ := ih
    exact htracked.step hfresh hreset hstep

theorem Run.isClean (hrun : Run make reset ident (initial maxIdle start) events s) :
    s.pool.IsClean reset := by
  induction hrun with
  | nil => exact .empty maxIdle
  | snoc _ hstep ih => exact hstep.isClean ih

/-- What was handed out and is gone stays away. -/
theorem Run.not_mem_of_step (hfresh : make.IsFresh ident start)
    (hreset : ∀ a, ident (reset a) = ident a)
    (hrun : Run make reset ident (initial maxIdle start) events s) {e : Event κ α}
    (hstep : Step make reset ident s e s') {x : ι} (hhanded : x ∈ handedOut ident events)
    (hgone : x ∉ s.idents ident) : x ∉ e.given ident ∧ x ∉ s'.idents ident := by
  obtain ⟨n, htracked⟩ := hrun.isTracked hfresh hreset
  rcases hstep.idents_cases hreset with ⟨-, hgiven, hperm⟩ | ⟨-, hgiven, -, hperm⟩
  · exact ⟨fun hx => hgone (hgiven hx),
      fun hx => hgone (hperm.symm.subset (List.mem_append_right _ hx))⟩
  · have hnew : x ∉ e.given ident := fun hx =>
      htracked.not_mem_of_made hfresh (hgiven ▸ hx) hhanded
    exact ⟨hnew, fun hx => (List.mem_append.mp (hperm.subset hx)).elim hnew hgone⟩

theorem Run.not_mem_later (hfresh : make.IsFresh ident start)
    (hreset : ∀ a, ident (reset a) = ident a)
    (hrun : Run make reset ident (initial maxIdle start) events s) {later : List (Event κ α)}
    (hlater : Run make reset ident s later s') {x : ι} (hhanded : x ∈ handedOut ident events)
    (hgone : x ∉ s.idents ident) : x ∉ handedOut ident later ∧ x ∉ s'.idents ident := by
  induction hlater with
  | nil => exact ⟨List.not_mem_nil, hgone⟩
  | @snoc later _ _ _ hlater hstep ih =>
    have hbefore : x ∈ handedOut ident (events ++ later) := by
      rw [handedOut_append]
      exact List.mem_append_left _ hhanded
    have hstays := Run.not_mem_of_step hfresh hreset (hrun.append hlater) hstep hbefore ih.2
    rw [handedOut_concat, List.mem_append, not_or]
    exact ⟨⟨ih.1, hstays.1⟩, hstays.2⟩

/-! ## What callers can rely on -/

/-- What holds of a shared pool after `events`, and of whatever comes next. -/
structure IsOrderly (make : Factory σ α) (reset : α → α) (ident : α → ι)
    (events : List (Event κ α)) (s : Shared σ κ α) : Prop where
  nodup : (s.idents ident).Nodup
  length_le : s.pool.idle.length ≤ s.pool.maxIdle
  isReset : ∀ a ∈ s.pool.idle, ∃ b, reset b = a
  /-- An idle instance is handed out whatever the factory would do. -/
  obtain_idle : ∀ {a rest caller result s'}, s.pool.idle = a :: rest →
    Step make reset ident s (.obtain caller result) s' →
      result = .ok a ∧ s'.pool.idle = rest ∧
        ∀ other : Factory σ α, Step other reset ident s (.obtain caller result) s'
  obtain_made : ∀ {caller result s'}, s.pool.idle = [] →
    Step make reset ident s (.obtain caller result) s' →
      make.run s.maker = (result, s'.maker) ∧ s'.pool = s.pool
  create : ∀ {caller result s'}, Step make reset ident s (.create caller result) s' →
    make.run s.maker = (result, s'.maker) ∧ s'.pool = s.pool
  /-- What the factory makes was never handed out before. -/
  isNew : ∀ {a m}, make.run s.maker = (.ok a, m) → ident a ∉ handedOut ident events
  kept_iff : ∀ {caller a kept s'}, Step make reset ident s (.free caller a kept) s' →
    (kept = true ↔ reset a ∈ s'.pool.idle)
  /-- What is dropped is not handed out by anything that follows. -/
  dropped : ∀ {e s' later s''}, Step make reset ident s e s' →
    Run make reset ident s' later s'' →
      ∀ x ∈ s.dropped ident e, x ∉ handedOut ident later ∧ x ∉ s''.idents ident

theorem Step.obtain_of_idle {a : α} {rest : List α} (hidle : s.pool.idle = a :: rest) {caller : κ}
    {result : Except InstanceError α} (hstep : Step make reset ident s (.obtain caller result) s') :
    result = .ok a ∧ s'.pool.idle = rest ∧
      ∀ other : Factory σ α, Step other reset ident s (.obtain caller result) s' := by
  cases hstep with
  | @obtain p _ m _ _ _ held h =>
    rw [obtain?_of_idle hidle] at h
    cases h
    refine ⟨rfl, rfl, fun other => .obtain caller held ?_⟩
    rw [obtain?_of_idle hidle]
    rfl

theorem Step.obtain_of_empty (hidle : s.pool.idle = []) {caller : κ}
    {result : Except InstanceError α} (hstep : Step make reset ident s (.obtain caller result) s') :
    make.run s.maker = (result, s'.maker) ∧ s'.pool = s.pool := by
  cases hstep with
  | obtain _ held h =>
    rcases obtain?_cases h with ⟨a, rest, hcons, -⟩ | ⟨-, hmake, hpool⟩
    · exact absurd (hidle.symm.trans hcons) nofun
    · exact ⟨hmake, hpool⟩

/-- An instance that was not kept is not idle, since it was with its caller before. -/
theorem Step.kept_iff (hreset : ∀ a, ident (reset a) = ident a) (hnodup : (s.idents ident).Nodup)
    {caller : κ} {a : α} {kept : Bool} (hstep : Step make reset ident s (.free caller a kept) s') :
    kept = true ↔ reset a ∈ s'.pool.idle := by
  cases hstep with
  | @free p p' _ _ _ m before after h =>
    rcases free_cases h with ⟨-, rfl, rfl⟩ | ⟨-, rfl, rfl⟩
    · exact ⟨fun _ => List.mem_cons_self, fun _ => rfl⟩
    · refine ⟨nofun, fun hidle => absurd ?_
        (List.nodup_cons.mp ((idents_middle ident p' m before after caller a).nodup hnodup)).1⟩
      exact List.mem_append_left _ (hreset a ▸ List.mem_map_of_mem hidle)

theorem Run.not_mem_of_dropped (hfresh : make.IsFresh ident start)
    (hreset : ∀ a, ident (reset a) = ident a)
    (hrun : Run make reset ident (initial maxIdle start) events s) {e : Event κ α}
    (hstep : Step make reset ident s e s') {later : List (Event κ α)} {s'' : Shared σ κ α}
    (hlater : Run make reset ident s' later s'') {x : ι} (hx : x ∈ s.dropped ident e) :
    x ∉ handedOut ident later ∧ x ∉ s''.idents ident := by
  obtain ⟨n, htracked⟩ := hrun.isTracked hfresh hreset
  rcases hstep.idents_cases hreset with ⟨-, -, hperm⟩ | ⟨-, -, hnone, -⟩
  · have hhanded := htracked.idents_subset (hperm.symm.subset (List.mem_append_left _ hx))
    have hgone := (List.nodup_append'.mp (hperm.nodup htracked.nodup)).2.2 hx
    refine Run.not_mem_later hfresh hreset (hrun.snoc hstep) hlater ?_ hgone
    rw [handedOut_concat]
    exact List.mem_append_left _ hhanded
  · exact absurd (hnone ▸ hx) List.not_mem_nil

/-- However callers follow each other, they share the pool in good order. -/
theorem isOrderly_of_run (hfresh : make.IsFresh ident start)
    (hreset : ∀ a, ident (reset a) = ident a)
    (hrun : Run make reset ident (initial maxIdle start) events s) :
    IsOrderly make reset ident events s := by
  obtain ⟨n, htracked⟩ := hrun.isTracked hfresh hreset
  have hclean := hrun.isClean
  constructor
  · exact htracked.nodup
  · exact hclean.length_le
  · exact hclean.isReset
  · exact fun hidle hstep => hstep.obtain_of_idle hidle
  · exact fun hidle hstep => hstep.obtain_of_empty hidle
  · intro caller result s' hstep
    cases hstep with
    | create _ _ _ h => exact ⟨h, rfl⟩
  · intro a m hmake
    refine htracked.not_mem_of_made hfresh ?_
    rw [Factory.made, hmake]
    exact List.mem_singleton_self _
  · exact fun hstep => hstep.kept_iff hreset htracked.nodup
  · exact fun hstep hlater x hx => hrun.not_mem_of_dropped hfresh hreset hstep hlater hx

/-- An instance of a type whose handlers do nothing. -/
def blank (id : Nat) : Instance Unit := ⟨(), { instanceId := id, typeName := "NotFound" }⟩

abbrev BlankStep : Shared Constructions String (Instance Unit) → Event String (Instance Unit) →
    Shared Constructions String (Instance Unit) → Prop :=
  Step (HandlerType.notFound ()).create (Instance.reset (HandlerType.notFound ()).behaviour)
    Instance.id

abbrev BlankRun : Shared Constructions String (Instance Unit) →
    List (Event String (Instance Unit)) → Shared Constructions String (Instance Unit) → Prop :=
  Run (HandlerType.notFound ()).create (Instance.reset (HandlerType.notFound ()).behaviour)
    Instance.id

/-- Two callers share a pool that keeps one instance. The one that comes back second is dropped, and
nobody is given it again. -/
theorem isOrderly_of_run_twoCallers :
    ∃ s s', BlankRun (initial 1 {}) [.obtain "left" (.ok (blank 1)),
        .create "right" (.ok (blank 2)), .free "left" (blank 1) true] s ∧
      BlankStep s (.free "right" (blank 2) false) s' ∧
      ∀ later s'', BlankRun s' later s'' → 2 ∉ handedOut Instance.id later := by
  have hobtain : BlankRun (initial 1 {}) [.obtain "left" (.ok (blank 1))]
      ⟨.empty 1, ⟨1, 1⟩, [("left", blank 1)]⟩ := .snoc .nil (.obtain "left" [] rfl)
  have hcreate : BlankRun (initial 1 {})
      [.obtain "left" (.ok (blank 1)), .create "right" (.ok (blank 2))]
      ⟨.empty 1, ⟨2, 2⟩, [("right", blank 2), ("left", blank 1)]⟩ :=
    hobtain.snoc (.create "right" _ _ rfl)
  have hfree : BlankStep ⟨.empty 1, ⟨2, 2⟩, [("right", blank 2), ("left", blank 1)]⟩
      (.free "left" (blank 1) true) ⟨⟨[blank 1], 1⟩, ⟨2, 2⟩, [("right", blank 2)]⟩ :=
    .free "left" (⟨2, 2⟩ : Constructions) [("right", blank 2)] [] rfl
  have hrun := hcreate.snoc hfree
  have hstep : BlankStep ⟨⟨[blank 1], 1⟩, ⟨2, 2⟩, [("right", blank 2)]⟩
      (.free "right" (blank 2) false) ⟨⟨[blank 1], 1⟩, ⟨2, 2⟩, []⟩ :=
    .free "right" (⟨2, 2⟩ : Constructions) [] [] rfl
  refine ⟨_, _, hrun, hstep, ?_⟩
  intro later s'' hlater
  have hfresh := (HandlerType.notFound ()).isFresh_create {}
  have horderly := isOrderly_of_run hfresh (HandlerType.notFound ()).id_reset hrun
  exact (horderly.dropped hstep hlater 2 (List.mem_singleton_self 2)).1

end Shared
end Pool
end SealedHttp
