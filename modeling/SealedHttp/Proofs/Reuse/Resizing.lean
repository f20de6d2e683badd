import Mathlib.Data.List.DropRight
import SealedHttp.Proofs.Reuse.Ownership

/-!
# Changing the bound while instances come back

Giving an instance back reads the bound and compares later; changing the bound stores it and drops
the surplus later. Between the two steps of a call others take theirs. An instance can therefore come
back under a bound that is no longer in force, after the surplus was dropped, and then it is kept.
Nothing else makes more instances idle than the bound allows when all calls have returned.
-/

namespace SealedHttp.Pool

variable {σ α ι κ : Type}

/-- An instance on its way back and the bound that was read for it. -/
structure Return (κ α : Type) where
  caller : κ
  item : α
  bound : Nat

/-- A shared pool and the calls that are between their two steps. -/
structure Busy (σ κ α : Type) where
  shared : Shared σ κ α
  returning : List (Return κ α)
  /-- Bounds that are stored, while their surplus is not dropped yet. -/
  changing : List Nat

namespace Busy

inductive Event (κ α : Type) where
  /-- A call that takes one step. -/
  | whole (e : Pool.Event κ α)
  | read (r : Return κ α)
  | giveBack (r : Return κ α) (kept : Bool)
  | store (n : Nat)
  | truncate (n : Nat)

def IsWhole : Pool.Event κ α → Prop
  | .free _ _ _ => False
  | .setMaxIdle _ => False
  | _ => True

/-- Giving back and changing the bound take two steps each, all other calls take one. -/
inductive Step (make : Factory σ α) (reset : α → α) (ident : α → ι) :
    Busy σ κ α → Event κ α → Busy σ κ α → Prop
  | whole {t t' : Shared σ κ α} {e : Pool.Event κ α} (returning : List (Return κ α))
      (changing : List Nat) (h : Shared.Step make reset ident t e t') (hwhole : IsWhole e) :
      Step make reset ident ⟨t, returning, changing⟩ (.whole e) ⟨t', returning, changing⟩
  | read (caller : κ) (a : α) (p : Pool α) (m : σ) (before after : List (κ × α))
      (returning : List (Return κ α)) (changing : List Nat) :
      Step make reset ident ⟨⟨p, m, before ++ (caller, a) :: after⟩, returning, changing⟩
        (.read ⟨caller, reset a, p.maxIdle⟩)
        ⟨⟨p, m, before ++ after⟩, ⟨caller, reset a, p.maxIdle⟩ :: returning, changing⟩
  | giveBack {p p' : Pool α} {kept : Bool} (r : Return κ α) (m : σ) (held : List (κ × α))
      (before after : List (Return κ α)) (changing : List Nat)
      (h : p.keepWithin r.bound r.item = (kept, p')) :
      Step make reset ident ⟨⟨p, m, held⟩, before ++ r :: after, changing⟩ (.giveBack r kept)
        ⟨⟨p', m, held⟩, before ++ after, changing⟩
  | store (n : Nat) (p : Pool α) (m : σ) (held : List (κ × α)) (returning : List (Return κ α))
      (changing : List Nat) :
      Step make reset ident ⟨⟨p, m, held⟩, returning, changing⟩ (.store n)
        ⟨⟨{ p with maxIdle := n }, m, held⟩, returning, n :: changing⟩
  | truncate (n : Nat) (p : Pool α) (m : σ) (held : List (κ × α)) (returning : List (Return κ α))
      (before after : List Nat) :
      Step make reset ident ⟨⟨p, m, held⟩, returning, before ++ n :: after⟩ (.truncate n)
        ⟨⟨p.truncate n, m, held⟩, returning, before ++ after⟩

abbrev Run (make : Factory σ α) (reset : α → α) (ident : α → ι) (s : Busy σ κ α)
    (events : List (Event κ α)) (s' : Busy σ κ α) : Prop :=
  Trace (Step make reset ident) s events s'

def initial (maxIdle : Nat) (start : σ) : Busy σ κ α := ⟨.initial maxIdle start, [], []⟩

/-- No call is between its two steps. -/
def IsQuiet (s : Busy σ κ α) : Prop := s.returning = [] ∧ s.changing = []

variable {make : Factory σ α} {reset : α → α} {ident : α → ι} {events : List (Event κ α)}
  {s s' : Busy σ κ α}

theorem run_setMaxIdle (n : Nat) (p : Pool α) (m : σ) (held : List (κ × α))
    (returning : List (Return κ α)) (changing : List Nat) :
    Run make reset ident ⟨⟨p, m, held⟩, returning, changing⟩ [.store n, .truncate n]
      ⟨⟨p.setMaxIdle n, m, held⟩, returning, changing⟩ :=
  (Trace.nil.snoc (.store n p m held returning changing)).snoc
    (.truncate n _ m held returning [] changing)

/-- With nothing in between, the two steps of a call are the call. -/
theorem exists_run_of_step {t t' : Shared σ κ α} {e : Pool.Event κ α}
    (h : Shared.Step make reset ident t e t') (returning : List (Return κ α))
    (changing : List Nat) :
    ∃ events, Run make reset ident ⟨t, returning, changing⟩ events ⟨t', returning, changing⟩ := by
  cases h with
  | obtain caller held h => exact ⟨_, Trace.nil.snoc (.whole _ _ (.obtain caller held h) trivial)⟩
  | create caller p held h =>
    exact ⟨_, Trace.nil.snoc (.whole _ _ (.create caller p held h) trivial)⟩
  | work caller p m before after h =>
    exact ⟨_, Trace.nil.snoc (.whole _ _ (.work caller p m before after h) trivial)⟩
  | @free p p' a kept caller m before after h =>
    exact ⟨_, (Trace.nil.snoc (.read caller a p m before after returning changing)).snoc
      (.giveBack ⟨caller, reset a, p.maxIdle⟩ m (before ++ after) [] returning changing h)⟩
  | setMaxIdle n p m held => exact ⟨_, run_setMaxIdle n p m held returning changing⟩
  | clear p m held => exact ⟨_, Trace.nil.snoc (.whole _ _ (.clear p m held) trivial)⟩

/-- Calls that follow each other are a case of calls that overlap. -/
theorem exists_run_of_run {t t' : Shared σ κ α} {calls : List (Pool.Event κ α)}
    (h : Shared.Run make reset ident t calls t') (returning : List (Return κ α))
    (changing : List Nat) :
    ∃ events, Run make reset ident ⟨t, returning, changing⟩ events ⟨t', returning, changing⟩ := by
  induction h with
  | nil => exact ⟨[], .nil⟩
  | snoc _ hstep ih =>
    obtain ⟨events, hrun⟩ := ih
    obtain ⟨later, hlater⟩ := exists_run_of_step hstep returning changing
    exact ⟨_, hrun.append hlater⟩

/-! ## Late instances -/

def Event.isStore : Event κ α → Bool
  | store _ => true
  | _ => false

/-- Up to the last time that a bound was stored, and with it. -/
def untilStore (events : List (Event κ α)) : List (Event κ α) :=
  events.rdropWhile fun e => !e.isStore

def sinceStore (events : List (Event κ α)) : List (Event κ α) :=
  events.rtakeWhile fun e => !e.isStore

def Event.late? (n : Nat) : Event κ α → Option (Return κ α)
  | giveBack r true => if n < r.bound then some r else none
  | _ => none

theorem Event.mem_late?_iff {n : Nat} {e : Event κ α} {r : Return κ α} :
    r ∈ e.late? n ↔ e = .giveBack r true ∧ n < r.bound := by
  constructor
  · intro h
    unfold late? at h
    split at h
    · next r' =>
      rw [Option.mem_ite_none_right] at h
      cases h.2
      exact ⟨rfl, h.1⟩
    · cases h
  · rintro ⟨rfl, h⟩
    exact if_pos h

/-- What was kept under a bound above `n` since a bound was last stored. -/
def late (n : Nat) (events : List (Event κ α)) : List (Return κ α) :=
  (sinceStore events).filterMap (Event.late? n)

theorem mem_late_iff {n : Nat} {r : Return κ α} :
    r ∈ late n events ↔ .giveBack r true ∈ sinceStore events ∧ n < r.bound := by
  rw [late, List.mem_filterMap]
  constructor
  · rintro ⟨e, he, hlate⟩
    obtain ⟨rfl, hlt⟩ := Event.mem_late?_iff.mp hlate
    exact ⟨he, hlt⟩
  · rintro ⟨he, hlt⟩
    exact ⟨_, he, Event.mem_late?_iff.mpr ⟨rfl, hlt⟩⟩

theorem untilStore_concat {e : Event κ α} (he : e.isStore = false) (events : List (Event κ α)) :
    untilStore (events ++ [e]) = untilStore events :=
  List.rdropWhile_concat_pos _ _ _ (by rw [he]; rfl)

theorem untilStore_concat_store (n : Nat) (events : List (Event κ α)) :
    untilStore (events ++ [.store n]) = events ++ [.store n] :=
  List.rdropWhile_concat_neg _ _ _ (by simp [Event.isStore])

theorem late_concat {e : Event κ α} (he : e.isStore = false) (n : Nat)
    (events : List (Event κ α)) :
    late n (events ++ [e]) = late n events ++ (e.late? n).toList := by
  have hsince : sinceStore (events ++ [e]) = sinceStore events ++ [e] :=
    List.rtakeWhile_concat_pos _ _ _ (by rw [he]; rfl)
  rw [late, hsince, List.filterMap_append]
  rcases hlate : e.late? n with _ | r
  · rw [List.filterMap_cons_none hlate]
    rfl
  · rw [List.filterMap_cons_some hlate]
    rfl

theorem late_concat_store (m n : Nat) (events : List (Event κ α)) :
    late m (events ++ [.store n]) = [] := by
  rw [late, sinceStore, List.rtakeWhile_concat_neg _ _ _ (by simp [Event.isStore])]
  rfl

/-- A pool holds no more than its bound, `extra` aside, and no more than the bound of one of them. -/
structure ExceedsBy (p : Pool α) (extra : List (Return κ α)) : Prop where
  length_le : p.idle.length ≤ p.maxIdle + extra.length
  exists_bound : p.maxIdle < p.idle.length → ∃ r ∈ extra, p.idle.length ≤ r.bound

theorem ExceedsBy.of_le {p : Pool α} (h : p.idle.length ≤ p.maxIdle) (extra : List (Return κ α)) :
    ExceedsBy p extra :=
  ⟨Nat.le_add_right_of_le h, fun hlt => absurd h (Nat.not_le.mpr hlt)⟩

theorem ExceedsBy.mono {p p' : Pool α} {extra : List (Return κ α)} (h : ExceedsBy p extra)
    (hbound : p'.maxIdle = p.maxIdle) (hidle : p'.idle.length ≤ p.idle.length) :
    ExceedsBy p' extra := by
  refine ⟨hbound ▸ hidle.trans h.length_le, fun hlt => ?_⟩
  obtain ⟨r, hr, hle⟩ := h.exists_bound (hbound ▸ hlt.trans_le hidle)
  exact ⟨r, hr, hidle.trans hle⟩

theorem ExceedsBy.append {p : Pool α} {extra : List (Return κ α)} (h : ExceedsBy p extra)
    (more : List (Return κ α)) : ExceedsBy p (extra ++ more) := by
  refine ⟨?_, fun hlt => ?_⟩
  · rw [List.length_append]
    exact h.length_le.trans (by omega)
  · obtain ⟨r, hr, hle⟩ := h.exists_bound hlt
    exact ⟨r, List.mem_append_left _ hr, hle⟩

/-- What is kept counts as extra if its bound is above the one in force. -/
theorem ExceedsBy.giveBack {p p' : Pool α} {extra : List (Return κ α)} (h : ExceedsBy p extra)
    {r : Return κ α} {kept : Bool} (hkeep : p.keepWithin r.bound r.item = (kept, p')) :
    ExceedsBy p' (extra ++ ((Event.giveBack r kept).late? p.maxIdle).toList) := by
  rcases keepWithin_cases hkeep with ⟨hroom, rfl, rfl⟩ | ⟨-, rfl, rfl⟩
  · by_cases hlate : p.maxIdle < r.bound
    · rw [Event.late?, if_pos hlate]
      refine ⟨?_, fun _ => ⟨r, by simp, hroom⟩⟩
      rw [List.length_append, ← Nat.add_assoc]
      exact Nat.succ_le_succ h.length_le
    · have hbound : p.idle.length + 1 ≤ p.maxIdle := hroom.trans_le (Nat.le_of_not_lt hlate)
      exact ExceedsBy.of_le (p := { p with idle := r.item :: p.idle }) hbound _
  · simpa [Event.late?] using h

/-! ## Runs -/

/-- How the idle instances stand to the bound after `events`, and when the bounds of those that come
back were read. -/
structure IsAccounted (events : List (Event κ α)) (s : Busy σ κ α) : Prop where
  enforced : s.shared.pool.maxIdle ∈ s.changing ∨
    ExceedsBy s.shared.pool (late s.shared.pool.maxIdle events)
  read_mem : ∀ r ∈ s.returning, .read r ∈ events
  read_early : ∀ r ∈ s.returning, r.bound = s.shared.pool.maxIdle ∨ .read r ∈ untilStore events
  late_early : ∀ r ∈ late s.shared.pool.maxIdle events, .read r ∈ untilStore events

theorem whole_idle {t t' : Shared σ κ α} {e : Pool.Event κ α}
    (h : Shared.Step make reset ident t e t') (hwhole : IsWhole e) :
    t'.pool.maxIdle = t.pool.maxIdle ∧ t'.pool.idle.length ≤ t.pool.idle.length := by
  cases h with
  | obtain caller held h =>
    rcases obtain?_cases h with ⟨a, rest, hidle, -, rfl, -⟩ | ⟨-, -, rfl⟩
    · exact ⟨rfl, hidle ▸ Nat.le_succ _⟩
    · exact ⟨rfl, le_rfl⟩
  | create => exact ⟨rfl, le_rfl⟩
  | work => exact ⟨rfl, le_rfl⟩
  | free => exact hwhole.elim
  | setMaxIdle => exact hwhole.elim
  | clear => exact ⟨rfl, Nat.zero_le _⟩

/-- Between two stores the books are kept by adding what is late. -/
theorem IsAccounted.concat (h : IsAccounted events s) {e : Event κ α} (he : e.isStore = false)
    (hbound : s'.shared.pool.maxIdle = s.shared.pool.maxIdle)
    (henforced : s'.shared.pool.maxIdle ∈ s'.changing ∨ ExceedsBy s'.shared.pool
      (late s.shared.pool.maxIdle events ++ (e.late? s.shared.pool.maxIdle).toList))
    (hreturning : ∀ r ∈ s'.returning,
      r ∈ s.returning ∨ e = .read r ∧ r.bound = s.shared.pool.maxIdle)
    (hlate : ∀ r ∈ e.late? s.shared.pool.maxIdle, r ∈ s.returning) :
    IsAccounted (events ++ [e]) s' := by
  constructor
  · rw [hbound] at henforced ⊢
    rw [late_concat he]
    exact henforced
  · intro r hr
    rcases hreturning r hr with hold | ⟨rfl, -⟩
    · exact List.mem_append_left _ (h.read_mem r hold)
    · exact List.mem_append_right _ (List.mem_singleton_self _)
  · intro r hr
    rw [hbound, untilStore_concat he]
    exact (hreturning r hr).elim (h.read_early r) fun hnew => .inl hnew.2
  · intro r hr
    rw [hbound, late_concat he, List.mem_append, Option.mem_toList] at hr
    rw [untilStore_concat he]
    rcases hr with hold | hnew
    · exact h.late_early r hold
    · -- Its bound is not the one in force, and so it was read before that one was stored.
      exact (h.read_early r (hlate r hnew)).resolve_left (Event.mem_late?_iff.mp hnew).2.ne'

theorem IsAccounted.step (h : IsAccounted events s) {e : Event κ α}
    (hstep : Step make reset ident s e s') : IsAccounted (events ++ [e]) s' := by
  cases hstep with
  | @whole t t' e returning changing hcall hwhole =>
    obtain ⟨hbound, hidle⟩ := whole_idle hcall hwhole
    refine h.concat rfl hbound ?_ (fun r hr => .inl hr) (by simp [Event.late?])
    rcases h.enforced with hpending | hexceeds
    · exact .inl (hbound ▸ hpending)
    · exact .inr ((hexceeds.mono hbound hidle).append _)
  | read caller a p m before after returning changing =>
    refine h.concat rfl rfl ?_ ?_ (by simp [Event.late?])
    · exact h.enforced.imp_right fun hexceeds => hexceeds.append _
    · intro r hr
      exact (List.mem_cons.mp hr).symm.imp_right fun heq => ⟨congrArg _ heq.symm, by rw [heq]⟩
  | @giveBack p p' kept r m held before after changing hkeep =>
    have hbound : p'.maxIdle = p.maxIdle := by
      rcases keepWithin_cases hkeep with ⟨-, -, rfl⟩ | ⟨-, -, rfl⟩ <;> rfl
    refine h.concat rfl hbound ?_ ?_ ?_
    · rw [hbound]
      exact h.enforced.imp_right fun hexceeds => hexceeds.giveBack hkeep
    · exact fun r' hr' => .inl ((List.sublist_cons_self r after).append_left before |>.subset hr')
    · intro r' hr'
      cases (Event.mem_late?_iff.mp hr').1
      exact List.mem_append_right _ List.mem_cons_self
  | store n p m held returning changing =>
    refine ⟨.inl List.mem_cons_self, ?_, ?_, ?_⟩
    · exact fun r hr => List.mem_append_left _ (h.read_mem r hr)
    · intro r hr
      rw [untilStore_concat_store]
      exact .inr (List.mem_append_left _ (h.read_mem r hr))
    · rw [late_concat_store]
      exact List.forall_mem_nil _
  | truncate n p m held returning before after =>
    refine h.concat rfl rfl ?_ (fun r hr => .inl hr) (by simp [Event.late?])
    rcases h.enforced with hpending | hexceeds
    · rcases List.mem_append.mp hpending with hbefore | hafter
      · exact .inl (List.mem_append_left _ hbefore)
      · rcases List.mem_cons.mp hafter with hn | hafter
        · exact .inr (.of_le ((length_truncate_le n p).trans_eq hn.symm) _)
        · exact .inl (List.mem_append_right _ hafter)
    · have hless : ExceedsBy (p.truncate n) (late p.maxIdle events) :=
        ExceedsBy.mono (p := p) hexceeds rfl (List.drop_sublist _ _).length_le
      exact .inr (hless.append _)

variable {maxIdle : Nat} {start : σ}

theorem IsAccounted.initial (maxIdle : Nat) (start : σ) :
    IsAccounted [] (initial maxIdle start : Busy σ κ α) := by
  refine ⟨.inr (.of_le (Nat.zero_le _) _), ?_, ?_, ?_⟩ <;> exact List.forall_mem_nil _

theorem Run.isAccounted (hrun : Run make reset ident (initial maxIdle start) events s) :
    IsAccounted events s := by
  induction hrun with
  | nil => exact .initial maxIdle start
  | snoc _ hstep ih => exact ih.step hstep

/-! ## When all calls have returned -/

/-- How far the bound holds after `events`. -/
structure Settles (make : Factory σ α) (reset : α → α) (ident : α → ι)
    (events : List (Event κ α)) (s : Busy σ κ α) : Prop where
  exceedsBy : ExceedsBy s.shared.pool (late s.shared.pool.maxIdle events)
  /-- What is late was on its way when the bound in force was stored. -/
  late_cases : ∀ r ∈ late s.shared.pool.maxIdle events,
    .read r ∈ untilStore events ∧ .giveBack r true ∈ sinceStore events ∧
      s.shared.pool.maxIdle < r.bound
  length_le : (∀ r, .read r ∈ untilStore events → .giveBack r true ∈ sinceStore events →
    r.bound ≤ s.shared.pool.maxIdle) → s.shared.pool.idle.length ≤ s.shared.pool.maxIdle
  /-- The next change of the bound drops what is too much. -/
  restored : ∀ n, ∃ s', Run make reset ident s [.store n, .truncate n] s' ∧ s'.IsQuiet ∧
    s'.shared.pool.maxIdle = n ∧ s'.shared.pool.idle.length ≤ n

theorem IsAccounted.late_cases (h : IsAccounted events s) :
    ∀ r ∈ late s.shared.pool.maxIdle events, .read r ∈ untilStore events ∧
      .giveBack r true ∈ sinceStore events ∧ s.shared.pool.maxIdle < r.bound :=
  fun r hr => ⟨h.late_early r hr, mem_late_iff.mp hr⟩

theorem exists_run_setMaxIdle (hquiet : s.IsQuiet) (n : Nat) :
    ∃ s', Run make reset ident s [.store n, .truncate n] s' ∧ s'.IsQuiet ∧
      s'.shared.pool.maxIdle = n ∧ s'.shared.pool.idle.length ≤ n := by
  obtain ⟨⟨p, m, held⟩, returning, changing⟩ := s
  refine ⟨_, run_setMaxIdle n p m held returning changing, hquiet, rfl, ?_⟩
  exact length_truncate_le n { p with maxIdle := n }

/-- However the steps of calls interleave, when all have returned the bound is exceeded by no more
than what came back late. -/
theorem settles_of_run (hrun : Run make reset ident (initial maxIdle start) events s)
    (hquiet : s.IsQuiet) : Settles make reset ident events s := by
  have haccounted := hrun.isAccounted
  have hexceeds := haccounted.enforced.resolve_left (hquiet.2 ▸ List.not_mem_nil)
  constructor
  · exact hexceeds
  · exact haccounted.late_cases
  · intro hearly
    by_contra hlength
    obtain ⟨r, hr, -⟩ := hexceeds.exists_bound (Nat.lt_of_not_le hlength)
    obtain ⟨hread, hkept, hlt⟩ := haccounted.late_cases r hr
    exact absurd (hearly r hread hkept) (Nat.not_le.mpr hlt)
  · exact exists_run_setMaxIdle hquiet

/-- The two steps of each call, for instances of a type whose handlers do nothing. -/
abbrev BlankRun : Busy Constructions String (Instance Unit) → List (Event String (Instance Unit)) →
    Busy Constructions String (Instance Unit) → Prop :=
  Run (HandlerType.notFound ()).create (Instance.reset (HandlerType.notFound ()).behaviour)
    Instance.id

abbrev blankReturn (caller : String) (id bound : Nat) : Return String (Instance Unit) :=
  ⟨caller, Shared.blank id, bound⟩

/-- Two instances are on their way back while the bound goes from two to one, and both are kept.
The next change of the bound drops one. -/
theorem settles_of_run_bothLate :
    ∃ s s', BlankRun (initial 2 {}) [.whole (.obtain "left" (.ok (Shared.blank 1))),
        .whole (.create "right" (.ok (Shared.blank 2))), .read (blankReturn "left" 1 2),
        .read (blankReturn "right" 2 2), .store 1, .truncate 1,
        .giveBack (blankReturn "left" 1 2) true, .giveBack (blankReturn "right" 2 2) true] s ∧
      s.IsQuiet ∧ s.shared.pool.maxIdle = 1 ∧ s.shared.pool.idle.length = 2 ∧
      BlankRun s [.store 1, .truncate 1] s' ∧ s'.shared.pool.idle.length ≤ 1 := by
  have hobtain : BlankRun (initial 2 {}) [.whole (.obtain "left" (.ok (Shared.blank 1)))]
      ⟨⟨.empty 2, ⟨1, 1⟩, [("left", Shared.blank 1)]⟩, [], []⟩ :=
    .snoc .nil (.whole [] [] (.obtain "left" [] rfl) trivial)
  have hcreate := hobtain.snoc (.whole [] [] (.create "right" _ _ rfl) trivial)
  have hleft := hcreate.snoc (.read "left" (Shared.blank 1) _ _ [("right", Shared.blank 2)] [] [] [])
  have hright := hleft.snoc (.read "right" (Shared.blank 2) _ _ [] [] _ [])
  have hstore := hright.snoc (.store 1 _ _ _ _ [])
  have htruncate := hstore.snoc (.truncate 1 _ _ _ _ [] [])
  have hkeepLeft := htruncate.snoc
    (.giveBack (blankReturn "left" 1 2) _ _ [blankReturn "right" 2 2] [] [] rfl)
  have hrun := hkeepLeft.snoc (.giveBack (blankReturn "right" 2 2) _ _ [] [] [] rfl)
  obtain ⟨s', hlater, -, -, hlength⟩ := (settles_of_run hrun ⟨rfl, rfl⟩).restored 1
  exact ⟨_, s', hrun, ⟨rfl, rfl⟩, rfl, rfl, hlater, hlength⟩

/-- An instance is on its way back while the bound goes from one to zero, and is kept. -/
theorem exceeds_late :
    ∃ s, BlankRun (initial 1 {}) [.whole (.obtain "left" (.ok (Shared.blank 1))),
        .read (blankReturn "left" 1 1), .store 0, .truncate 0,
        .giveBack (blankReturn "left" 1 1) true] s ∧
      s.IsQuiet ∧ s.shared.pool.maxIdle < s.shared.pool.idle.length := by
  have hobtain : BlankRun (initial 1 {}) [.whole (.obtain "left" (.ok (Shared.blank 1)))]
      ⟨⟨.empty 1, ⟨1, 1⟩, [("left", Shared.blank 1)]⟩, [], []⟩ :=
    .snoc .nil (.whole [] [] (.obtain "left" [] rfl) trivial)
  have hread := hobtain.snoc (.read "left" (Shared.blank 1) _ _ [] [] [] [])
  have hstore := hread.snoc (.store 0 _ _ _ _ [])
  have htruncate := hstore.snoc (.truncate 0 _ _ _ _ [] [])
  have hkeep := htruncate.snoc (.giveBack (blankReturn "left" 1 1) _ _ [] [] [] rfl)
  exact ⟨_, hkeep, ⟨rfl, rfl⟩, Nat.one_pos⟩

end Busy
end SealedHttp.Pool
