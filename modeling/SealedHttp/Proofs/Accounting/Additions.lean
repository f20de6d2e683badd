import Mathlib.Algebra.Ring.Nat
import Mathlib.Data.List.Nodup
import SealedHttp.Accounting.Counters
import SealedHttp.Proofs.Traces

/-!
# Additions side by side

An addition looks its counter up and, if there is none, makes one in a second step. Others may come
between the two, and may have made the counter by then. Whatever the order, no addition is lost, and
each is answered with the sum of what was added up to it.
-/

namespace SealedHttp.Counters

variable {κ : Type}

/-! ## Calls -/

structure Call (κ : Type) where
  key : κ
  delta : UInt64

/-- A call that took effect, and what it returns. -/
structure Answer (κ : Type) extends Call κ where
  value : UInt64

/-- A call is made, looks its counter up, and inserts it if the lookup failed. -/
inductive Event (κ : Type) where
  | begin (call : Call κ)
  | bump (answer : Answer κ)
  | miss (call : Call κ)
  | insert (answer : Answer κ)

namespace Event

def begun? : Event κ → Option (Call κ)
  | begin call => some call
  | _ => none

def answer? : Event κ → Option (Answer κ)
  | bump answer => some answer
  | insert answer => some answer
  | _ => none

end Event

/-- The calls that were made. -/
def begun (events : List (Event κ)) : List (Call κ) := events.filterMap Event.begun?

/-- The calls that took effect, in this order. -/
def answers (events : List (Event κ)) : List (Answer κ) := events.filterMap Event.answer?

theorem filterMap_concat {α β : Type} (f : α → Option β) (as : List α) (a : α) :
    (as ++ [a]).filterMap f = as.filterMap f ++ (f a).toList := by
  rw [List.filterMap_append, List.filterMap_cons, List.filterMap_nil]
  cases f a <;> rfl

theorem begun_concat (events : List (Event κ)) (e : Event κ) :
    begun (events ++ [e]) = begun events ++ e.begun?.toList := filterMap_concat _ _ _

theorem answers_concat (events : List (Event κ)) (e : Event κ) :
    answers (events ++ [e]) = answers events ++ e.answer?.toList := filterMap_concat _ _ _

/-! ## What an addition does -/

variable [DecidableEq κ] {c c' : Counters κ} {key : κ} {delta value : UInt64}

def keys (c : Counters κ) : List κ := c.entries.map Prod.fst

theorem find?_eq_none_iff {k : κ} : c.find? k = none ↔ k ∉ c.keys := by
  simp only [find?, List.lookup_eq_none_iff, keys, List.mem_map, not_exists, not_and, bne_iff_ne,
    ne_comm, ne_eq]

theorem find?_eq_some_iff_mem (hnodup : c.keys.Nodup) {k : κ} {n : UInt64} :
    c.find? k = some n ↔ (k, n) ∈ c.entries := by
  rw [find?, List.lookup_eq_some_iff]
  constructor
  · rintro ⟨before, after, hentries, -⟩
    exact hentries ▸ List.mem_append_right _ List.mem_cons_self
  · intro hmem
    obtain ⟨before, after, hentries⟩ := List.append_of_mem hmem
    refine ⟨before, after, hentries, fun p hp => ?_⟩
    rw [keys, hentries, List.map_append, List.map_cons, List.nodup_middle, List.nodup_cons,
      List.mem_append, not_or] at hnodup
    exact bne_iff_ne.mpr fun hk => hnodup.1.1 (List.mem_map.mpr ⟨p, hp, hk.symm⟩)

theorem mem_keys_of_find? {k : κ} {n : UInt64} (h : c.find? k = some n) : k ∈ c.keys := by
  by_contra habsent
  exact absurd (h.symm.trans (find?_eq_none_iff.mpr habsent)) nofun

theorem mem_snapshot_iff (hnodup : c.keys.Nodup) {k : κ} {n : UInt64} :
    (k, n) ∈ c.snapshot ↔ k ∈ c.keys ∧ n = c.get k := by
  rw [snapshot, ← find?_eq_some_iff_mem hnodup, get]
  rcases hfind : c.find? k with _ | m
  · exact ⟨nofun, fun h => absurd h.1 (find?_eq_none_iff.mp hfind)⟩
  · rw [Option.some_inj, Option.getD_some, eq_comm]
    exact (and_iff_right (mem_keys_of_find? hfind)).symm

theorem keys_raise (key : κ) (delta : UInt64) (c : Counters κ) :
    (c.raise key delta).keys = c.keys := by
  rw [keys, raise, List.map_map, keys]
  refine List.map_congr_left fun p _ => ?_
  dsimp only [Function.comp]
  split <;> rfl

theorem find?_raise (key : κ) (delta : UInt64) (c : Counters κ) (k : κ) :
    (c.raise key delta).find? k =
      (c.find? k).map fun n => if k = key then n + delta else n := by
  obtain ⟨entries⟩ := c
  simp only [find?, raise]
  induction entries with
  | nil => rfl
  | cons p rest ih =>
    obtain ⟨k', n⟩ := p
    have hhead : (if k' = key then (k', n + delta) else (k', n)) =
        (k', if k' = key then n + delta else n) := by split <;> rfl
    rw [List.map_cons, hhead, List.lookup_cons, List.lookup_cons]
    by_cases hk : k = k'
    · simp only [hk, beq_self_eq_true, Option.map_some]
    · simpa only [beq_false_of_ne hk] using ih

/-- The counter of `key` grows by `delta`, and is made if there was none. The answer is what it has
come to. -/
structure Adds (key : κ) (delta : UInt64) (c : Counters κ) (value : UInt64) (c' : Counters κ) :
    Prop where
  value_eq : value = c.get key + delta
  get_eq : ∀ k, c'.get k = if k = key then c.get key + delta else c.get k
  keys_eq : c'.keys = if key ∈ c.keys then c.keys else c.keys ++ [key]

theorem Adds.mem_keys_iff (h : Adds key delta c value c') {k : κ} :
    k ∈ c'.keys ↔ k ∈ c.keys ∨ key = k := by
  rw [h.keys_eq]
  split
  · next hpresent => exact ⟨.inl, fun hk => hk.elim id fun heq => heq ▸ hpresent⟩
  · rw [List.mem_append, List.mem_singleton, eq_comm]

theorem Adds.nodup_keys (h : Adds key delta c value c') (hnodup : c.keys.Nodup) :
    c'.keys.Nodup := by
  rw [h.keys_eq]
  split
  · exact hnodup
  · next habsent =>
    exact (List.perm_append_singleton _ _).nodup_iff.mpr (List.nodup_cons.mpr ⟨habsent, hnodup⟩)

theorem adds_of_bump? (h : c.bump? key delta = some (value, c')) : Adds key delta c value c' := by
  rw [bump?, Option.map_eq_some_iff] at h
  obtain ⟨n, hfind, heq⟩ := h
  cases heq
  have hget : c.get key = n := by rw [get, hfind, Option.getD_some]
  refine ⟨by rw [hget], fun k => ?_, ?_⟩
  · rw [get, find?_raise, hget]
    split
    · next hk => rw [hk, hfind, Option.map_some, Option.getD_some]
    · rw [Option.map_id', get]
  · rw [keys_raise, if_pos (mem_keys_of_find? hfind)]

theorem adds_insertOrBump (key : κ) (delta : UInt64) (c : Counters κ) :
    Adds key delta c (c.insertOrBump key delta).1 (c.insertOrBump key delta).2 := by
  rw [insertOrBump]
  split
  · next r hbump => exact adds_of_bump? hbump
  · next hbump =>
    have hfind : c.find? key = none := Option.map_eq_none_iff.mp hbump
    have hget : c.get key = 0 := by rw [get, hfind, Option.getD_none]
    refine ⟨by rw [hget, UInt64.zero_add], fun k => ?_, ?_⟩
    · rw [hget, UInt64.zero_add, get, find?, List.lookup_append, ← find?]
      split
      · next hk => rw [hk, hfind, Option.none_or, List.lookup_cons_self, Option.getD_some]
      · next hk =>
        rw [List.lookup_cons, beq_false_of_ne hk, List.lookup_nil, Option.or_none, get]
    · rw [if_neg (find?_eq_none_iff.mp hfind), keys, List.map_append]
      rfl

theorem adds_add (key : κ) (delta : UInt64) (c : Counters κ) :
    Adds key delta c (c.add key delta).1 (c.add key delta).2 := by
  rw [add]
  split
  · next r hbump => exact adds_of_bump? hbump
  · exact adds_insertOrBump key delta c

/-- Either half of an addition that finishes it does all of it. -/
theorem add_of_bump? {r : UInt64 × Counters κ} (h : c.bump? key delta = some r) :
    c.add key delta = r := by
  rw [add, h]

theorem add_eq_insertOrBump (key : κ) (delta : UInt64) (c : Counters κ) :
    c.add key delta = c.insertOrBump key delta := by
  rw [add]
  split
  · next r hbump => rw [insertOrBump, hbump]
  · rfl

/-! ## Steps -/

/-- Counters, and the calls that are on their way: those that are to look their counter up, and
those that did not find it. -/
structure Shared (κ : Type) where
  counters : Counters κ := {}
  asking : List (Call κ) := []
  inserting : List (Call κ) := []

namespace Shared

variable {s s' : Shared κ} {events : List (Event κ)}

/-- The calls on their way. -/
def flying (s : Shared κ) : List (Call κ) := s.asking ++ s.inserting

inductive Step : Shared κ → Event κ → Shared κ → Prop
  | begin (call : Call κ) (c : Counters κ) (asking inserting : List (Call κ)) :
      Step ⟨c, asking, inserting⟩ (.begin call) ⟨c, call :: asking, inserting⟩
  | bump {call : Call κ} {value : UInt64} {c c' : Counters κ} (before after : List (Call κ))
      (inserting : List (Call κ)) (h : c.bump? call.key call.delta = some (value, c')) :
      Step ⟨c, before ++ call :: after, inserting⟩ (.bump ⟨call, value⟩)
        ⟨c', before ++ after, inserting⟩
  | miss {call : Call κ} {c : Counters κ} (before after inserting : List (Call κ))
      (h : c.bump? call.key call.delta = none) :
      Step ⟨c, before ++ call :: after, inserting⟩ (.miss call)
        ⟨c, before ++ after, call :: inserting⟩
  | insert {call : Call κ} {value : UInt64} {c c' : Counters κ}
      (asking before after : List (Call κ)) (h : c.insertOrBump call.key call.delta = (value, c')) :
      Step ⟨c, asking, before ++ call :: after⟩ (.insert ⟨call, value⟩)
        ⟨c', asking, before ++ after⟩

abbrev Run (s : Shared κ) (events : List (Event κ)) (s' : Shared κ) : Prop :=
  Trace Step s events s'

/-- An addition that no other comes between. -/
theorem exists_run_add (s : Shared κ) (call : Call κ) :
    ∃ events, Run s events { s with counters := (s.counters.add call.key call.delta).2 } ∧
      answers events = [⟨call, (s.counters.add call.key call.delta).1⟩] := by
  have hbegin : Run s [.begin call] { s with asking := call :: s.asking } :=
    Trace.nil.snoc (.begin call _ _ _)
  rw [add]
  split
  · next r hbump => exact ⟨_, hbegin.snoc (.bump [] s.asking s.inserting hbump), rfl⟩
  · next hbump =>
    have hmiss := hbegin.snoc (.miss [] s.asking s.inserting hbump)
    exact ⟨_, hmiss.snoc (.insert s.asking [] s.inserting rfl), rfl⟩

/-- A step takes effect as an addition, or leaves the counters alone. -/
theorem Step.counters_cases {e : Event κ} (h : Step s e s') :
    (∃ a, e.answer? = some a ∧ s.counters.add a.key a.delta = (a.value, s'.counters)) ∨
      (e.answer? = none ∧ s'.counters = s.counters) := by
  cases h with
  | begin call => exact .inr ⟨rfl, rfl⟩
  | bump before after inserting h => exact .inl ⟨_, rfl, add_of_bump? h⟩
  | miss => exact .inr ⟨rfl, rfl⟩
  | insert asking before after h => exact .inl ⟨_, rfl, (add_eq_insertOrBump _ _ _).trans h⟩

/-- A call that was made or was on its way has its answer now or is on its way. -/
theorem Step.flying_perm {e : Event κ} (h : Step s e s') :
    (e.begun?.toList ++ s.flying).Perm (e.answer?.toList.map Answer.toCall ++ s'.flying) := by
  cases h with
  | begin call => exact .refl _
  | bump before after inserting h => exact List.perm_middle.append_right inserting
  | miss before after inserting h =>
    exact (List.perm_middle.append_right inserting).trans List.perm_middle.symm
  | insert asking before after h =>
    exact (List.perm_middle.append_left asking).trans List.perm_middle

/-! ## What counters have come to -/

/-- What calls add to a counter, in this order. -/
def deltas (key : κ) (calls : List (Call κ)) : List Nat :=
  (calls.filter (·.key = key)).map (·.delta.toNat)

def total (key : κ) (calls : List (Call κ)) : Nat := (deltas key calls).sum

/-- What the calls on a counter return. -/
def values (key : κ) (answers : List (Answer κ)) : List Nat :=
  (answers.filter (·.key = key)).map (·.value.toNat)

/-- What is reached from `n` by each of the additions. -/
def runningSums (n : Nat) : List Nat → List Nat
  | [] => []
  | d :: ds => (n + d) :: runningSums (n + d) ds

theorem runningSums_concat (n : Nat) (ds : List Nat) (d : Nat) :
    runningSums n (ds ++ [d]) = runningSums n ds ++ [n + ds.sum + d] := by
  induction ds generalizing n with
  | nil => rfl
  | cons d' ds ih =>
    rw [List.cons_append, runningSums, ih, runningSums, List.cons_append, List.sum_cons,
      Nat.add_assoc n]

theorem le_of_mem_runningSums {n m : Nat} {ds : List Nat} (h : m ∈ runningSums n ds) :
    m ≤ n + ds.sum := by
  induction ds generalizing n with
  | nil => exact absurd h List.not_mem_nil
  | cons d ds ih =>
    rw [List.sum_cons, ← Nat.add_assoc]
    rcases List.mem_cons.mp h with rfl | h
    · exact Nat.le_add_right _ _
    · exact ih h

theorem map_filter_concat {β : Type} (p : β → Prop) [DecidablePred p] (f : β → Nat) (bs : List β)
    (b : β) : ((bs ++ [b]).filter (p ·)).map f =
      if p b then (bs.filter (p ·)).map f ++ [f b] else (bs.filter (p ·)).map f := by
  rw [List.filter_append, List.map_append]
  split
  · next hb => simp [hb]
  · next hb => simp [hb]

theorem deltas_concat (k : κ) (calls : List (Call κ)) (call : Call κ) :
    deltas k (calls ++ [call]) =
      if call.key = k then deltas k calls ++ [call.delta.toNat] else deltas k calls :=
  map_filter_concat (fun call : Call κ => call.key = k) (·.delta.toNat) calls call

theorem values_concat (k : κ) (answers : List (Answer κ)) (a : Answer κ) :
    values k (answers ++ [a]) =
      if a.key = k then values k answers ++ [a.value.toNat] else values k answers :=
  map_filter_concat (fun a : Answer κ => a.key = k) (·.value.toNat) answers a

theorem total_concat (k : κ) (calls : List (Call κ)) (call : Call κ) :
    total k (calls ++ [call]) =
      if call.key = k then total k calls + call.delta.toNat else total k calls := by
  rw [total, deltas_concat]
  split
  · rw [List.sum_append, List.sum_singleton, total]
  · rfl

/-- The counters as they are after these answers, if counters are taken modulo their size. -/
structure IsSettled (answers : List (Answer κ)) (c : Counters κ) : Prop where
  keys_nodup : c.keys.Nodup
  mem_keys_iff : ∀ k, k ∈ c.keys ↔ ∃ a ∈ answers, a.key = k
  get_eq : ∀ k, (c.get k).toNat = total k (answers.map Answer.toCall) % 2 ^ 64
  values_eq : ∀ k, values k answers =
    (runningSums 0 (deltas k (answers.map Answer.toCall))).map (· % 2 ^ 64)

theorem isSettled_empty : IsSettled [] (empty : Counters κ) where
  keys_nodup := List.nodup_nil
  mem_keys_iff := by simp [keys, empty]
  get_eq _ := rfl
  values_eq _ := rfl

theorem IsSettled.adds {answers : List (Answer κ)} (h : IsSettled answers c) {a : Answer κ}
    (hadds : Adds a.key a.delta c a.value c') : IsSettled (answers ++ [a]) c' := by
  have hcount : (c.get a.key + a.delta).toNat =
      (total a.key (answers.map Answer.toCall) + a.delta.toNat) % 2 ^ 64 := by
    rw [UInt64.toNat_add, h.get_eq, Nat.mod_add_mod]
  constructor
  · exact hadds.nodup_keys h.keys_nodup
  · intro k
    simp only [hadds.mem_keys_iff, h.mem_keys_iff, List.mem_append, List.mem_singleton,
      or_and_right, exists_or, exists_eq_left]
  · intro k
    rw [hadds.get_eq, List.map_append, List.map_singleton, total_concat]
    by_cases hk : k = a.key
    · rw [if_pos hk, if_pos hk.symm, hcount, hk]
    · rw [if_neg hk, if_neg (Ne.symm hk), h.get_eq]
  · intro k
    rw [List.map_append, List.map_singleton, values_concat, deltas_concat]
    split
    · next hk =>
      rw [runningSums_concat, List.map_append, ← h.values_eq, hadds.value_eq, hcount, hk,
        Nat.zero_add]
      rfl
    · exact h.values_eq k

/-! ## Runs -/

def initial : Shared κ := {}

theorem Run.begun_perm (hrun : Run initial events s) :
    (begun events).Perm ((answers events).map Answer.toCall ++ s.flying) := by
  induction hrun with
  | nil => exact .nil
  | @snoc events s s' e _ hstep ih =>
    rw [begun_concat, answers_concat, List.map_append]
    calc (begun events ++ e.begun?.toList).Perm _ := ih.append_right _
      _ = (answers events).map Answer.toCall ++ (s.flying ++ e.begun?.toList) :=
          List.append_assoc _ _ _
      List.Perm _ ((answers events).map Answer.toCall ++ (e.begun?.toList ++ s.flying)) :=
          List.perm_append_comm.append_left _
      List.Perm _ _ := hstep.flying_perm.append_left _
      _ = _ := (List.append_assoc _ _ _).symm

theorem Run.isSettled (hrun : Run initial events s) : IsSettled (answers events) s.counters := by
  induction hrun with
  | nil => exact isSettled_empty
  | @snoc events s s' e _ hstep ih =>
    rw [answers_concat]
    rcases hstep.counters_cases with ⟨a, ha, hadd⟩ | ⟨hnone, hsame⟩
    · have hadds := adds_add a.key a.delta s.counters
      rw [hadd] at hadds
      rw [ha]
      exact ih.adds hadds
    · rw [hnone, Option.toList_none, List.append_nil, hsame]
      exact ih

/-! ## What callers can rely on -/

theorem total_append (k : κ) (calls calls' : List (Call κ)) :
    total k (calls ++ calls') = total k calls + total k calls' := by
  simp only [total, deltas, List.filter_append, List.map_append, List.sum_append]

theorem total_perm {calls calls' : List (Call κ)} (h : calls.Perm calls') (k : κ) :
    total k calls = total k calls' := ((h.filter _).map _).sum_nat

/-- Nothing that was added is lost. The counters are read when no call is on its way. -/
structure IsExact (events : List (Event κ)) (s : Shared κ) : Prop where
  begun_perm : (begun events).Perm ((answers events).map Answer.toCall ++ s.flying)
  values_eq : ∀ k, values k (answers events) =
    runningSums 0 (deltas k ((answers events).map Answer.toCall))
  get_eq : s.flying = [] → ∀ k, (s.counters.get k).toNat = total k (begun events)
  keys_nodup : (s.counters.snapshot.map Prod.fst).Nodup
  mem_snapshot_iff : s.flying = [] → ∀ k n, (k, n) ∈ s.counters.snapshot ↔
    (∃ call ∈ begun events, call.key = k) ∧ n = s.counters.get k

/-- Counters that do not overflow are exact. -/
theorem Run.isExact (hrun : Run initial events s)
    (htotal : ∀ k, total k (begun events) < 2 ^ 64) : IsExact events s := by
  obtain ⟨hnodup, hmem, hget, hvalues⟩ := hrun.isSettled
  have hperm := hrun.begun_perm
  have hle (k : κ) : total k ((answers events).map Answer.toCall) ≤ total k (begun events) := by
    rw [total_perm hperm, total_append]
    exact Nat.le_add_right _ _
  have hquiet (hflying : s.flying = []) :
      (begun events).Perm ((answers events).map Answer.toCall) := by
    rw [hflying, List.append_nil] at hperm
    exact hperm
  refine ⟨hperm, ?_, ?_, hnodup, ?_⟩
  · intro k
    have hsmall : ∀ m ∈ runningSums 0 (deltas k ((answers events).map Answer.toCall)),
        m % 2 ^ 64 = m := by
      intro m hm
      refine Nat.mod_eq_of_lt (Nat.lt_of_le_of_lt (le_of_mem_runningSums hm) ?_)
      rw [Nat.zero_add]
      exact Nat.lt_of_le_of_lt (hle k) (htotal k)
    rw [hvalues, List.map_congr_left hsmall, List.map_id']
  · intro hflying k
    rw [hget, total_perm (hquiet hflying), Nat.mod_eq_of_lt]
    exact Nat.lt_of_le_of_lt (hle k) (htotal k)
  · intro hflying k n
    rw [mem_snapshot_iff hnodup, hmem]
    simp only [(hquiet hflying).mem_iff, List.mem_map, exists_exists_and_eq_and]

end Shared
end SealedHttp.Counters
