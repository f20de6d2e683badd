import Mathlib.Algebra.BigOperators.Group.List.Lemmas
import Mathlib.Data.List.Dedup
import SealedHttp.Proofs.Accounting.Additions

/-!
# Tallies

Counters that only ever grow by one are a tally: each says how often its key was hit, and together
they say how many hits there were.
-/

namespace SealedHttp.Counters

variable {κ : Type} [DecidableEq κ] {hits : List κ} {c : Counters κ}

/-- What counters of limited size come to when each hit adds one to the counter of its key. -/
structure IsTally (hits : List κ) (c : Counters κ) : Prop where
  keys_nodup : c.keys.Nodup
  mem_keys_iff : ∀ k, k ∈ c.keys ↔ k ∈ hits
  get_eq : ∀ k, (c.get k).toNat = hits.count k % 2 ^ 64

theorem isTally_empty : IsTally [] (empty : Counters κ) where
  keys_nodup := List.nodup_nil
  mem_keys_iff _ := Iff.rfl
  get_eq _ := rfl

/-- The answer to a hit is how many there were by then. -/
theorem IsTally.toNat_add (h : IsTally hits c) (key : κ) :
    (c.add key 1).1.toNat = (hits.count key + 1) % 2 ^ 64 := by
  rw [(adds_add key 1 c).value_eq, UInt64.toNat_add, h.get_eq, Nat.mod_add_mod]
  rfl

theorem IsTally.add (h : IsTally hits c) (key : κ) : IsTally (hits ++ [key]) (c.add key 1).2 := by
  have hadds := adds_add key 1 c
  constructor
  · exact hadds.nodup_keys h.keys_nodup
  · intro k
    rw [hadds.mem_keys_iff, h.mem_keys_iff, List.mem_append, List.mem_singleton, eq_comm]
  · intro k
    rw [hadds.get_eq, List.count_append, List.count_singleton]
    split
    · next hk =>
      rw [← hadds.value_eq, h.toNat_add, hk, beq_self_eq_true, if_pos rfl]
    · next hk => rw [beq_false_of_ne (Ne.symm hk), if_neg Bool.false_ne_true, h.get_eq, Nat.add_zero]

/-! ## All counters together -/

theorem map_snapshot (hnodup : c.keys.Nodup) : c.snapshot.map (·.2) = c.keys.map c.get := by
  rw [snapshot, keys, List.map_map]
  refine List.map_congr_left fun p hp => ?_
  rw [Function.comp, get, (find?_eq_some_iff_mem hnodup).mpr hp, Option.getD_some]

/-- Every hit is counted under one key. -/
theorem IsTally.sum_count (h : IsTally hits c) : (c.keys.map (hits.count ·)).sum = hits.length := by
  have hperm : c.keys.Perm hits.dedup :=
    (List.perm_ext_iff_of_nodup h.keys_nodup hits.nodup_dedup).mpr fun k =>
      (h.mem_keys_iff k).trans List.mem_dedup.symm
  rw [(hperm.map _).sum_nat, List.sum_map_count_dedup_eq_length]

theorem IsTally.toNat_snapshot (h : IsTally hits c) :
    c.snapshot.map (·.2.toNat) = c.keys.map fun k => hits.count k % 2 ^ 64 := by
  calc c.snapshot.map (·.2.toNat)
      = (c.snapshot.map (·.2)).map UInt64.toNat := by rw [List.map_map]; rfl
    _ = c.keys.map fun k => (c.get k).toNat := by
      rw [map_snapshot h.keys_nodup, List.map_map]
      rfl
    _ = _ := List.map_congr_left fun k _ => h.get_eq k

theorem IsTally.sum_mod_eq (h : IsTally hits c) :
    (c.snapshot.map (·.2.toNat)).sum % 2 ^ 64 = hits.length % 2 ^ 64 := by
  rw [h.toNat_snapshot, ← h.sum_count, List.sum_nat_mod (c.keys.map (hits.count ·)), List.map_map]
  rfl

/-- No counter overflows if all hits together do not. -/
theorem IsTally.sum_eq (h : IsTally hits c) (hhits : hits.length < 2 ^ 64) :
    (c.snapshot.map (·.2.toNat)).sum = hits.length := by
  have hsmall : ∀ k ∈ c.keys, hits.count k % 2 ^ 64 = hits.count k := fun k _ =>
    Nat.mod_eq_of_lt (Nat.lt_of_le_of_lt List.count_le_length hhits)
  rw [h.toNat_snapshot, List.map_congr_left hsmall, h.sum_count]

end SealedHttp.Counters
