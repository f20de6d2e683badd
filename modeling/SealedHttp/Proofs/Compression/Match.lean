import SealedHttp.Compression.Match

/-!
# Repetitions that were found spell their input

A copy is only proposed after its bytes have been compared, and never reaches back behind the
beginning. Carrying out the instructions for an input therefore gives the input, whatever the search
finds.
-/

namespace SealedHttp

open Token (copyBack)

/-- Carried out behind `out`, the instructions end with `whole`. Their copies have at least four
bytes, keep within the reach and come from the output so far. -/
inductive Spells (reach : Match.Reach) : Array UInt8 → List Token → Array UInt8 → Prop
  | nil (out : Array UInt8) : Spells reach out [] out
  | literal {out whole : Array UInt8} {b : UInt8} {tokens : List Token}
      (h : Spells reach (out.push b) tokens whole) : Spells reach out (.literal b :: tokens) whole
  | copy {out whole : Array UInt8} {length distance : Nat} {tokens : List Token}
      (hfour : 4 ≤ length) (hlength : length ≤ reach.maxLength) (hpos : 0 < distance)
      (hdistance : distance ≤ reach.maxDistance) (hback : distance ≤ out.size)
      (h : Spells reach (copyBack distance length out) tokens whole) :
      Spells reach out (.copy length distance :: tokens) whole

/-- The output only grows. -/
theorem Spells.size_le {reach : Match.Reach} {out whole : Array UInt8} {tokens : List Token}
    (h : Spells reach out tokens whole) : out.size ≤ whole.size := by
  induction h with
  | nil => exact Nat.le_refl _
  | literal _ ih =>
    rw [Array.size_push] at ih
    exact Nat.le_of_succ_le ih
  | copy _ _ _ _ _ _ ih =>
    rw [Token.size_copyBack] at ih
    exact Nat.le_of_add_right_le ih

/-- There is room for what is copied. -/
theorem Spells.size_add_le {reach : Match.Reach} {out whole : Array UInt8} {tokens : List Token}
    {length distance : Nat} (h : Spells reach (copyBack distance length out) tokens whole) :
    out.size + length ≤ whole.size := by
  rw [← Token.size_copyBack distance]
  exact h.size_le

namespace Match

variable {data : Array UInt8} {reach : Reach}

/-! ## Runs that agree -/

theorem agreement_le (data : Array UInt8) (i j bound : Nat) : agreement data i j bound ≤ bound := by
  induction bound generalizing i j with
  | zero => exact Nat.le_refl 0
  | succ n ih =>
    rw [agreement]
    split
    · exact Nat.succ_le_succ (ih _ _)
    · exact Nat.zero_le _

theorem eq_of_lt_agreement {i j bound k : Nat} (h : k < agreement data i j bound) :
    j + k < data.size ∧ data.getD (i + k) 0 = data.getD (j + k) 0 := by
  induction bound generalizing i j k with
  | zero => cases h
  | succ n ih =>
    rw [agreement] at h
    split at h
    · next hagree =>
      cases k with
      | zero => exact hagree.2
      | succ k =>
        rw [← Nat.succ_add_eq_add_succ, ← Nat.succ_add_eq_add_succ]
        exact ih (Nat.lt_of_succ_lt_succ h)
    · cases h

theorem getD_extract {i k : Nat} (hi : i ≤ data.size) (hk : k < i) :
    (data.extract 0 i).getD k 0 = data.getD k 0 := by
  rw [Array.getD_eq_getD_getElem?, Array.getElem?_extract, Nat.min_eq_left hi, Nat.sub_zero,
    if_pos hk, Nat.zero_add, Array.getD_eq_getD_getElem?]

theorem push_extract {i : Nat} (hi : i < data.size) :
    (data.extract 0 i).push data[i] = data.extract 0 (i + 1) :=
  (Array.extract_succ_right (Nat.zero_lt_succ i) hi).symm

/-- Copying what agrees with the input goes on with the input. -/
theorem copyBack_extract {distance length i : Nat} (hpos : 0 < distance) (hback : distance ≤ i)
    (hagree : ∀ k < length, i + k < data.size ∧
      data.getD (i - distance + k) 0 = data.getD (i + k) 0) :
    copyBack distance length (data.extract 0 i) = data.extract 0 (i + length) := by
  induction length generalizing i with
  | zero => rfl
  | succ n ih =>
    have hagree₀ := hagree 0 (Nat.zero_lt_succ n)
    rw [Nat.add_zero, Nat.add_zero] at hagree₀
    obtain ⟨hi, hfirst⟩ := hagree₀
    have hsize : (data.extract 0 i).size = i := by
      rw [Array.size_extract, Nat.sub_zero, Nat.min_eq_left (Nat.le_of_lt hi)]
    have hbyte : (data.extract 0 i).getD (i - distance) 0 = data[i] := by
      rw [getD_extract (Nat.le_of_lt hi) (Nat.sub_lt_of_pos_le hpos hback), hfirst,
        Array.getElem_eq_getD 0]
    rw [copyBack, hsize, hbyte, push_extract hi, ih (Nat.le_succ_of_le hback),
      Nat.succ_add_eq_add_succ]
    intro k hk
    rw [Nat.succ_sub hback, Nat.succ_add_eq_add_succ, Nat.succ_add_eq_add_succ]
    exact hagree (k + 1) (Nat.succ_lt_succ hk)

/-! ## The search -/

/-- A table that knows positions before `i` only. -/
def IsBehind (table : Array Nat) (i : Nat) : Prop := ∀ k, table.getD k 0 ≤ i

theorem isBehind_replicate (i : Nat) : IsBehind (Array.replicate slots 0) i := by
  intro k
  rw [Array.getD_eq_getD_getElem?, Array.getElem?_replicate]
  split <;> exact Nat.zero_le i

theorem IsBehind.setIfInBounds {table : Array Nat} {i j : Nat} (h : IsBehind table i) (hij : i < j)
    (slot : Nat) : IsBehind (table.setIfInBounds slot (i + 1)) j := by
  intro k
  rw [Array.getD_eq_getD_getElem?, Array.getElem?_setIfInBounds]
  split
  · split
    · exact hij
    · exact Nat.zero_le j
  · rw [← Array.getD_eq_getD_getElem?]
    exact Nat.le_trans (h k) (Nat.le_of_lt hij)

/-- A copy that is proposed at position `i`. -/
structure IsRun (reach : Reach) (data : Array UInt8) (i length distance : Nat) : Prop where
  four_le : 4 ≤ length
  length_le : length ≤ reach.maxLength
  distance_pos : 0 < distance
  distance_le : distance ≤ reach.maxDistance
  distance_le_position : distance ≤ i
  agrees : ∀ k < length, i + k < data.size ∧
    data.getD (i - distance + k) 0 = data.getD (i + k) 0

theorem isRun_of_candidate? {table : Array Nat} {i length distance : Nat} (h : IsBehind table i)
    (hcandidate : candidate? reach data table i = some (length, distance)) :
    IsRun reach data i length distance := by
  have hseen := h (slot data i)
  rw [candidate?] at hcandidate
  dsimp only at hcandidate
  split at hcandidate
  · cases hcandidate
  · next hnear =>
    split at hcandidate
    · cases hcandidate
    · next hlong =>
      cases hcandidate
      exact ⟨by omega, agreement_le .., by omega, by omega, by omega, fun _ => eq_of_lt_agreement⟩

theorem exists_tokensFrom (reach : Reach) {data : Array UInt8} {i : Nat} (hi : i ≤ data.size)
    {table : Array Nat} (htable : IsBehind table i) (done : List Token) :
    ∃ tokens, tokensFrom reach data i table done = done.reverse ++ tokens ∧
      Spells reach (data.extract 0 i) tokens data := by
  fun_induction tokensFrom reach data i table done with
  | case1 i table done hlt length distance hcandidate ih =>
    obtain ⟨hfour, hlength, hpos, hdistance, hback, hagrees⟩ :=
      isRun_of_candidate? htable hcandidate
    have hstep : max 1 length = length := by omega
    have hlast := (hagrees (length - 1) (by omega)).1
    rw [hstep] at ih
    obtain ⟨tokens, htokens, hspells⟩ :=
      ih (by omega) (htable.setIfInBounds (by omega) (slot data i))
    refine ⟨.copy length distance :: tokens, ?_, ?_⟩
    · rw [hstep, htokens, List.reverse_cons, List.append_assoc, List.singleton_append]
    · rw [← copyBack_extract hpos hback hagrees] at hspells
      refine .copy hfour hlength hpos hdistance ?_ hspells
      rwa [Array.size_extract, Nat.sub_zero, Nat.min_eq_left hi]
  | case2 i table done hlt hcandidate ih =>
    obtain ⟨tokens, htokens, hspells⟩ :=
      ih hlt (htable.setIfInBounds (Nat.lt_succ_self i) (slot data i))
    refine ⟨.literal data[i] :: tokens, ?_, ?_⟩
    · rw [htokens, List.reverse_cons, List.append_assoc, List.singleton_append]
    · rw [← push_extract hlt] at hspells
      exact .literal hspells
  | case3 i table done hend =>
    refine ⟨[], (List.append_nil _).symm, ?_⟩
    rw [Array.extract_eq_self_of_le (Nat.le_of_not_lt hend)]
    exact .nil data

/-- The instructions that are found for an input spell it. -/
theorem spells_tokens (reach : Reach) (bs : Bytes) :
    Spells reach #[] (tokens reach bs) bs.toArray := by
  obtain ⟨found, htokens, hspells⟩ :=
    exists_tokensFrom reach (Nat.zero_le bs.toArray.size) (isBehind_replicate 0) []
  rw [Array.extract_zero] at hspells
  rw [tokens, htokens]
  exact hspells

end Match
end SealedHttp
