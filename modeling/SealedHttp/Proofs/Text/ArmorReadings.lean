import SealedHttp.Proofs.Text.Armor

/-!
# Base64 armor has one form

Whatever is read is what would be written. Each symbol stands for one value, the bits that no byte
holds must be zero, and the padding must be there to the last byte.
-/

namespace SealedHttp.Base64

variable {t bs : Bytes}

/-! ## Symbols and their values -/

theorem symbol_of_value? (b : UInt8) : ∀ n ∈ value? b, n < 64 ∧ symbol n = b :=
  Bytes.forall_byte (p := fun b => ∀ n ∈ value? b, n < 64 ∧ symbol n = b) (by decide +kernel) b

theorem isSome_value?_of_stranger? {offset : Nat} (h : stranger? offset t = none) :
    ∀ b ∈ t, (value? b).isSome := by
  induction t generalizing offset with
  | nil => simp
  | cons b t ih =>
    rw [stranger?] at h
    split at h
    · cases h
    · next hsome =>
      rw [Bool.not_eq_true, Option.isNone_eq_false_iff] at hsome
      exact List.forall_mem_cons.mpr ⟨hsome, ih h⟩

theorem map_symbol_filterMap (h : ∀ b ∈ t, (value? b).isSome) :
    (t.filterMap value?).map symbol = t := by
  induction t with
  | nil => rfl
  | cons b t ih =>
    rw [List.forall_mem_cons] at h
    obtain ⟨n, hn⟩ := Option.isSome_iff_exists.mp h.1
    rw [List.filterMap_cons_some hn, List.map_cons, ih h.2, (symbol_of_value? b n hn).2]

theorem lt_of_mem_filterMap {n : Nat} (h : n ∈ t.filterMap value?) : n < 64 := by
  obtain ⟨b, -, hb⟩ := List.mem_filterMap.mp h
  exact (symbol_of_value? b n hb).1

theorem sextets_of_group? {ns : List Nat} (hns : ∀ n ∈ ns, n < 64) (h : group? ns = some bs) :
    sextets bs = ns := by
  fun_induction group? ns generalizing bs with
  | case1 =>
    cases h
    rfl
  | case2 => cases h
  | case3 x y hy =>
    cases h
    simp only [List.forall_mem_cons] at hns
    simp only [sextets, UInt8.toNat_ofNat', List.cons.injEq, and_true]
    omega
  | case4 => cases h
  | case5 x y z hz =>
    cases h
    simp only [List.forall_mem_cons] at hns
    simp only [sextets, UInt8.toNat_ofNat', List.cons.injEq, and_true]
    omega
  | case6 => cases h
  | case7 x y z w rest ih =>
    obtain ⟨tail, htail, rfl⟩ := Option.map_eq_some_iff.mp h
    simp only [List.forall_mem_cons] at hns
    simp only [sextets, UInt8.toNat_ofNat', List.cons.injEq, ih hns.2.2.2.2 htail, and_true]
    omega

/-! ## Symbols and padding -/

/-- What is in front of the padding, and what the checks leave of the padding. -/
theorem exists_of_decode (h : decode t = .ok bs) :
    ∃ body tail, t = body ++ tail ∧ stranger? 0 body = none ∧
      group? (body.filterMap value?) = some bs ∧ tail = List.replicate (padding body.length) pad := by
  refine ⟨t.takeWhile (· ≠ pad), t.dropWhile (· ≠ pad), List.takeWhile_append_dropWhile.symm, ?_⟩
  have hlength : t.length = _ := congrArg List.length
    (List.takeWhile_append_dropWhile (p := (· ≠ pad)) (l := t)).symm
  rw [List.length_append] at hlength
  simp only [decode] at h
  generalize t.takeWhile (· ≠ pad) = body at h hlength
  generalize t.dropWhile (· ≠ pad) = tail at h hlength
  split at h
  · cases h
  split at h
  · cases h
  next hstranger =>
  split at h
  · cases h
  next htail =>
  split at h
  · cases h
  next hone =>
  split at h
  · cases h
  next hfour =>
  split at h
  · next hgroup =>
    cases h
    refine ⟨hstranger, hgroup, ?_⟩
    rw [not_not, hlength] at hfour
    rw [List.eq_replicate_iff, padding]
    by_cases hempty : tail = []
    · rw [hempty, List.length_nil] at hfour ⊢
      exact ⟨by omega, List.forall_mem_nil _⟩
    · obtain ⟨htwo, hpads, hle⟩ := not_not.mp fun hbad => htail ⟨hempty, hbad⟩
      have hpos := List.length_pos_iff.mpr hempty
      exact ⟨by omega, fun b hb => beq_iff_eq.mp (List.all_eq_true.mp hpads b hb)⟩
  · cases h

theorem encode_of_decode (h : decode t = .ok bs) : encode bs = t := by
  obtain ⟨body, tail, rfl, hstranger, hgroup, rfl⟩ := exists_of_decode h
  have hbody := map_symbol_filterMap (isSome_value?_of_stranger? hstranger)
  have hsextets := sextets_of_group? (fun _ => lt_of_mem_filterMap) hgroup
  have hlength := congrArg List.length hbody
  rw [List.length_map] at hlength
  rw [encode_eq, hsextets, hbody, hlength]

end SealedHttp.Base64
