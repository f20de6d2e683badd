import SealedHttp.Proofs.Cipher.RsaPair

/-!
# What public keys open

The holder of a public key opens just the blocks that the server seals. Removing the filling undoes
adding it and nothing else, and below the modulus the public operation hits every value once. So a
block is the sealed form of what it opens to, and there is no second one.
-/

namespace SealedHttp.RsaKeys

/-! ## Filling -/

/-- The filling is removed from filled-up data only. -/
theorem unsignBlock?_eq_some_iff {bs data : Bytes} :
    unsignBlock? bs = some data ↔
      data.length + overhead ≤ bs.length ∧ bs = signBlock bs.length data := by
  constructor
  · intro h
    unfold unsignBlock? at h
    split at h
    · next rest =>
      dsimp only at h
      split at h
      · next data' hbehind =>
        split at h <;> cases h
        next hfill =>
        have hrest := eq_replicate_append_drop 0xFF rest
        rw [hbehind] at hrest
        have hlength := congrArg List.length hrest
        simp only [List.length_append, List.length_replicate, List.length_cons] at hlength
        have hfilling : (0 :: 1 :: rest : Bytes).length - data.length - 3 =
            (rest.takeWhile (· = 0xFF)).length := by
          simp only [List.length_cons]
          omega
        refine ⟨?_, ?_⟩
        · simp only [List.length_cons, overhead]
          omega
        · rw [signBlock, hfilling]
          exact congrArg (fun rest => 0 :: 1 :: rest) hrest
      · cases h
    · cases h
  · rintro ⟨hfits, hfilled⟩
    rw [hfilled]
    exact unsignBlock?_signBlock hfits

/-! ## Blocks -/

section Blocks

variable {k : RsaPublic} {e : Nat} {block data : Bytes}

/-- The block that seals data under a private exponent. -/
def sealedBlock (k : RsaPublic) (e : Nat) (data : Bytes) : Bytes :=
  Bytes.ofNat (powMod (Bytes.toNat (signBlock k.size data)) e k.modulus) k.size

/-- A block of the right length and below the modulus comes from its own raised value. -/
theorem eq_ofNat_of_raise (hpair : k.IsUndoneBy e) (hlength : block.length = k.size)
    (hlt : Bytes.toNat block < k.modulus) :
    block = Bytes.ofNat (powMod (k.raise (Bytes.toNat block)) e k.modulus) k.size := by
  rw [hpair.lower_raise _ hlt, ← hlength, Bytes.ofNat_toNat]

theorem openPublic_of_unfit (h : block.length ≠ k.size ∨ k.modulus ≤ Bytes.toNat block) :
    openPublic k block = .error (.rsaBlock block.length) := by
  rw [openPublic]
  exact if_pos h

theorem openPublic_of_fit (hlength : block.length = k.size)
    (hlt : Bytes.toNat block < k.modulus) :
    openPublic k block =
      match unsignBlock? (Bytes.ofNat (k.raise (Bytes.toNat block)) k.size) with
      | some data => .ok data
      | none => .error .rsaPadding := by
  rw [openPublic]
  exact if_neg (by omega)

/-- A block opens to data just if it is the one that seals them. -/
theorem openPublic_eq_ok_iff (hpair : k.IsUndoneBy e) :
    openPublic k block = .ok data ↔
      data.length + overhead ≤ k.size ∧ block = sealedBlock k e data := by
  constructor
  · intro h
    by_cases hfit : block.length = k.size ∧ Bytes.toNat block < k.modulus
    · obtain ⟨hlength, hlt⟩ := hfit
      rw [openPublic_of_fit hlength hlt] at h
      split at h <;> cases h
      next hunsign =>
      rw [unsignBlock?_eq_some_iff, Bytes.length_ofNat] at hunsign
      obtain ⟨hfits, hfilled⟩ := hunsign
      have hraised := RsaPublic.raise_lt hpair.modulus_pos (Bytes.toNat block)
      refine ⟨hfits, ?_⟩
      rw [sealedBlock, ← hfilled, Bytes.toNat_ofNat (RsaPublic.lt_pow_size hraised)]
      exact eq_ofNat_of_raise hpair hlength hlt
    · rw [openPublic_of_unfit (by omega)] at h
      cases h
  · rintro ⟨hfits, rfl⟩
    exact openPublic_sealed hpair hfits

end Blocks

/-! ## Pairs -/

/-- The server seals these data in this block, whatever the draws, and leaves these alone. -/
def Seals (k : RsaKeys) (data block : Bytes) : Prop :=
  data.length + overhead ≤ k.size ∧ ∀ d, (k.sealBlock data).run d = (.ok block, d)

/-- The client of a server opens exactly what the server seals. -/
structure OpensExactly (server client : RsaKeys) : Prop where
  ok_iff : ∀ block data, client.openBlock block = .ok data ↔ server.Seals data block
  /-- What fits in a block has exactly one block. -/
  existsUnique : ∀ data, data.length + overhead ≤ server.size →
    ∃! block, client.openBlock block = .ok data
  block_eq : ∀ block block' data, client.openBlock block = .ok data →
    client.openBlock block' = .ok data → block = block'
  rsaBlock : ∀ block, block.length ≠ server.size ∨ server.shared.modulus ≤ Bytes.toNat block →
    client.openBlock block = .error (.rsaBlock block.length)
  rsaPadding : ∀ block, block.length = server.size → Bytes.toNat block < server.shared.modulus →
    (∀ data, ¬server.Seals data block) → client.openBlock block = .error .rsaPadding

theorem seals_iff {k : RsaKeys} {e : Nat} (hsecret : k.secret = some e)
    (hpair : k.shared.IsUndoneBy e) {data block : Bytes} :
    k.Seals data block ↔
      data.length + overhead ≤ k.size ∧ block = sealedBlock k.shared e data := by
  refine and_congr_right fun hfits => ?_
  constructor
  · intro hseals
    have hrun := (hseals ⟨id, 0⟩).symm.trans (run_sealBlock_of_secret hsecret hpair hfits ⟨id, 0⟩)
    exact Except.ok.inj (congrArg Prod.fst hrun)
  · rintro rfl d
    exact run_sealBlock_of_secret hsecret hpair hfits d

/-- Opening with the public key accepts what the private key seals, and nothing else. -/
theorem IsPair.opensExactly {k : RsaKeys} (h : k.IsPair) : k.OpensExactly k.toPublic := by
  obtain ⟨e, hsecret, hpair⟩ := h
  have hopen : ∀ block data, k.toPublic.openBlock block = .ok data ↔ k.Seals data block :=
    fun block data => (openPublic_eq_ok_iff hpair).trans (seals_iff hsecret hpair).symm
  have hunique : ∀ block block' data, k.toPublic.openBlock block = .ok data →
      k.toPublic.openBlock block' = .ok data → block = block' := by
    intro block block' data hblock hblock'
    rw [((openPublic_eq_ok_iff hpair).mp hblock).2, ((openPublic_eq_ok_iff hpair).mp hblock').2]
  refine ⟨hopen, ?_, hunique, fun block => openPublic_of_unfit, ?_⟩
  · intro data hfits
    have hsealed := (openPublic_eq_ok_iff hpair).mpr ⟨hfits, rfl⟩
    exact ⟨_, hsealed, fun block' hblock' => hunique _ _ _ hblock' hsealed⟩
  · intro block hlength hlt hnone
    have hfails := fun data => mt (hopen block data).mp (hnone data)
    change openPublic k.shared block = _
    rw [openPublic_of_fit hlength hlt]
    split
    · next data hunsign =>
      refine absurd ?_ (hfails data)
      change openPublic k.shared block = _
      rw [openPublic_of_fit hlength hlt, hunsign]
    · rfl

/-- Two bytes have one block. Neither a short block nor the modulus itself is opened. -/
theorem opensExactly_mersennePair :
    mersennePair.IsPair ∧
    (∃ block, mersennePair.Seals [104, 105] block ∧
      ∀ block', mersennePair.toPublic.openBlock block' = .ok [104, 105] → block' = block) ∧
    mersennePair.toPublic.openBlock [1, 2, 3] = .error (.rsaBlock 3) ∧
    mersennePair.toPublic.openBlock (Bytes.ofNat mersennePair.shared.modulus 27) =
      .error (.rsaBlock 27) := by
  have hopens := isPair_mersennePair.opensExactly
  have hroom : ([104, 105] : Bytes).length + overhead ≤ mersennePair.size := by
    rw [size_mersennePair]
    decide
  obtain ⟨block, hopen, hunique⟩ := hopens.existsUnique [104, 105] hroom
  refine ⟨isPair_mersennePair, ⟨block, (hopens.ok_iff _ _).mp hopen, hunique⟩, ?_, ?_⟩
  · exact hopens.rsaBlock _ (.inl (by rw [size_mersennePair]; decide))
  · exact hopens.rsaBlock _ (.inr (by decide +kernel))

end SealedHttp.RsaKeys
