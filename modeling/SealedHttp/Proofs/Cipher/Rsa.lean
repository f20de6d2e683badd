import SealedHttp.Cipher.Rsa.Block
import SealedHttp.Proofs.ByteStrings
import SealedHttp.Proofs.Cipher.Draws

/-!
# RSA between the two holders of a pair

Each party opens the blocks that the other one seals. A filled-up block begins with a zero byte and
is therefore below the modulus, where the two exponents undo each other. Payloads follow block by
block.
-/

namespace SealedHttp

theorem powMod_lt (b e : Nat) {m : Nat} (hm : 0 < m) : powMod b e m < m := by
  rw [powMod]
  dsimp only
  split
  · exact Nat.mod_lt _ hm
  · split <;> exact Nat.mod_lt _ hm

namespace RsaPublic

/-- The private exponent `d` belongs to the public one: either undoes the other below the modulus. -/
structure IsUndoneBy (k : RsaPublic) (d : Nat) : Prop where
  modulus_pos : 0 < k.modulus
  raise_lower : ∀ m < k.modulus, k.raise (powMod m d k.modulus) = m
  lower_raise : ∀ m < k.modulus, powMod (k.raise m) d k.modulus = m

theorem size_pos {k : RsaPublic} (h : 0 < k.modulus) : 0 < k.size := Bytes.sizeOfNat_pos h

theorem raise_lt {k : RsaPublic} (h : 0 < k.modulus) (m : Nat) : k.raise m < k.modulus :=
  powMod_lt m k.exponent h

theorem lt_pow_size {k : RsaPublic} {m : Nat} (h : m < k.modulus) : m < 256 ^ k.size :=
  h.trans (Bytes.lt_pow_sizeOfNat k.modulus)

/-- A block that begins with a zero byte is below the modulus. -/
theorem toNat_lt_modulus {k : RsaPublic} {bs : Bytes} (h : (0 :: bs).length = k.size) :
    Bytes.toNat (0 :: bs) < k.modulus := by
  have hlt := Bytes.toNat_lt bs
  have hle : 256 ^ bs.length ≤ k.modulus := Bytes.pow_le_of_size h.symm
  rw [Bytes.toNat_cons, UInt8.toNat_zero, Nat.zero_mul, Nat.zero_add]
  omega

end RsaPublic

namespace RsaKeys

/-- The keys of a server whose private exponent belongs to the public one. -/
def IsPair (k : RsaKeys) : Prop := ∃ d, k.secret = some d ∧ k.shared.IsUndoneBy d

/-! ## Filling -/

theorem length_signBlock {size : Nat} {data : Bytes} (h : data.length + overhead ≤ size) :
    (signBlock size data).length = size := by
  simp only [signBlock, overhead, List.length_append, List.length_cons, List.length_replicate] at *
  omega

theorem length_encryptBlock (filler data : Bytes) :
    (encryptBlock filler data).length = filler.length + data.length + 3 := by
  simp only [encryptBlock, List.length_append, List.length_cons]
  omega

theorem unsignBlock?_signBlock {size : Nat} {data : Bytes} (h : data.length + overhead ≤ size) :
    unsignBlock? (signBlock size data) = some data := by
  have hfilling : (List.replicate (size - data.length - 3) (0xFF : UInt8) ++ 0 :: data).takeWhile
      (· = 0xFF) = List.replicate (size - data.length - 3) 0xFF := by
    rw [List.takeWhile_append_of_pos (by simp)]
    simp
  have height : 8 ≤ size - data.length - 3 := by
    simp only [overhead] at h
    omega
  have hbehind : (List.replicate (size - data.length - 3) (0xFF : UInt8) ++ 0 :: data).drop
      (size - data.length - 3) = 0 :: data := List.drop_left' List.length_replicate
  -- The block is matched from its first two bytes on, which `signBlock` keeps in an append.
  change unsignBlock? (0 :: 1 :: (List.replicate (size - data.length - 3) 0xFF ++ 0 :: data)) = _
  simp only [unsignBlock?, hfilling, List.length_replicate, hbehind]
  rw [if_pos height]

theorem unencryptBlock?_encryptBlock {filler : Bytes} (data : Bytes) (hzero : ∀ x ∈ filler, x ≠ 0)
    (height : 8 ≤ filler.length) : unencryptBlock? (encryptBlock filler data) = some data := by
  have hfilling : (filler ++ 0 :: data).takeWhile (· ≠ 0) = filler := by
    rw [List.takeWhile_append_of_pos fun x hx => decide_eq_true (hzero x hx)]
    simp
  change unencryptBlock? (0 :: 2 :: (filler ++ 0 :: data)) = _
  simp only [unencryptBlock?, hfilling, List.drop_left]
  rw [if_pos height]

/-! ## Blocks -/

theorem le_size_of_sealBlock {k : RsaKeys} {data block : Bytes} {d d' : Draws}
    (h : (k.sealBlock data).run d = (.ok block, d')) : data.length + overhead ≤ k.size := by
  by_contra hlong
  rw [sealBlock, if_pos (by omega)] at h
  cases h

/-- A sealed block is as long as the modulus, whether or not anyone can open it. -/
theorem length_of_sealBlock {k : RsaKeys} {data block : Bytes} {d d' : Draws}
    (h : (k.sealBlock data).run d = (.ok block, d')) : block.length = k.size := by
  have hfits := le_size_of_sealBlock h
  rw [sealBlock, if_neg (by omega)] at h
  split at h
  · next e _ =>
    rw [Draws.run_pure, Prod.mk.injEq] at h
    rcases hlower : lower k.shared e (Bytes.toNat (signBlock k.size data)) with failure | c
    · rw [hlower] at h
      cases h.1
    · rw [hlower] at h
      cases h.1
      exact Bytes.length_ofNat _ _
  · cases h
    exact Bytes.length_ofNat _ _

/-- The server's block: the filled-up data, lowered. -/
theorem run_sealBlock_of_secret {k : RsaKeys} {e : Nat} (hsecret : k.secret = some e)
    (hpair : k.shared.IsUndoneBy e) {data : Bytes} (h : data.length + overhead ≤ k.size)
    (d : Draws) :
    (k.sealBlock data).run d =
      (.ok (Bytes.ofNat (powMod (Bytes.toNat (signBlock k.size data)) e k.shared.modulus) k.size),
        d) := by
  have hlt : Bytes.toNat (signBlock k.size data) < k.shared.modulus :=
    RsaPublic.toNat_lt_modulus (length_signBlock h)
  have hlower : lower k.shared e (Bytes.toNat (signBlock k.size data)) =
      .ok (powMod (Bytes.toNat (signBlock k.size data)) e k.shared.modulus) := by
    simp only [lower]
    rw [if_pos (hpair.raise_lower _ hlt)]
  rw [sealBlock, if_neg (by omega)]
  simp only [hsecret, hlower]
  rfl

theorem openPublic_sealed {k : RsaPublic} {e : Nat} (hpair : k.IsUndoneBy e) {data : Bytes}
    (h : data.length + overhead ≤ k.size) :
    openPublic k (Bytes.ofNat (powMod (Bytes.toNat (signBlock k.size data)) e k.modulus) k.size) =
      .ok data := by
  have hlt : Bytes.toNat (signBlock k.size data) < k.modulus :=
    RsaPublic.toNat_lt_modulus (length_signBlock h)
  have hlow := powMod_lt (Bytes.toNat (signBlock k.size data)) e hpair.modulus_pos
  have hback := Bytes.ofNat_toNat (signBlock k.size data)
  rw [length_signBlock h] at hback
  simp only [openPublic, Bytes.toNat_ofNat (RsaPublic.lt_pow_size hlow), hpair.raise_lower _ hlt,
    hback, unsignBlock?_signBlock h, Bytes.length_ofNat]
  rw [if_neg (by omega)]

/-- The client's block: the filled-up data, raised. -/
theorem run_sealBlock_of_public {k : RsaKeys} (hsecret : k.secret = none) {data : Bytes}
    (h : data.length + overhead ≤ k.size) (d : Draws) :
    ∃ filler d', (k.sealBlock data).run d =
        (.ok (Bytes.ofNat (k.shared.raise (Bytes.toNat (encryptBlock filler data))) k.size), d') ∧
      filler.length = k.size - data.length - 3 ∧ ∀ x ∈ filler, x ≠ 0 := by
  obtain ⟨filler, d', hrun, hlength, hzero⟩ := Draws.exists_filler (k.size - data.length - 3) d
  refine ⟨filler, d', ?_, hlength, hzero⟩
  rw [sealBlock, if_neg (by omega)]
  simp only [hsecret, StateT.run_bind, hrun]
  rfl

theorem openPrivate_sealed {k : RsaPublic} {e : Nat} (hpair : k.IsUndoneBy e)
    {filler data : Bytes} (hlength : filler.length = k.size - data.length - 3)
    (hzero : ∀ x ∈ filler, x ≠ 0) (h : data.length + overhead ≤ k.size) :
    openPrivate k e (Bytes.ofNat (k.raise (Bytes.toNat (encryptBlock filler data))) k.size) =
      .ok data := by
  simp only [overhead] at h
  have hsize : (encryptBlock filler data).length = k.size := by
    rw [length_encryptBlock]
    omega
  have hlt : Bytes.toNat (encryptBlock filler data) < k.modulus :=
    RsaPublic.toNat_lt_modulus hsize
  have hraised := RsaPublic.raise_lt hpair.modulus_pos (Bytes.toNat (encryptBlock filler data))
  have hback := Bytes.ofNat_toNat (encryptBlock filler data)
  rw [hsize] at hback
  -- The result of the private operation is raised again and compared.
  have hlower : lower k e (k.raise (Bytes.toNat (encryptBlock filler data))) =
      .ok (Bytes.toNat (encryptBlock filler data)) := by
    simp only [lower, hpair.lower_raise _ hlt]
    rw [if_pos trivial]
  simp only [openPrivate, Bytes.toNat_ofNat (RsaPublic.lt_pow_size hraised)]
  rw [if_neg (by omega), hlower]
  simp only [bind, Except.bind, hback, unencryptBlock?_encryptBlock data hzero (by omega)]
  rw [if_neg (by simp only [overhead]; omega)]

/-! ## Parties -/

/-- The holder of `l` opens what the holder of `k` seals: data that fits is sealed, and a sealed
block is as long as the modulus and opens to its data. -/
structure OpenedBy (k l : RsaKeys) : Prop where
  size_eq : l.size = k.size
  size_pos : 0 < k.size
  seals : ∀ (data : Bytes) (d : Draws), data.length + overhead ≤ k.size →
    ∃ block d', (k.sealBlock data).run d = (.ok block, d')
  opens : ∀ {data block : Bytes} {d d' : Draws}, (k.sealBlock data).run d = (.ok block, d') →
    block.length = k.size ∧ l.openBlock block = .ok data

theorem IsPair.openedBy_toPublic {k : RsaKeys} (h : k.IsPair) : k.OpenedBy k.toPublic := by
  obtain ⟨e, hsecret, hpair⟩ := h
  refine ⟨rfl, RsaPublic.size_pos hpair.modulus_pos, ?_, ?_⟩
  · intro data d hfits
    exact ⟨_, d, run_sealBlock_of_secret hsecret hpair hfits d⟩
  · intro data block d d' hseal
    have hfits := le_size_of_sealBlock hseal
    rw [run_sealBlock_of_secret hsecret hpair hfits, Prod.mk.injEq, Except.ok.injEq] at hseal
    obtain ⟨rfl, -⟩ := hseal
    exact ⟨Bytes.length_ofNat _ _, openPublic_sealed hpair hfits⟩

theorem IsPair.toPublic_openedBy {k : RsaKeys} (h : k.IsPair) : k.toPublic.OpenedBy k := by
  obtain ⟨e, hsecret, hpair⟩ := h
  refine ⟨rfl, RsaPublic.size_pos hpair.modulus_pos, ?_, ?_⟩
  · intro data d hfits
    obtain ⟨filler, d', hrun, -⟩ := run_sealBlock_of_public (k := k.toPublic) rfl hfits d
    exact ⟨_, d', hrun⟩
  · intro data block d d' hseal
    have hfits := le_size_of_sealBlock hseal
    obtain ⟨filler, d₁, hrun, hlength, hzero⟩ :=
      run_sealBlock_of_public (k := k.toPublic) rfl hfits d
    rw [hrun, Prod.mk.injEq, Except.ok.injEq] at hseal
    obtain ⟨rfl, -⟩ := hseal
    refine ⟨Bytes.length_ofNat _ _, ?_⟩
    rw [openBlock, hsecret]
    exact openPrivate_sealed hpair hlength hzero hfits

/-! ## Payloads -/

theorem OpenedBy.openBlocks_of_sealPieces {k l : RsaKeys} (h : k.OpenedBy l)
    {pieces : List Bytes} {out : Bytes} {d d' : Draws}
    (hseal : (k.sealPieces pieces).run d = (.ok out, d')) :
    l.openBlocks (Bytes.chunks l.size out) = .ok pieces.flatten := by
  induction pieces generalizing out d with
  | nil =>
    cases hseal
    rw [Bytes.chunks_nil]
    rfl
  | cons piece pieces ih =>
    obtain ⟨block, d₁, hblock, hrest⟩ := Draws.exists_of_run_andThen hseal
    obtain ⟨blocks, d₂, hblocks, hlast⟩ := Draws.exists_of_run_andThen hrest
    obtain ⟨hlength, hopen⟩ := h.opens hblock
    cases hlast
    -- Blocks are as long as the modulus, so that cutting gives back the ones that were joined.
    rw [Bytes.chunks_append (h.size_eq ▸ h.size_pos) (hlength.trans h.size_eq.symm), openBlocks,
      hopen, ih hblocks]
    rfl

theorem OpenedBy.exists_sealPieces {k l : RsaKeys} (h : k.OpenedBy l) {pieces : List Bytes}
    (hfits : ∀ piece ∈ pieces, piece.length + overhead ≤ k.size) (d : Draws) :
    ∃ out d', (k.sealPieces pieces).run d = (.ok out, d') := by
  induction pieces generalizing d with
  | nil => exact ⟨[], d, rfl⟩
  | cons piece pieces ih =>
    obtain ⟨block, d₁, hblock⟩ := h.seals piece d (hfits piece List.mem_cons_self)
    obtain ⟨blocks, d₂, hblocks⟩ := ih (fun p hp => hfits p (List.mem_cons_of_mem _ hp)) d₁
    refine ⟨block ++ blocks, d₂, ?_⟩
    rw [sealPieces, Draws.run_andThen_of_ok hblock, Draws.run_andThen_of_ok hblocks]
    rfl

theorem pieceLength_of_le {k : RsaKeys} (h : overhead ≤ k.size) :
    k.pieceLength = k.size - overhead := if_pos h

/-- Whatever a party makes of a payload, the other one reads it. -/
theorem OpenedBy.decrypt_of_encrypt {k l : RsaKeys} (h : k.OpenedBy l) {data out : Bytes}
    {d d' : Draws} (henc : (k.encrypt data).run d = (.ok out, d')) : l.decrypt out = .ok data := by
  by_cases hroom : k.pieceLength = 0
  · rw [encrypt, if_pos hroom] at henc
    cases henc
  · rw [encrypt, if_neg hroom] at henc
    have hsize : l.size ≠ 0 := by
      rw [h.size_eq]
      exact h.size_pos.ne'
    rw [decrypt, if_neg hsize, h.openBlocks_of_sealPieces henc,
      Bytes.flatten_chunks (Nat.pos_of_ne_zero hroom)]

/-- Every payload can be sealed when a block has room for a byte. -/
theorem OpenedBy.exists_encrypt {k l : RsaKeys} (h : k.OpenedBy l) (hroom : overhead < k.size)
    (data : Bytes) (d : Draws) : ∃ out d', (k.encrypt data).run d = (.ok out, d') := by
  have hpiece := pieceLength_of_le hroom.le
  have hpos : k.pieceLength ≠ 0 := by omega
  rw [encrypt, if_neg hpos]
  refine h.exists_sealPieces ?_ d
  intro piece hmem
  have hle := Bytes.length_le_of_mem_chunks hmem
  omega

end RsaKeys
end SealedHttp
