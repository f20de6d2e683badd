import Mathlib.Algebra.Order.Floor.Div
import SealedHttp.Proofs.Cipher.RsaOpenings

/-!
# Payloads under RSA

A payload is sealed piece by piece and opened block by block, and the blocks are longer than the
pieces. Whole blocks are opened independently of what follows them, and the first block that does
not open decides how opening fails.
-/

namespace SealedHttp

namespace Bytes

theorem length_chunks {k : Nat} (hk : 0 < k) (bs : Bytes) :
    (chunks k bs).length = bs.length ⌈/⌉ k := by
  fun_induction chunks k bs with
  | case1 => cases hk
  | case2 => simp
  | case3 k b bs ih =>
    simp only [List.length_cons, ih hk, List.length_drop, Nat.ceilDiv_eq_add_pred_div]
    rcases Nat.lt_or_ge bs.length k with hshort | hlong
    · -- The first piece is the last one.
      rw [Nat.div_eq_of_lt (by omega)]
      exact (Nat.div_eq_of_lt_le (by omega) (by omega)).symm
    · rw [← Nat.add_div_right _ hk]
      congr 1
      omega

/-- Behind whole pieces, cutting starts anew. -/
theorem chunks_append_of_mod_eq_zero {k : Nat} {front : Bytes} (h : front.length % k = 0)
    (back : Bytes) : chunks k (front ++ back) = chunks k front ++ chunks k back := by
  fun_induction chunks k front with
  | case1 => simp [chunks]
  | case2 => rfl
  | case3 k b bs ih =>
    have hlong : k ≤ bs.length := by
      have hle := Nat.le_of_dvd (Nat.succ_pos _) (Nat.dvd_of_mod_eq_zero h)
      omega
    have hdrop : (bs.drop k).length % (k + 1) = 0 := by
      rw [List.length_drop, ← Nat.add_mod_right, ← h, List.length_cons]
      congr 1
      omega
    rw [List.cons_append, chunks, List.take_append_of_le_length hlong,
      List.drop_append_of_le_length hlong, ih hdrop, List.cons_append]

theorem length_flatten_of_forall {n : Nat} {pieces : List Bytes}
    (h : ∀ piece ∈ pieces, piece.length = n) : pieces.flatten.length = pieces.length * n := by
  have hsum := List.sum_eq_card_nsmul (pieces.map List.length) n (by simpa using h)
  rwa [List.length_map, smul_eq_mul, ← List.length_flatten] at hsum

/-- Only a whole number of pieces is cut into pieces of full length. -/
theorem mod_eq_zero_of_length_chunks {k : Nat} {bs : Bytes} (hk : 0 < k)
    (h : ∀ piece ∈ chunks k bs, piece.length = k) : bs.length % k = 0 := by
  rw [← flatten_chunks hk bs, length_flatten_of_forall h, Nat.mul_mod_left]

end Bytes

namespace RsaKeys

/-! ## Sealing -/

section Sealing

variable {k : RsaKeys}

/-- What a party makes of some pieces is one block for each of them. -/
theorem exists_blocks_of_sealPieces {pieces : List Bytes} {out : Bytes} {d d' : Draws}
    (h : (k.sealPieces pieces).run d = (.ok out, d')) :
    ∃ blocks : List Bytes, out = blocks.flatten ∧ blocks.length = pieces.length ∧
      ∀ block ∈ blocks, block.length = k.size := by
  induction pieces generalizing out d d' with
  | nil =>
    cases h
    exact ⟨[], rfl, rfl, by simp⟩
  | cons piece pieces ih =>
    obtain ⟨block, d₁, hblock, hrest⟩ := Draws.exists_of_run_andThen h
    obtain ⟨rest, d₂, hblocks, hlast⟩ := Draws.exists_of_run_andThen hrest
    obtain ⟨blocks, rfl, hcount, hsize⟩ := ih hblocks
    cases hlast
    refine ⟨block :: blocks, rfl, by rw [List.length_cons, hcount, List.length_cons], ?_⟩
    exact List.forall_mem_cons.mpr ⟨length_of_sealBlock hblock, hsize⟩

theorem pieceLength_pos (hroom : overhead < k.size) : 0 < k.pieceLength := by
  rw [pieceLength_of_le hroom.le]
  omega

theorem exists_blocks_of_encrypt (hroom : overhead < k.size) {data out : Bytes} {d d' : Draws}
    (h : (k.encrypt data).run d = (.ok out, d')) :
    ∃ blocks : List Bytes, out = blocks.flatten ∧
      blocks.length = data.length ⌈/⌉ (k.size - overhead) ∧
      ∀ block ∈ blocks, block.length = k.size := by
  rw [encrypt, if_neg (pieceLength_pos hroom).ne'] at h
  obtain ⟨blocks, hout, hcount, hsize⟩ := exists_blocks_of_sealPieces h
  refine ⟨blocks, hout, ?_, hsize⟩
  rw [hcount, Bytes.length_chunks (pieceLength_pos hroom), pieceLength_of_le hroom.le]

theorem length_of_encrypt (hroom : overhead < k.size) {data out : Bytes} {d d' : Draws}
    (h : (k.encrypt data).run d = (.ok out, d')) :
    out.length = k.size * (data.length ⌈/⌉ (k.size - overhead)) := by
  obtain ⟨blocks, rfl, hcount, hsize⟩ := exists_blocks_of_encrypt hroom h
  rw [Bytes.length_flatten_of_forall hsize, hcount, Nat.mul_comm]

end Sealing

/-! ## Opening -/

section Opening

variable {l : RsaKeys}

theorem openBlocks_append (front back : List Bytes) :
    l.openBlocks (front ++ back) = (do
      let data ← l.openBlocks front
      let rest ← l.openBlocks back
      .ok (data ++ rest)) := by
  induction front with
  | nil =>
    change _ = l.openBlocks back >>= fun rest => .ok rest
    exact (bind_pure (l.openBlocks back)).symm
  | cons block front ih =>
    rw [List.cons_append, openBlocks, openBlocks, ih]
    simp only [bind_assoc]
    refine bind_congr fun data => bind_congr fun rest => ?_
    change _ = l.openBlocks back >>= fun rest' => .ok (data ++ rest ++ rest')
    simp only [List.append_assoc]
    rfl

/-- Opening fails at a block with only blocks that open before it, and with the error of that
block. -/
theorem openBlocks_eq_error_iff {blocks : List Bytes} {e : CipherError} :
    l.openBlocks blocks = .error e ↔
      ∃ front block back, blocks = front ++ block :: back ∧
        (∀ b ∈ front, ∃ data, l.openBlock b = .ok data) ∧ l.openBlock block = .error e := by
  induction blocks with
  | nil => simp [openBlocks]
  | cons first blocks ih =>
    rcases hfirst : l.openBlock first with failure | data
    · rw [openBlocks, bind_of_error hfirst, Except.error.injEq]
      constructor
      · rintro rfl
        exact ⟨[], first, blocks, rfl, by simp, hfirst⟩
      · rintro ⟨front, block, back, hsplit, hfront, hblock⟩
        cases front with
        | nil =>
          cases hsplit
          rw [hfirst] at hblock
          exact Except.error.inj hblock
        | cons b front =>
          cases hsplit
          obtain ⟨data, hb⟩ := hfront _ List.mem_cons_self
          rw [hfirst] at hb
          cases hb
    · have hrest : l.openBlocks (first :: blocks) = .error e ↔ l.openBlocks blocks = .error e := by
        rw [openBlocks, bind_of_ok hfirst]
        cases l.openBlocks blocks <;> simp [bind, Except.bind]
      rw [hrest, ih]
      constructor
      · rintro ⟨front, block, back, rfl, hfront, hblock⟩
        exact ⟨first :: front, block, back, rfl,
          List.forall_mem_cons.mpr ⟨⟨data, hfirst⟩, hfront⟩, hblock⟩
      · rintro ⟨front, block, back, hsplit, hfront, hblock⟩
        cases front with
        | nil =>
          cases hsplit
          rw [hfirst] at hblock
          cases hblock
        | cons b front =>
          cases hsplit
          exact ⟨front, block, back, rfl, (List.forall_mem_cons.mp hfront).2, hblock⟩

/-- A block of a client is as long as the modulus, if it opens. -/
theorem length_of_openPublic {k : RsaPublic} {block data : Bytes}
    (h : openPublic k block = .ok data) : block.length = k.size := by
  by_contra hne
  rw [openPublic_of_unfit (.inl hne)] at h
  cases h

theorem exists_error_of_openBlocks {blocks : List Bytes} {block : Bytes} (hmem : block ∈ blocks)
    (h : ∀ data, l.openBlock block ≠ .ok data) : ∃ e, l.openBlocks blocks = .error e := by
  induction blocks with
  | nil => cases hmem
  | cons first blocks ih =>
    rcases hfirst : l.openBlock first with failure | data
    · exact ⟨failure, by rw [openBlocks, bind_of_error hfirst]⟩
    · rcases List.mem_cons.mp hmem with rfl | hmem
      · exact absurd hfirst (h data)
      · obtain ⟨e, hblocks⟩ := ih hmem
        exact ⟨e, by rw [openBlocks, bind_of_ok hfirst, bind_of_error hblocks]⟩

theorem decrypt_of_size_pos (hsize : 0 < l.size) (data : Bytes) :
    l.decrypt data = l.openBlocks (Bytes.chunks l.size data) := if_neg hsize.ne'

/-- A client opens whole blocks only. -/
theorem exists_error_of_decrypt (hsecret : l.secret = none) (hsize : 0 < l.size) {data : Bytes}
    (huneven : data.length % l.size ≠ 0) : ∃ e, l.decrypt data = .error e := by
  obtain ⟨block, hmem, hlength⟩ : ∃ block ∈ Bytes.chunks l.size data, block.length ≠ l.size := by
    by_contra! hall
    exact huneven (Bytes.mod_eq_zero_of_length_chunks hsize hall)
  rw [decrypt_of_size_pos hsize]
  refine exists_error_of_openBlocks hmem fun out hopen => hlength ?_
  rw [openBlock, hsecret] at hopen
  exact length_of_openPublic hopen

end Opening

/-! ## Parties -/

/-- The holder of `k` seals every payload in the least number of blocks that have room for it, and
the holder of `l` reads it from these. -/
def SendsTo (k l : RsaKeys) : Prop :=
  ∀ (data : Bytes) (d : Draws), ∃ (blocks : List Bytes) (d' : Draws),
    (k.encrypt data).run d = (.ok blocks.flatten, d') ∧
      blocks.length = data.length ⌈/⌉ (k.size - 11) ∧ (∀ block ∈ blocks, block.length = k.size) ∧
      l.decrypt blocks.flatten = .ok data

/-- A party opens one block after the other until one does not open. -/
structure ReadsByBlock (l : RsaKeys) : Prop where
  decrypt_append : ∀ front back : Bytes, front.length % l.size = 0 →
    l.decrypt (front ++ back) = do
      let data ← l.decrypt front
      let rest ← l.decrypt back
      return data ++ rest
  decrypt_eq_error_iff : ∀ (data : Bytes) (e : CipherError), l.decrypt data = .error e ↔
    ∃ front block back, Bytes.chunks l.size data = front ++ block :: back ∧
      (∀ b ∈ front, ∃ out, l.openBlock b = .ok out) ∧ l.openBlock block = .error e

theorem OpenedBy.sendsTo {k l : RsaKeys} (h : k.OpenedBy l) (hroom : overhead < k.size) :
    k.SendsTo l := by
  intro data d
  obtain ⟨out, d', hrun⟩ := h.exists_encrypt hroom data d
  obtain ⟨blocks, rfl, hcount, hsize⟩ := exists_blocks_of_encrypt hroom hrun
  exact ⟨blocks, d', hrun, hcount, hsize, h.decrypt_of_encrypt hrun⟩

theorem readsByBlock_of_size_pos {l : RsaKeys} (hsize : 0 < l.size) : l.ReadsByBlock where
  decrypt_append front back hwhole := by
    simp only [decrypt_of_size_pos hsize, Bytes.chunks_append_of_mod_eq_zero hwhole]
    exact openBlocks_append _ _
  decrypt_eq_error_iff data e := by
    rw [decrypt_of_size_pos hsize]
    exact openBlocks_eq_error_iff

/-- The holders of a pair exchange payloads of every length, and both read block by block. What is
no whole number of blocks is refused by the client. -/
theorem IsPair.exchanges_payloads {k : RsaKeys} (h : k.IsPair) (hroom : 12 ≤ k.size) :
    k.SendsTo k.toPublic ∧ k.toPublic.SendsTo k ∧ k.ReadsByBlock ∧ k.toPublic.ReadsByBlock ∧
      ∀ data : Bytes, data.length % k.size ≠ 0 → ∃ e, k.toPublic.decrypt data = .error e := by
  have hsize : 0 < k.size := by omega
  exact ⟨h.openedBy_toPublic.sendsTo hroom, h.toPublic_openedBy.sendsTo hroom,
    readsByBlock_of_size_pos hsize, readsByBlock_of_size_pos hsize,
    fun _ => exists_error_of_decrypt (l := k.toPublic) rfl hsize⟩

/-- A hundred bytes take seven blocks of 27. The client refuses 28 bytes. -/
theorem exchanges_payloads_mersennePair :
    mersennePair.IsPair ∧ 12 ≤ mersennePair.size ∧
    (∃ (blocks : List Bytes) (d' : Draws),
      (mersennePair.toPublic.encrypt (List.replicate 100 7)).run ⟨id, 0⟩ =
        (.ok blocks.flatten, d') ∧ blocks.length = 7 ∧
      mersennePair.decrypt blocks.flatten = .ok (List.replicate 100 7)) ∧
    ∃ e, mersennePair.toPublic.decrypt (List.replicate 28 7) = .error e := by
  have hroom : 12 ≤ mersennePair.size := by
    rw [size_mersennePair]
    decide
  obtain ⟨-, hreply, -, -, huneven⟩ := isPair_mersennePair.exchanges_payloads hroom
  obtain ⟨blocks, d', hrun, hcount, -, hopen⟩ := hreply (List.replicate 100 7) ⟨id, 0⟩
  have hsize : mersennePair.toPublic.size = 27 := size_mersennePair
  refine ⟨isPair_mersennePair, hroom, ⟨blocks, d', hrun, ?_, hopen⟩, huneven _ ?_⟩
  · rw [hcount, hsize, List.length_replicate]
    rfl
  · rw [size_mersennePair, List.length_replicate]
    decide

end RsaKeys
end SealedHttp
