import SealedHttp.Proofs.Cipher.RsaPayloads
import SealedHttp.Proofs.Envelope.Crashes
import SealedHttp.Proofs.Envelope.RoundTrip

/-!
# Lengths of sealed payloads

How long a sealed payload is follows from the length of the data, the chain and the size of the
modulus. No step looks at the bytes for it, at the draws or at the part that the holder plays. A
step fails only on a private exponent that does not belong to the modulus, provided the passphrase
is usable and a message key fits into a block.
-/

namespace SealedHttp

theorem Base64.length_encode (bs : Bytes) : (encode bs).length = 4 * (bs.length ⌈/⌉ 3) := by
  fun_induction encode bs with
  | case4 a b c rest n ih =>
    simp only [List.length_cons, ih, Nat.ceilDiv_eq_add_pred_div]
    omega
  | _ => simp [Nat.ceilDiv_eq_add_pred_div]

theorem Aes.length_of_encrypt {key data out : Bytes} (h : encrypt key data = .ok out) :
    out.length = 16 * (data.length / 16 + 1) := by
  rw [encrypt] at h
  split at h
  · cases h
    have hfill := length_fill data
    rw [length_mapBlocks _ (by rw [hfill]; exact Nat.mul_mod_right _ _), hfill]
    rfl
  · cases h

theorem Aes.avoids_encrypt_of_isKeyLength {key : Bytes} (hkey : isKeyLength key.length)
    (data : Bytes) (e : CipherError) : Avoids e (encrypt key data) := by
  rw [encrypt, if_pos hkey]
  exact .ok _

namespace RsaKeys

variable {k : RsaKeys} {e : CipherError}

/-- Keys of a server are consistent if its private exponent belongs to the public one. Keys of a
client always are. -/
def Consistent (k : RsaKeys) : Prop := ∀ d, k.secret = some d → k.shared.IsUndoneBy d

theorem IsPair.consistent (h : k.IsPair) : k.Consistent := by
  obtain ⟨d, hsecret, hundone⟩ := h
  intro d' hsecret'
  rw [hsecret] at hsecret'
  cases hsecret'
  exact hundone

theorem consistent_toPublic (k : RsaKeys) : k.toPublic.Consistent := nofun

/-! ## Blocks -/

/-- Data that fits into a block is sealed, unless the private exponent turns out wrong. -/
theorem avoids_sealBlock_of_le (he : e = .rsa .inconsistent → k.Consistent) {data : Bytes}
    (hfits : data.length + overhead ≤ k.size) (d : Draws) :
    Avoids e ((k.sealBlock data).run d).1 := by
  by_cases hconsistent : k.Consistent
  · rcases hsecret : k.secret with _ | x
    · obtain ⟨filler, d', hrun, -⟩ := run_sealBlock_of_public hsecret hfits d
      rw [hrun]
      exact .ok _
    · rw [run_sealBlock_of_secret hsecret (hconsistent x hsecret) hfits]
      exact .ok _
  · have hne : CipherError.rsa .inconsistent ≠ e := fun heq => hconsistent (he heq.symm)
    rw [sealBlock, if_neg (by omega)]
    split
    · refine Avoids.bind ?_ fun _ => .ok _
      rw [lower]
      split
      · exact .ok _
      · exact .error hne
    · exact .ok _

theorem avoids_encrypt_of_lt (he : e = .rsa .inconsistent → k.Consistent)
    (hroom : overhead < k.size) (data : Bytes) (d : Draws) :
    Avoids e ((k.encrypt data).run d).1 := by
  rw [encrypt, if_neg (pieceLength_pos hroom).ne']
  refine avoids_sealPieces_of_forall (fun piece hpiece => ?_) d
  have hle := Bytes.length_le_of_mem_chunks hpiece
  rw [pieceLength_of_le hroom.le] at hle
  exact avoids_sealBlock_of_le he (by omega)

end RsaKeys

namespace KeyRing

variable {ring : KeyRing} {e : CipherError}

/-- A ring with which no step of a chain runs out of room or finds the passphrase unusable. -/
structure IsUsable (ring : KeyRing) : Prop where
  isKeyLength : Aes.isKeyLength ring.passphrase.length
  room : Draws.messageKeyLength + RsaKeys.overhead ≤ ring.rsa.size

theorem IsUsable.overhead_lt (h : ring.IsUsable) : RsaKeys.overhead < ring.rsa.size :=
  h.room.trans_lt' (by decide)

theorem IsUsable.avoids_hybridEncrypt (h : ring.IsUsable)
    (he : e = .rsa .inconsistent → ring.rsa.Consistent) (data : Bytes) (d : Draws) :
    Avoids e ((ring.hybridEncrypt data).run d).1 := by
  have hlength := d.length_nextKey
  have hfits : d.nextKey.length + RsaKeys.overhead ≤ ring.rsa.size := by
    rw [hlength]
    exact h.room
  have hkey : Aes.isKeyLength d.nextKey.length := by
    rw [hlength]
    rfl
  have hdata : Avoids e ((pure (Aes.encrypt d.nextKey data) :
      StateM Draws (Except CipherError Bytes)).run (Draws.messageKey.run d).2).1 := by
    rw [Draws.run_pure]
    exact Aes.avoids_encrypt_of_isKeyLength hkey data e
  rw [hybridEncrypt, StateT.run_bind]
  exact hdata.andThen fun _ d =>
    (RsaKeys.avoids_sealBlock_of_le he hfits d).andThen fun _ _ => .ok _

end KeyRing

namespace SealStep

variable {ring : KeyRing} {e : CipherError}

/-- How long the output of a step is under a modulus of `k` bytes, from the length of its input. -/
def lengthAfter (k n : Nat) : SealStep → Nat
  | aes | hybrid => 16 * (n / 16 + 1)
  | base64 => 4 * (n ⌈/⌉ 3)
  | rsa => k * (n ⌈/⌉ (k - 11))
  | hex => 2 * n

theorem length_of_apply (hring : ring.IsUsable) {step : SealStep} {data out : Bytes}
    {fresh : Option String} {d d' : Draws}
    (h : (step.apply ring data).run d = (.ok (out, fresh), d')) :
    out.length = step.lengthAfter ring.rsa.size data.length := by
  cases step with
  | aes =>
    rw [apply, Draws.run_pure, Prod.mk.injEq] at h
    obtain ⟨ct, hct, heq⟩ := exists_of_map_eq_ok h.1
    cases heq
    exact Aes.length_of_encrypt hct
  | base64 =>
    cases h
    exact Base64.length_encode data
  | hybrid =>
    obtain ⟨_, -, hrun⟩ := exists_of_apply_hybrid h
    obtain ⟨_, _, hct, -, -⟩ := KeyRing.exists_of_hybridEncrypt hrun
    exact Aes.length_of_encrypt hct
  | rsa =>
    obtain ⟨ct, hct, heq⟩ := Draws.exists_of_run_map h
    cases heq
    exact RsaKeys.length_of_encrypt hring.overhead_lt hct
  | hex =>
    cases h
    exact Hex.length_encode data

theorem avoids_apply_of_isUsable (hring : ring.IsUsable)
    (he : e = .rsa .inconsistent → ring.rsa.Consistent) (step : SealStep) (data : Bytes)
    (d : Draws) : Avoids e ((step.apply ring data).run d).1 := by
  cases step with
  | aes => exact (Aes.avoids_encrypt_of_isKeyLength hring.isKeyLength data e).map _
  | base64 => exact .ok _
  | hybrid => exact (hring.avoids_hybridEncrypt he data d).map _
  | rsa => exact (RsaKeys.avoids_encrypt_of_lt he hring.overhead_lt data d).map _
  | hex => exact .ok _

/-- A chain folds the lengths after its steps, whatever they draw. -/
theorem length_of_applyAll (hring : ring.IsUsable) {steps : List SealStep} {data out : Bytes}
    {key final : Option String} {d d' : Draws}
    (h : (applyAll ring steps data key).run d = (.ok (out, final), d')) :
    out.length = steps.foldl (lengthAfter ring.rsa.size) data.length := by
  induction steps generalizing data key d with
  | nil =>
    cases h
    rfl
  | cons step steps ih =>
    obtain ⟨⟨mid, fresh⟩, d₁, hstep, hsteps⟩ := Draws.exists_of_run_andThen h
    rw [ih hsteps, length_of_apply hring hstep, List.foldl_cons]

theorem filterMap_ofCode?_of_parseList {cs : List Char} {steps : List SealStep}
    (h : parseList cs = .ok steps) : cs.filterMap ofCode? = steps := by
  have hcodes : ofCode? ∘ code = some := funext ofCode?_code
  rw [← map_code_of_parseList h, List.filterMap_map, hcodes, List.filterMap_some]

end SealStep

namespace Envelope

/-- How long data of `n` bytes is when the steps of a chain were applied to it, under a modulus of
`k` bytes. -/
def sealedLength (k : Nat) (chain : String) (n : Nat) : Nat :=
  (chain.toList.filterMap SealStep.ofCode?).foldl (SealStep.lengthAfter k) n

theorem compressed_of_raw {kind : Compression} {minSize : Nat} {data : Bytes}
    (hraw : kind = .none ∨ data.length < minSize) :
    compressed kind minSize data = .ok (data, .none, none) := by
  have hcompresses : compresses kind minSize data = false := by
    rw [compresses]
    rcases hraw with rfl | hshort
    · rfl
    · simp [hshort]
  rw [compressed, hcompresses]
  rfl

/-- Data that is not compressed is sealed to a payload of the length that the chain says. If it is
not, the private exponent does not belong to the modulus, and the data is handed back. -/
theorem length_payload_encode {ring : KeyRing} (hkey : Aes.isKeyLength ring.passphrase.length)
    (hsize : 27 ≤ ring.rsa.size) {chain : String}
    (hchain : ∀ c ∈ chain.toList, c ∈ ['a', 'b', 'c', 'r', 'h']) {kind : Compression}
    {minSize : Nat} {data : Bytes} (hraw : kind = .none ∨ data.length < minSize) (d : Draws) :
    (∃ e, ((encode ring data chain kind minSize).run d).1 = .done e ∧
      e.payload.length = sealedLength ring.rsa.size chain data.length) ∨
    (¬ring.rsa.Consistent ∧ ((encode ring data chain kind minSize).run d).1 =
      .degraded ⟨data, .cipher (.rsa .inconsistent)⟩) := by
  have hring : ring.IsUsable := ⟨hkey, hsize⟩
  obtain ⟨steps, hsteps⟩ := SealStep.exists_parseList hchain
  rw [run_encode, run_tryEncode hsteps (compressed_of_raw hraw)]
  rcases happly : (SealStep.applyAll ring steps data none).run d with ⟨failure | ⟨out, key⟩, d'⟩
  · right
    have hfailure : ¬(failure = .rsa .inconsistent → ring.rsa.Consistent) := by
      intro he
      have havoids := SealStep.avoids_applyAll_of_forall
        (SealStep.avoids_apply_of_isUsable hring he) steps data none d
      rw [happly] at havoids
      exact havoids rfl
    obtain ⟨rfl, hconsistent⟩ := Classical.not_imp.mp hfailure
    exact ⟨hconsistent, rfl⟩
  · left
    refine ⟨_, rfl, ?_⟩
    rw [sealedLength, SealStep.filterMap_ofCode?_of_parseList hsteps]
    exact SealStep.length_of_applyAll hring happly

/-- A chain with two hybrid steps, applied by a server and by its client. -/
theorem length_payload_encode_shortestRing :
    (∃ e, ((encode shortestRing (List.replicate 40 7) "crabhc" .none 0).run ⟨id, 0⟩).1 = .done e ∧
      e.payload.length = 272) ∧
    ∃ e, ((encode shortestRing.clientRing (List.replicate 40 7) "crabhc" .none 0).run
        ⟨id, 0⟩).1 = .done e ∧
      e.payload.length = 272 := by
  have hchain : ∀ c ∈ "crabhc".toList, c ∈ ['a', 'b', 'c', 'r', 'h'] := by simp
  have hraw : Compression.none = .none ∨ (List.replicate 40 7 : Bytes).length < 0 := .inl rfl
  have hlength : sealedLength 27 "crabhc" 40 = 272 := by decide +kernel
  have hdone (ring : KeyRing) (hkey : Aes.isKeyLength ring.passphrase.length)
      (hsize : ring.rsa.size = 27) (hconsistent : ring.rsa.Consistent) :
      ∃ e, ((encode ring (List.replicate 40 7) "crabhc" .none 0).run ⟨id, 0⟩).1 = .done e ∧
        e.payload.length = 272 := by
    have hresult := (length_payload_encode hkey hsize.ge hchain hraw ⟨id, 0⟩).resolve_right
      fun hfailed => hfailed.1 hconsistent
    rwa [hsize, List.length_replicate, hlength] at hresult
  have hkey : Aes.isKeyLength shortestRing.passphrase.length := by decide +kernel
  exact ⟨hdone _ hkey RsaKeys.size_mersennePair RsaKeys.isPair_mersennePair.consistent,
    hdone _ hkey RsaKeys.size_mersennePair (RsaKeys.consistent_toPublic _)⟩

end Envelope
end SealedHttp
