import SealedHttp.Envelope.Sealing

/-!
# Which transforms crash

Only an RSA step can crash: opening does so under a modulus of no bytes, and sealing under one that
is exactly as long as the overhead of a block. With any other modulus, a transform succeeds or hands
back what it was given.
-/

namespace SealedHttp

/-- A step that does not end with the error `e`. -/
def Avoids {ε α : Type} (e : ε) (x : Except ε α) : Prop := x ≠ .error e

namespace Avoids

variable {α β ε δ : Type} {e : ε}

theorem ok (a : α) : Avoids e (.ok a) := nofun

theorem error {failure : ε} (h : failure ≠ e) : Avoids e (.error failure : Except ε α) :=
  fun heq => h (Except.error.inj heq)

theorem bind {x : Except ε α} {f : α → Except ε β} (hx : Avoids e x) (hf : ∀ a, Avoids e (f a)) :
    Avoids e (x >>= f) := by
  cases x with
  | error failure => exact error fun h => hx (congrArg Except.error h)
  | ok a => exact hf a

theorem mapError {x : Except δ α} {g : δ → ε} (hg : ∀ failure, x = .error failure → g failure ≠ e) :
    Avoids e (x.mapError g) := by
  cases x with
  | error failure => exact error (hg failure rfl)
  | ok a => exact ok a

theorem map {x : Except ε α} (hx : Avoids e x) (f : α → β) : Avoids e (x.map f) := by
  cases x with
  | error failure => exact error fun h => hx (congrArg Except.error h)
  | ok a => exact ok (f a)

/-- The same for steps that take draws. -/
theorem andThen {x : StateM Draws (Except ε α)} {f : α → StateM Draws (Except ε β)} {d : Draws}
    (hx : Avoids e (x.run d).1) (hf : ∀ a d, Avoids e ((f a).run d).1) :
    Avoids e ((Draws.andThen x f).run d).1 := by
  rw [Draws.andThen, StateT.run_bind]
  rcases hrun : x.run d with ⟨failure | a, d'⟩
  · rw [hrun] at hx
    exact error fun h => hx (congrArg Except.error h)
  · exact hf a d'

end Avoids

/-! ## Opening, step by step -/

theorem Aes.avoids_encrypt (key data : Bytes) : Avoids .noRoom (encrypt key data) := by
  rw [encrypt]
  split <;> exact nofun

theorem Aes.avoids_decrypt (key data : Bytes) : Avoids .noRoom (decrypt key data) := by
  rw [decrypt]
  split
  · exact nofun
  · split
    · split <;> exact nofun
    · exact nofun

namespace RsaKeys

theorem avoids_lower (k : RsaPublic) (d c : Nat) : Avoids .noRoom (lower k d c) := by
  rw [lower]
  split <;> exact nofun

theorem avoids_openPrivate (k : RsaPublic) (d : Nat) (block : Bytes) :
    Avoids .noRoom (openPrivate k d block) := by
  rw [openPrivate]
  split
  · exact nofun
  · refine (avoids_lower k d _).bind ?_
    intro m
    split
    · split <;> exact nofun
    · exact nofun

theorem avoids_openPublic (k : RsaPublic) (block : Bytes) :
    Avoids .noRoom (openPublic k block) := by
  rw [openPublic]
  split
  · exact nofun
  · split <;> exact nofun

theorem avoids_openBlock (k : RsaKeys) (block : Bytes) : Avoids .noRoom (k.openBlock block) := by
  rw [openBlock]
  split
  · exact avoids_openPrivate _ _ _
  · exact avoids_openPublic _ _

theorem avoids_openBlocks (k : RsaKeys) (blocks : List Bytes) :
    Avoids .noRoom (k.openBlocks blocks) := by
  induction blocks with
  | nil => exact .ok _
  | cons block blocks ih => exact (avoids_openBlock k block).bind fun _ => ih.bind fun _ => .ok _

theorem avoids_decrypt {k : RsaKeys} (hsize : k.size ≠ 0) (data : Bytes) :
    Avoids .noRoom (k.decrypt data) := by
  rw [decrypt, if_neg hsize]
  exact avoids_openBlocks k _

end RsaKeys

theorem KeyRing.avoids_hybridDecrypt (ring : KeyRing) (data : Bytes) (key : String) :
    Avoids .noRoom (ring.hybridDecrypt data key) := by
  have hkey : Avoids CipherError.noRoom
      ((Base64.decode (Bytes.ofText (Text.trim key))).mapError CipherError.base64) :=
    Avoids.mapError fun _ _ => nofun
  apply hkey.bind
  intro wrapped
  exact (RsaKeys.avoids_openBlock ring.rsa wrapped).bind fun k => Aes.avoids_decrypt k data

/-! ## Sealing, step by step -/

namespace RsaKeys

theorem pieceLength_ne_zero {k : RsaKeys} (hsize : k.size ≠ overhead) : k.pieceLength ≠ 0 := by
  have hoverhead : overhead = 11 := rfl
  rw [pieceLength]
  split <;> omega

theorem avoids_sealBlock (k : RsaKeys) (data : Bytes) (d : Draws) :
    Avoids .noRoom ((k.sealBlock data).run d).1 := by
  rw [sealBlock]
  split
  · exact nofun
  · split
    · exact (avoids_lower _ _ _).bind fun c => .ok _
    · exact .ok _

/-- Pieces are sealed one after the other, so that only a piece can fail. -/
theorem avoids_sealPieces_of_forall {k : RsaKeys} {e : CipherError} {pieces : List Bytes}
    (h : ∀ piece ∈ pieces, ∀ d, Avoids e ((k.sealBlock piece).run d).1) (d : Draws) :
    Avoids e ((k.sealPieces pieces).run d).1 := by
  induction pieces generalizing d with
  | nil => exact .ok _
  | cons piece pieces ih =>
    rw [List.forall_mem_cons] at h
    exact (h.1 d).andThen fun _ d => (ih h.2 d).andThen fun _ _ => .ok _

theorem avoids_encrypt {k : RsaKeys} (hsize : k.size ≠ overhead) (data : Bytes) (d : Draws) :
    Avoids .noRoom ((k.encrypt data).run d).1 := by
  rw [encrypt, if_neg (pieceLength_ne_zero hsize)]
  exact avoids_sealPieces_of_forall (fun piece _ => avoids_sealBlock k piece) d

end RsaKeys

theorem KeyRing.avoids_hybridEncrypt (ring : KeyRing) (data : Bytes) (d : Draws) :
    Avoids .noRoom ((ring.hybridEncrypt data).run d).1 := by
  rw [hybridEncrypt, StateT.run_bind]
  have hdata : ∀ key d', Avoids .noRoom
      ((pure (Aes.encrypt key data) : StateM Draws (Except CipherError Bytes)).run d').1 :=
    fun key _ => Aes.avoids_encrypt key data
  exact (hdata _ _).andThen fun _ d =>
    (RsaKeys.avoids_sealBlock ring.rsa _ d).andThen fun _ _ => .ok _

/-! ## Chains -/

namespace SealStep

theorem avoids_undo {ring : KeyRing} (hsize : ring.rsa.size ≠ 0) (key : Option String)
    (data : Bytes) (step : SealStep) : Avoids .noRoom (step.undo ring key data) := by
  cases step with
  | aes => exact Aes.avoids_decrypt _ _
  | base64 => exact Avoids.mapError fun _ _ => nofun
  | hybrid => cases key with
    | none => exact nofun
    | some text => exact KeyRing.avoids_hybridDecrypt ring data text
  | rsa => exact RsaKeys.avoids_decrypt hsize data
  | hex => exact Avoids.mapError fun _ _ => nofun

theorem avoids_undoAll {ring : KeyRing} (hsize : ring.rsa.size ≠ 0) (key : Option String)
    (steps : List SealStep) (data : Bytes) : Avoids .noRoom (undoAll ring key steps data) := by
  induction steps with
  | nil => exact .ok data
  | cons step steps ih => exact ih.bind fun _ => avoids_undo hsize key _ step

theorem avoids_apply_of_ne_rsa {step : SealStep} (hstep : step ≠ rsa) (ring : KeyRing)
    (data : Bytes) (d : Draws) : Avoids .noRoom ((step.apply ring data).run d).1 := by
  cases step with
  | aes => exact (Aes.avoids_encrypt _ _).map _
  | base64 => exact .ok _
  | hybrid => exact (KeyRing.avoids_hybridEncrypt ring data d).map _
  | rsa => exact absurd rfl hstep
  | hex => exact .ok _

theorem avoids_apply {ring : KeyRing} (hsize : ring.rsa.size ≠ RsaKeys.overhead) (data : Bytes)
    (step : SealStep) (d : Draws) : Avoids .noRoom ((step.apply ring data).run d).1 := by
  by_cases hstep : step = rsa
  · subst hstep
    exact (RsaKeys.avoids_encrypt hsize data d).map _
  · exact avoids_apply_of_ne_rsa hstep ring data d

/-- A chain fails only as one of its steps does. -/
theorem avoids_applyAll_of_forall {ring : KeyRing} {e : CipherError}
    (h : ∀ step data d, Avoids e ((SealStep.apply ring data step).run d).1) (steps : List SealStep)
    (data : Bytes) (key : Option String) (d : Draws) :
    Avoids e ((applyAll ring steps data key).run d).1 := by
  induction steps generalizing data key d with
  | nil => exact .ok _
  | cons step steps ih => exact (h step data d).andThen fun _ d => ih _ _ d

theorem avoids_applyAll {ring : KeyRing} (hsize : ring.rsa.size ≠ RsaKeys.overhead)
    (steps : List SealStep) (data : Bytes) (key : Option String) (d : Draws) :
    Avoids .noRoom ((applyAll ring steps data key).run d).1 :=
  avoids_applyAll_of_forall (fun step data d => avoids_apply hsize data step d) steps data key d

end SealStep

namespace Envelope

/-- A transform that avoids the crash gives a result or hands back what it was given. -/
theorem ofExcept_of_avoids {α : Type} {x : Except EnvelopeError α}
    (havoids : Avoids (.cipher .noRoom) x) (payload : Bytes) :
    (∃ result, Transformed.ofExcept payload x = .done result) ∨
      ∃ failure, Transformed.ofExcept payload x = .degraded ⟨payload, failure⟩ := by
  cases x with
  | ok result => exact .inl ⟨result, rfl⟩
  | error failure =>
    refine .inr ⟨failure, ?_⟩
    rw [Transformed.ofExcept.eq_def]
    split
    · next heq => cases heq
    · next heq => exact absurd heq havoids
    · next heq => cases heq; rfl

theorem avoids_parseChain (chain : String) :
    Avoids (EnvelopeError.cipher .noRoom) (parseChain chain) :=
  Avoids.mapError fun _ _ => nofun

theorem avoids_mapError_cipher {α : Type} {x : Except CipherError α} (hx : Avoids .noRoom x) :
    Avoids (EnvelopeError.cipher .noRoom) (x.mapError .cipher) := by
  apply Avoids.mapError
  intro failure hfailure heq
  have hroom : failure = .noRoom := EnvelopeError.cipher.inj heq
  rw [hroom] at hfailure
  exact hx hfailure

theorem parseChain_eq_ok_iff {chain : String} {steps : List SealStep} :
    parseChain chain = .ok steps ↔ SealStep.parse chain = .ok steps := by
  rw [parseChain]
  rcases SealStep.parse chain with c | steps'
  · constructor <;> intro h <;> cases h
  · constructor <;> intro h <;> cases h <;> rfl

/-- Before the steps are applied, nothing can crash. -/
theorem avoids_tryEncode_of_applyAll {ring : KeyRing} {data : Bytes} {chain : String}
    {kind : Compression} {minSize : Nat} {d : Draws}
    (h : ∀ steps packed, parseChain chain = .ok steps → compressed kind minSize data = .ok packed →
      Avoids .noRoom ((SealStep.applyAll ring steps packed.1 none).run d).1) :
    Avoids (.cipher .noRoom) ((tryEncode ring data chain kind minSize).run d).1 := by
  have hparse := avoids_parseChain chain
  rw [tryEncode]
  split
  · next failure heq =>
    rw [heq] at hparse
    exact .error fun h => hparse (congrArg Except.error h)
  · next steps hsteps =>
    split
    · exact nofun
    · next out applied length hpacked =>
      exact (avoids_mapError_cipher (h steps (out, applied, length) hsteps hpacked)).map _

theorem avoids_tryEncode {ring : KeyRing} (hsize : ring.rsa.size ≠ RsaKeys.overhead) (data : Bytes)
    (chain : String) (kind : Compression) (minSize : Nat) (d : Draws) :
    Avoids (.cipher .noRoom) ((tryEncode ring data chain kind minSize).run d).1 :=
  avoids_tryEncode_of_applyAll fun steps packed _ _ =>
    SealStep.avoids_applyAll hsize steps packed.1 none d

theorem encode_of_size_ne_overhead {ring : KeyRing} (hsize : ring.rsa.size ≠ RsaKeys.overhead)
    (data : Bytes) (chain : String) (kind : Compression) (minSize : Nat) (d : Draws) :
    (∃ e, ((encode ring data chain kind minSize).run d).1 = .done e) ∨
      ∃ failure, ((encode ring data chain kind minSize).run d).1 = .degraded ⟨data, failure⟩ :=
  ofExcept_of_avoids (avoids_tryEncode hsize data chain kind minSize d) data

theorem avoids_tryDecode {ring : KeyRing} (hsize : ring.rsa.size ≠ 0) (e : Envelope) :
    Avoids (.cipher .noRoom) (tryDecode ring e) := by
  apply (avoids_parseChain e.chain).bind
  intro steps
  apply (avoids_mapError_cipher (SealStep.avoids_undoAll hsize _ _ _)).bind
  intro data
  split
  · exact .ok data
  · exact Avoids.mapError fun _ _ => nofun

theorem decode_of_size_ne_zero {ring : KeyRing} (hsize : ring.rsa.size ≠ 0) (e : Envelope) :
    (∃ data, e.decode ring = .done data) ∨
      ∃ failure, e.decode ring = .degraded ⟨e.payload, failure⟩ := by
  rw [decode]
  split
  · exact ofExcept_of_avoids (avoids_tryDecode hsize e) e.payload
  · exact .inl ⟨_, rfl⟩

end Envelope
end SealedHttp
