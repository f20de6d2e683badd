import SealedHttp.Envelope.Sealing
import SealedHttp.Proofs.Cipher.Aes
import SealedHttp.Proofs.Cipher.Rsa
import SealedHttp.Proofs.Text.Armor
import SealedHttp.Proofs.Text.Trimming

/-!
# Chains of sealing steps

Every step that one party applies is undone by the other one, and so is a chain of steps, from the
right. All hybrid steps of a chain share one place for their wrapped key. What they left there opens
to the last message key alone, so that the others must be the same for the chain to be undone.
-/

namespace SealedHttp

namespace KeyRing

/-- The holder of `peer` opens what the holder of `ring` seals. -/
structure OpenedBy (ring peer : KeyRing) : Prop where
  passphrase_eq : peer.passphrase = ring.passphrase
  rsa : ring.rsa.OpenedBy peer.rsa

theorem openedBy_clientRing {ring : KeyRing} (h : ring.rsa.IsPair) :
    ring.OpenedBy ring.clientRing := ⟨rfl, h.openedBy_toPublic⟩

theorem clientRing_openedBy {ring : KeyRing} (h : ring.rsa.IsPair) :
    ring.clientRing.OpenedBy ring := ⟨rfl, h.toPublic_openedBy⟩

theorem trim_base64 (bs : Bytes) : Text.trim (Base64.text bs) = Base64.text bs :=
  Text.trim_of_forall fun _ hc => (Base64.isGraphic_of_mem_text hc).not_isBlank

theorem decode_trim_base64 (bs : Bytes) :
    Base64.decode (Bytes.ofText (Text.trim (Base64.text bs))) = .ok bs := by
  rw [trim_base64, Base64.ofText_text, Base64.decode_encode]

/-- The text of a wrapped key opens to a message key: it makes the hybrid step decrypt with it. -/
def Unwraps (ring : KeyRing) (text : String) (key : Bytes) : Prop :=
  ∀ data, ring.hybridDecrypt data text = Aes.decrypt key data

/-- What the hybrid step does when it succeeds: both the payload and the key that it drew are
sealed. -/
theorem exists_of_hybridEncrypt {ring : KeyRing} {data out : Bytes} {text : String}
    {d d' : Draws} (h : (ring.hybridEncrypt data).run d = (.ok (out, text), d')) :
    ∃ wrapped d₁, Aes.encrypt d.nextKey data = .ok out ∧
      (ring.rsa.sealBlock d.nextKey).run d₁ = (.ok wrapped, d') ∧ text = Base64.text wrapped := by
  rw [hybridEncrypt, StateT.run_bind] at h
  obtain ⟨out', d₂, hout, hrest⟩ := Draws.exists_of_run_andThen h
  obtain ⟨wrapped, d₃, hwrapped, hlast⟩ := Draws.exists_of_run_andThen hrest
  rw [Draws.run_pure, Prod.mk.injEq] at hout
  obtain ⟨hout, rfl⟩ := hout
  cases hlast
  exact ⟨wrapped, _, hout, hwrapped, rfl⟩

/-- The text of a message key that the holder of `ring` sealed. -/
def IsWrapped (ring : KeyRing) (text : String) : Prop :=
  ∃ key block d d', key.length = Draws.messageKeyLength ∧
    (ring.rsa.sealBlock key).run d = (.ok block, d') ∧ text = Base64.text block

theorem isWrapped_of_hybridEncrypt {ring : KeyRing} {data out : Bytes} {text : String}
    {d d' : Draws} (h : (ring.hybridEncrypt data).run d = (.ok (out, text), d')) :
    ring.IsWrapped text := by
  obtain ⟨wrapped, d₁, -, hwrapped, rfl⟩ := exists_of_hybridEncrypt h
  exact ⟨_, wrapped, d₁, d', Draws.length_nextKey d, hwrapped, rfl⟩

/-- A wrapped key is the text of one block. -/
theorem IsWrapped.exists_block {ring : KeyRing} {text : String} (h : ring.IsWrapped text) :
    ∃ block : Bytes, block.length = ring.rsa.size ∧ text = Base64.text block := by
  obtain ⟨_, block, _, _, -, hwrapped, rfl⟩ := h
  exact ⟨block, RsaKeys.length_of_sealBlock hwrapped, rfl⟩

theorem IsWrapped.isToken {ring : KeyRing} {text : String} (h : ring.IsWrapped text) :
    Text.IsToken text := by
  obtain ⟨_, block, _, _, hkey, hwrapped, rfl⟩ := h
  have hroom := RsaKeys.le_size_of_sealBlock hwrapped
  rw [hkey, ← RsaKeys.length_of_sealBlock hwrapped] at hroom
  exact Base64.isToken_text (List.ne_nil_of_length_pos (hroom.trans_lt' (by decide)))

theorem OpenedBy.unwraps {ring peer : KeyRing} (h : ring.OpenedBy peer) {data out : Bytes}
    {text : String} {d d' : Draws}
    (hseal : (ring.hybridEncrypt data).run d = (.ok (out, text), d')) :
    peer.Unwraps text d.nextKey := by
  obtain ⟨wrapped, d₁, -, hwrapped, rfl⟩ := exists_of_hybridEncrypt hseal
  obtain ⟨-, hopen⟩ := h.rsa.opens hwrapped
  intro data
  rw [hybridDecrypt, decode_trim_base64]
  change (peer.rsa.openBlock wrapped >>= fun key => Aes.decrypt key data) = _
  rw [hopen]
  rfl

theorem OpenedBy.exists_hybridEncrypt {ring peer : KeyRing} (h : ring.OpenedBy peer)
    (hroom : Draws.messageKeyLength + RsaKeys.overhead ≤ ring.rsa.size) (data : Bytes)
    (d : Draws) : ∃ out text d', (ring.hybridEncrypt data).run d = (.ok (out, text), d') := by
  have hlength := Draws.length_nextKey d
  have hkeyLength : Aes.isKeyLength d.nextKey.length := by
    rw [hlength]
    rfl
  obtain ⟨out, hout, -⟩ := Aes.exists_encrypt hkeyLength data
  obtain ⟨wrapped, d₂, hwrapped⟩ :=
    h.rsa.seals d.nextKey (Draws.messageKey.run d).2 (by rwa [hlength])
  refine ⟨out, Base64.text wrapped, d₂, ?_⟩
  have hpure : (pure (Aes.encrypt d.nextKey data) : StateM Draws _).run (Draws.messageKey.run d).2 =
      (.ok out, (Draws.messageKey.run d).2) := by
    rw [hout]
    rfl
  rw [hybridEncrypt, StateT.run_bind]
  exact (Draws.run_andThen_of_ok hpure).trans (Draws.run_andThen_of_ok hwrapped)

end KeyRing

namespace SealStep

/-! ## Single steps -/

/-- Only the hybrid step wraps a key. -/
theorem eq_none_of_apply {ring : KeyRing} {step : SealStep} (hstep : step ≠ hybrid)
    {data out : Bytes} {fresh : Option String} {d d' : Draws}
    (h : (step.apply ring data).run d = (.ok (out, fresh), d')) : fresh = none := by
  cases step with
  | aes =>
    rw [apply, Draws.run_pure, Prod.mk.injEq] at h
    obtain ⟨_, -, heq⟩ := exists_of_map_eq_ok h.1
    exact (Prod.mk.inj heq).2.symm
  | base64 =>
    cases h
    rfl
  | hybrid => exact absurd rfl hstep
  | rsa =>
    obtain ⟨_, -, heq⟩ := Draws.exists_of_run_map h
    exact (Prod.mk.inj heq).2.symm
  | hex =>
    cases h
    rfl

theorem exists_of_apply_hybrid {ring : KeyRing} {data out : Bytes} {fresh : Option String}
    {d d' : Draws} (h : (hybrid.apply ring data).run d = (.ok (out, fresh), d')) :
    ∃ text, fresh = some text ∧ (ring.hybridEncrypt data).run d = (.ok (out, text), d') := by
  obtain ⟨⟨out', text⟩, hrun, heq⟩ := Draws.exists_of_run_map h
  obtain ⟨rfl, rfl⟩ := Prod.mk.inj heq
  exact ⟨text, rfl, hrun⟩

/-- What one party applies, the other one undoes, given a wrapped key that opens to the message key
if one was drawn. -/
theorem undo_of_apply {ring peer : KeyRing} (hring : ring.OpenedBy peer) {step : SealStep}
    {data out : Bytes} {fresh final : Option String} {d d' : Draws}
    (h : (step.apply ring data).run d = (.ok (out, fresh), d'))
    (hfinal : step = hybrid → ∃ text ∈ final, peer.Unwraps text d.nextKey) :
    step.undo peer final out = .ok data := by
  cases step with
  | aes =>
    rw [apply, Draws.run_pure, Prod.mk.injEq] at h
    obtain ⟨ct, hct, heq⟩ := exists_of_map_eq_ok h.1
    obtain ⟨rfl, -⟩ := Prod.mk.inj heq
    rw [undo, hring.passphrase_eq]
    exact Aes.decrypt_of_encrypt hct
  | base64 =>
    cases h
    rw [undo, Base64.decode_encode]
    rfl
  | hybrid =>
    obtain ⟨_, -, hrun⟩ := exists_of_apply_hybrid h
    obtain ⟨_, _, hct, -, -⟩ := KeyRing.exists_of_hybridEncrypt hrun
    obtain ⟨text, rfl, hunwraps⟩ := hfinal rfl
    exact (hunwraps out).trans (Aes.decrypt_of_encrypt hct)
  | rsa =>
    obtain ⟨ct, hct, heq⟩ := Draws.exists_of_run_map h
    obtain ⟨rfl, -⟩ := Prod.mk.inj heq
    exact hring.rsa.decrypt_of_encrypt hct
  | hex =>
    cases h
    rw [undo, Hex.decode_encode]
    rfl

/-- With a usable passphrase and a modulus that has room for a message key, no step fails. -/
theorem exists_apply {ring peer : KeyRing} (hring : ring.OpenedBy peer)
    (hkey : Aes.isKeyLength ring.passphrase.length)
    (hroom : Draws.messageKeyLength + RsaKeys.overhead ≤ ring.rsa.size) (step : SealStep)
    (data : Bytes) (d : Draws) :
    ∃ out fresh d', (step.apply ring data).run d = (.ok (out, fresh), d') := by
  cases step with
  | aes =>
    obtain ⟨ct, hct, -⟩ := Aes.exists_encrypt hkey data
    refine ⟨ct, none, d, ?_⟩
    rw [apply, hct]
    rfl
  | base64 => exact ⟨_, _, d, rfl⟩
  | hybrid =>
    obtain ⟨out, text, d', hrun⟩ := hring.exists_hybridEncrypt hroom data d
    exact ⟨out, some text, d', Draws.run_map_of_ok _ hrun⟩
  | rsa =>
    have hbyte : RsaKeys.overhead < ring.rsa.size := by
      simp only [Draws.messageKeyLength] at hroom
      omega
    obtain ⟨out, d', hrun⟩ := hring.rsa.exists_encrypt hbyte data d
    exact ⟨out, none, d', Draws.run_map_of_ok _ hrun⟩
  | hex => exact ⟨_, _, d, rfl⟩

/-! ## Chains of steps -/

theorem exists_applyAll {ring peer : KeyRing} (hring : ring.OpenedBy peer)
    (hkey : Aes.isKeyLength ring.passphrase.length)
    (hroom : Draws.messageKeyLength + RsaKeys.overhead ≤ ring.rsa.size) (steps : List SealStep)
    (data : Bytes) (key : Option String) (d : Draws) :
    ∃ out final d', (applyAll ring steps data key).run d = (.ok (out, final), d') := by
  induction steps generalizing data key d with
  | nil => exact ⟨data, key, d, rfl⟩
  | cons step steps ih =>
    obtain ⟨mid, fresh, d₁, hstep⟩ := exists_apply hring hkey hroom step data d
    obtain ⟨out, final, d', hsteps⟩ := ih mid (fresh.or key) d₁
    exact ⟨out, final, d', (Draws.run_andThen_of_ok hstep).trans hsteps⟩

/-- Without a hybrid step the place of the wrapped key is not touched. -/
theorem final_eq_of_applyAll {ring : KeyRing} {steps : List SealStep} (hnone : hybrid ∉ steps)
    {data out : Bytes} {key final : Option String} {d d' : Draws}
    (h : (applyAll ring steps data key).run d = (.ok (out, final), d')) : final = key := by
  induction steps generalizing data key d with
  | nil =>
    cases h
    rfl
  | cons step steps ih =>
    rw [List.mem_cons, not_or] at hnone
    obtain ⟨⟨mid, fresh⟩, d₁, hstep, hsteps⟩ := Draws.exists_of_run_andThen h
    have hfresh := eq_none_of_apply (Ne.symm hnone.1) hstep
    rw [ih hnone.2 hsteps, hfresh, Option.none_or]

/-- What a chain leaves in the place of the wrapped key was there before or is a key that it
wrapped. -/
theorem isWrapped_of_applyAll {ring : KeyRing} {steps : List SealStep} {data out : Bytes}
    {key final : Option String} {d d' : Draws}
    (h : (applyAll ring steps data key).run d = (.ok (out, final), d')) :
    ∀ text ∈ final, text ∈ key ∨ ring.IsWrapped text := by
  -- Generalized over the key, because each step may put a fresh one into its place.
  induction steps generalizing data key d with
  | nil =>
    cases h
    exact fun _ => .inl
  | cons step steps ih =>
    obtain ⟨⟨mid, fresh⟩, d₁, hstep, hsteps⟩ := Draws.exists_of_run_andThen h
    intro text htext
    refine (ih hsteps text htext).elim ?_ .inr
    by_cases hhybrid : step = hybrid
    · subst hhybrid
      obtain ⟨wrapping, rfl, hrun⟩ := exists_of_apply_hybrid hstep
      rintro ⟨⟩
      exact .inr (KeyRing.isWrapped_of_hybridEncrypt hrun)
    · rw [eq_none_of_apply hhybrid hstep, Option.none_or]
      exact .inl

theorem isSome_final_iff_of_applyAll {ring : KeyRing} {steps : List SealStep} {data out : Bytes}
    {key final : Option String} {d d' : Draws}
    (h : (applyAll ring steps data key).run d = (.ok (out, final), d')) :
    final.isSome ↔ hybrid ∈ steps ∨ key.isSome := by
  induction steps generalizing data key d with
  | nil =>
    cases h
    simp
  | cons step steps ih =>
    obtain ⟨⟨mid, fresh⟩, d₁, hstep, hsteps⟩ := Draws.exists_of_run_andThen h
    rw [ih hsteps, List.mem_cons]
    by_cases hhybrid : step = hybrid
    · subst hhybrid
      obtain ⟨text, rfl, -⟩ := exists_of_apply_hybrid hstep
      simp
    · rw [eq_none_of_apply hhybrid hstep, Option.none_or]
      simp [Ne.symm hhybrid]

/-! ## Message keys -/

/-- The message keys that the hybrid steps of a chain draw, in the order of application. -/
def messageKeys (ring : KeyRing) : List SealStep → Bytes → Draws → List Bytes
  | [], _, _ => []
  | step :: steps, data, d =>
    match (step.apply ring data).run d with
    | (.ok (out, _), d') =>
      (if step = hybrid then [d.nextKey] else []) ++ messageKeys ring steps out d'
    | (.error _, _) => []

theorem messageKeys_cons {ring : KeyRing} {step : SealStep} {data out : Bytes}
    {fresh : Option String} {d d' : Draws}
    (hstep : (step.apply ring data).run d = (.ok (out, fresh), d')) (steps : List SealStep) :
    messageKeys ring (step :: steps) data d =
      (if step = hybrid then [d.nextKey] else []) ++ messageKeys ring steps out d' := by
  rw [messageKeys, hstep]

theorem length_messageKeys {ring : KeyRing} {steps : List SealStep} {data out : Bytes}
    {key final : Option String} {d d' : Draws}
    (h : (applyAll ring steps data key).run d = (.ok (out, final), d')) :
    (messageKeys ring steps data d).length = steps.count hybrid := by
  induction steps generalizing data key d with
  | nil => rfl
  | cons step steps ih =>
    obtain ⟨⟨mid, fresh⟩, d₁, hstep, hsteps⟩ := Draws.exists_of_run_andThen h
    rw [messageKeys_cons hstep, List.length_append, ih hsteps, List.count_cons, Nat.add_comm]
    split <;> simp_all

/-- What is left in the place of the wrapped key opens to the last of the message keys. -/
theorem unwraps_of_applyAll {ring peer : KeyRing} (hring : ring.OpenedBy peer)
    {steps : List SealStep} {data out : Bytes} {key final : Option String} {d d' : Draws}
    (h : (applyAll ring steps data key).run d = (.ok (out, final), d')) :
    ∀ k ∈ (messageKeys ring steps data d).getLast?, ∃ text ∈ final, peer.Unwraps text k := by
  induction steps generalizing data key d with
  | nil => simp [messageKeys]
  | cons step steps ih =>
    obtain ⟨⟨mid, fresh⟩, d₁, hstep, hsteps⟩ := Draws.exists_of_run_andThen h
    rw [messageKeys_cons hstep, List.getLast?_append]
    intro k hk
    rcases hlast : (messageKeys ring steps mid d₁).getLast? with _ | last
    · -- No later step draws a key, so the place is as this step left it.
      rw [hlast, Option.none_or] at hk
      split at hk
      · next hhybrid =>
        subst hhybrid
        cases hk
        have hnone : hybrid ∉ steps := by
          rw [← List.count_eq_zero, ← length_messageKeys hsteps, List.length_eq_zero_iff]
          exact List.getLast?_eq_none_iff.mp hlast
        obtain ⟨text, rfl, hrun⟩ := exists_of_apply_hybrid hstep
        refine ⟨text, ?_, hring.unwraps hrun⟩
        rw [final_eq_of_applyAll hnone hsteps]
        rfl
      · cases hk
    · rw [hlast, Option.some_or] at hk
      exact ih hsteps k (hlast.trans hk)

/-- A chain is undone from the right by a wrapped key that opens to all of its message keys. -/
theorem undoAll_of_unwraps {ring peer : KeyRing} (hring : ring.OpenedBy peer)
    {steps : List SealStep} {data out : Bytes} {key last final : Option String} {d d' : Draws}
    (h : (applyAll ring steps data key).run d = (.ok (out, last), d'))
    (hfinal : ∀ k ∈ messageKeys ring steps data d, ∃ text ∈ final, peer.Unwraps text k) :
    undoAll peer final steps out = .ok data := by
  induction steps generalizing data key d with
  | nil =>
    cases h
    rfl
  | cons step steps ih =>
    obtain ⟨⟨mid, fresh⟩, d₁, hstep, hsteps⟩ := Draws.exists_of_run_andThen h
    rw [messageKeys_cons hstep] at hfinal
    have hrest : undoAll peer final steps out = .ok mid :=
      ih hsteps fun k hk => hfinal k (List.mem_append_right _ hk)
    rw [undoAll, hrest]
    refine undo_of_apply hring hstep fun hhybrid => hfinal _ ?_
    rw [if_pos hhybrid]
    exact List.mem_append_left _ List.mem_cons_self

theorem undoAll_of_sameKey {ring peer : KeyRing} (hring : ring.OpenedBy peer)
    {steps : List SealStep} {data out : Bytes} {key final : Option String} {d d' : Draws}
    (h : (applyAll ring steps data key).run d = (.ok (out, final), d'))
    (hsame : ∀ k ∈ messageKeys ring steps data d, ∀ k' ∈ messageKeys ring steps data d, k = k') :
    undoAll peer final steps out = .ok data := by
  apply undoAll_of_unwraps hring h
  intro k hk
  obtain ⟨last, hlast⟩ := Option.ne_none_iff_exists'.mp
    (mt List.getLast?_eq_none_iff.mp (List.ne_nil_of_mem hk))
  rw [hsame k hk last (List.mem_of_mem_getLast? hlast)]
  exact unwraps_of_applyAll hring h last hlast

/-- A chain with at most one hybrid step is undone from the right, with the key that it left. -/
theorem undoAll_of_applyAll {ring peer : KeyRing} (hring : ring.OpenedBy peer)
    {steps : List SealStep} (hone : steps.count hybrid ≤ 1) {data out : Bytes}
    {key final : Option String} {d d' : Draws}
    (h : (applyAll ring steps data key).run d = (.ok (out, final), d')) :
    undoAll peer final steps out = .ok data := by
  refine undoAll_of_sameKey hring h ?_
  rw [← length_messageKeys h] at hone
  rcases hkeys : messageKeys ring steps data d with _ | ⟨k, _ | ⟨k', rest⟩⟩
  · simp
  · simp
  · rw [hkeys, List.length_cons, List.length_cons] at hone
    omega

/-! ## Parts of a chain -/

theorem applyAll_append (ring : KeyRing) (steps rest : List SealStep) (data : Bytes)
    (key : Option String) :
    applyAll ring (steps ++ rest) data key =
      Draws.andThen (applyAll ring steps data key) fun mid =>
        applyAll ring rest mid.1 mid.2 := by
  induction steps generalizing data key with
  | nil => rfl
  | cons step steps ih =>
    calc
      _ = Draws.andThen (step.apply ring data) fun first =>
            applyAll ring (steps ++ rest) first.1 (first.2.or key) := rfl
      _ = Draws.andThen (step.apply ring data) fun first =>
            Draws.andThen (applyAll ring steps first.1 (first.2.or key)) fun mid =>
              applyAll ring rest mid.1 mid.2 := by simp only [ih]
      _ = _ := (Draws.andThen_assoc _ _ _).symm

theorem exists_of_applyAll_append {ring : KeyRing} {steps rest : List SealStep} {data out : Bytes}
    {key final : Option String} {d d' : Draws}
    (h : (applyAll ring (steps ++ rest) data key).run d = (.ok (out, final), d')) :
    ∃ mid midKey d₁, (applyAll ring steps data key).run d = (.ok (mid, midKey), d₁) ∧
      (applyAll ring rest mid midKey).run d₁ = (.ok (out, final), d') := by
  rw [applyAll_append] at h
  obtain ⟨⟨mid, midKey⟩, d₁, hmid, hrest⟩ := Draws.exists_of_run_andThen h
  exact ⟨mid, midKey, d₁, hmid, hrest⟩

theorem undoAll_singleton (ring : KeyRing) (key : Option String) (step : SealStep) (data : Bytes) :
    undoAll ring key [step] data = step.undo ring key data := rfl

theorem undoAll_append (ring : KeyRing) (key : Option String) (steps rest : List SealStep)
    (data : Bytes) :
    undoAll ring key (steps ++ rest) data =
      undoAll ring key rest data >>= undoAll ring key steps := by
  induction steps with
  | nil => exact (bind_pure _).symm
  | cons step steps ih =>
    rw [List.cons_append, undoAll, ih, bind_assoc]
    rfl

end SealStep
end SealedHttp
