import SealedHttp.Proofs.Cipher.AesOpenings
import SealedHttp.Proofs.Envelope.Crashes
import SealedHttp.Proofs.Envelope.RoundTrip
import SealedHttp.Proofs.Text.ArmorReadings

/-!
# Chains with one sealed form

AES under the passphrase and base64 take no draws and accept nothing but what they write. A chain of
these two gives back the very payload that it opened, so that no two payloads open to the same data.
-/

namespace SealedHttp

namespace SealStep

variable {ring : KeyRing} {step : SealStep} {steps : List SealStep} {data out : Bytes}
  {key : Option String}

theorem apply_of_undo (hstep : step = aes ∨ step = base64) (h : step.undo ring key out = .ok data)
    (d : Draws) : (step.apply ring data).run d = (.ok (out, none), d) := by
  rcases hstep with rfl | rfl
  · have hseal : Aes.encrypt ring.passphrase data = .ok out := Aes.encrypt_of_decrypt h
    rw [apply, hseal]
    rfl
  · have hwrite : Base64.encode data = out := Base64.encode_of_decode (eq_ok_of_mapError h)
    rw [apply, hwrite]
    rfl

/-- Applying a chain goes back over the stages of undoing it. -/
theorem applyAll_of_undoAll (hsteps : ∀ step ∈ steps, step = aes ∨ step = base64)
    (h : undoAll ring key steps out = .ok data) (d : Draws) :
    (applyAll ring steps data none).run d = (.ok (out, none), d) := by
  induction steps generalizing data with
  | nil =>
    cases h
    rfl
  | cons step steps ih =>
    rw [List.forall_mem_cons] at hsteps
    obtain ⟨mid, hmid, hstep⟩ := exists_of_bind_eq_ok h
    exact (Draws.run_andThen_of_ok (apply_of_undo hsteps.1 hstep d)).trans (ih hsteps.2 hmid)

theorem aes_or_base64_of_parseList {cs : List Char} (hcs : ∀ c ∈ cs, c ∈ ['a', 'b'])
    (h : parseList cs = .ok steps) : ∀ step ∈ steps, step = aes ∨ step = base64 := by
  intro step hstep
  have hcode : step.code ∈ ['a', 'b'] := by
    apply hcs
    rw [← map_code_of_parseList h]
    exact List.mem_map_of_mem hstep
  cases step with
  | aes => exact .inl rfl
  | base64 => exact .inr rfl
  | hybrid => exact absurd hcode (by decide)
  | rsa => exact absurd hcode (by decide)
  | hex => exact absurd hcode (by decide)

end SealStep

namespace Envelope

variable {ring : KeyRing} {chain : String} {payload data : Bytes} {key : Option String}
  {length : Option Nat}

/-- Nothing is unpacked when nothing was packed. -/
theorem tryDecode_plain {steps : List SealStep} (hsteps : parseChain chain = .ok steps)
    (ring : KeyRing) (payload : Bytes) (key : Option String) (length : Option Nat) :
    tryDecode ring ⟨payload, chain, key, .none, length⟩ =
      (SealStep.undoAll ring key steps payload).mapError .cipher := by
  rw [tryDecode, bind_of_ok hsteps]
  exact bind_pure _

/-- Of a payload that such a chain opens, sealing the data with it gives the payload again. -/
theorem encode_undoes_decode (hchain : ∀ c ∈ chain.toList, c ∈ ['a', 'b'])
    (h : decode ring ⟨payload, chain, key, .none, length⟩ = .done data) :
    (∀ minSize d, (encode ring data chain .none minSize).run d =
        (.done ⟨payload, chain, none, .none, none⟩, d)) ∧
      ∀ payload' key' length',
        decode ring ⟨payload', chain, key', .none, length'⟩ = .done data → payload' = payload := by
  have hknown : ∀ c ∈ chain.toList, c ∈ ['a', 'b', 'c', 'r', 'h'] := by
    intro c hc
    exact List.mem_append_left ['c', 'r', 'h'] (hchain c hc)
  obtain ⟨steps, hsteps⟩ := SealStep.exists_parseList hknown
  have hfixed := SealStep.aes_or_base64_of_parseList hchain hsteps
  have hseals : ∀ payload' key' length',
      decode ring ⟨payload', chain, key', .none, length'⟩ = .done data →
        ∀ d, (SealStep.applyAll ring steps data none).run d = (.ok (payload', none), d) := by
    intro payload' key' length' hopen
    rw [decode_eq_done_iff, tryDecode_plain (parseChain_eq_ok_iff.mpr hsteps)] at hopen
    exact SealStep.applyAll_of_undoAll hfixed (eq_ok_of_mapError hopen)
  have happly := hseals payload key length h
  refine ⟨fun minSize d => ?_, fun payload' key' length' hopen => ?_⟩
  · rw [run_encode, run_tryEncode hsteps rfl, happly d]
    rfl
  · have hsame := (hseals payload' key' length' hopen ⟨id, 0⟩).symm.trans (happly ⟨id, 0⟩)
    exact (Prod.mk.inj (Except.ok.inj (Prod.mk.inj hsame).1)).1

/-- Two letters, armored both before and after they are sealed. -/
def armoredTwice : Bytes := Bytes.ofText "8qWcS3oyqDiV3uID1UlJsw=="

theorem encode_undoes_decode_armoredTwice :
    decode shortestRing ⟨armoredTwice, "bab", none, .none, none⟩ = .done [104, 105] ∧
      (∀ d, (encode shortestRing [104, 105] "bab" .none 256).run d =
        (.done ⟨armoredTwice, "bab", none, .none, none⟩, d)) ∧
      ∀ payload, decode shortestRing ⟨payload, "bab", none, .none, none⟩ = .done [104, 105] →
        payload = armoredTwice := by
  have hchain : ∀ c ∈ "bab".toList, c ∈ ['a', 'b'] := by simp
  have hopen : decode shortestRing ⟨armoredTwice, "bab", none, .none, none⟩ = .done [104, 105] := by
    decide +kernel
  obtain ⟨hseal, hunique⟩ := encode_undoes_decode hchain hopen
  exact ⟨hopen, hseal 256, fun payload => hunique payload none none⟩

end Envelope
end SealedHttp
