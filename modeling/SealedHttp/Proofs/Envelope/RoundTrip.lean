import Mathlib.Data.List.Count
import SealedHttp.Proofs.Cipher.RsaPair
import SealedHttp.Proofs.Compression.Packing
import SealedHttp.Proofs.Envelope.Steps

/-!
# Envelopes are opened by the other party

Whatever one party makes of a payload, the other one gets the payload back, provided the chain has
at most one hybrid step. With a usable passphrase and a modulus that has room for a message key,
encoding does not fail on a chain of known codes.
-/

namespace SealedHttp

namespace SealStep

theorem code_of_ofCode? {c : Char} {step : SealStep} (h : ofCode? c = some step) :
    step.code = c := by
  unfold ofCode? at h
  split_ifs at h with ha hb hc hr hh <;> cases h
  exacts [ha.symm, hb.symm, hc.symm, hr.symm, hh.symm]

theorem map_code_of_parseList {cs : List Char} {steps : List SealStep}
    (h : parseList cs = .ok steps) : steps.map code = cs := by
  induction cs generalizing steps with
  | nil =>
    cases h
    rfl
  | cons c cs ih =>
    rw [parseList] at h
    split at h
    · cases h
    · next step hstep =>
      obtain ⟨rest, hrest, rfl⟩ := exists_of_map_eq_ok h
      rw [List.map_cons, code_of_ofCode? hstep, ih hrest]

theorem mem_codes_iff {c : Char} :
    c ∈ ['a', 'b', 'c', 'r', 'h'] ↔ ∃ step, ofCode? c = some step := by
  constructor
  · have hcodes : ∀ c ∈ ['a', 'b', 'c', 'r', 'h'], ∃ step, ofCode? c = some step := by
      simp [ofCode?]
    exact hcodes c
  · rintro ⟨step, hstep⟩
    rw [← code_of_ofCode? hstep]
    cases step <;> decide

theorem exists_parseList {cs : List Char} (h : ∀ c ∈ cs, c ∈ ['a', 'b', 'c', 'r', 'h']) :
    ∃ steps, parseList cs = .ok steps := by
  induction cs with
  | nil => exact ⟨[], rfl⟩
  | cons c cs ih =>
    rw [List.forall_mem_cons] at h
    obtain ⟨step, hstep⟩ := mem_codes_iff.mp h.1
    obtain ⟨steps, hsteps⟩ := ih h.2
    refine ⟨step :: steps, ?_⟩
    rw [parseList, hstep, hsteps]
    rfl

theorem parseList_append {cs cs' : List Char} {steps rest : List SealStep}
    (h : parseList cs = .ok steps) (h' : parseList cs' = .ok rest) :
    parseList (cs ++ cs') = .ok (steps ++ rest) := by
  induction cs generalizing steps with
  | nil =>
    cases h
    exact h'
  | cons c cs ih =>
    rw [parseList] at h
    split at h
    · cases h
    · next step hstep =>
      obtain ⟨steps', hsteps', rfl⟩ := exists_of_map_eq_ok h
      rw [List.cons_append, parseList, hstep, ih hsteps']
      rfl

theorem exists_of_parseList_append {cs rest : List Char} {steps : List SealStep}
    (h : parseList (cs ++ rest) = .ok steps) :
    ∃ front back, parseList cs = .ok front ∧ parseList rest = .ok back ∧ steps = front ++ back := by
  induction cs generalizing steps with
  | nil => exact ⟨[], steps, rfl, h, rfl⟩
  | cons c cs ih =>
    rw [List.cons_append, parseList] at h
    split at h
    · cases h
    · next step hstep =>
      obtain ⟨tail, htail, rfl⟩ := exists_of_map_eq_ok h
      obtain ⟨front, back, hfront, hback, rfl⟩ := ih htail
      refine ⟨step :: front, back, ?_, hback, rfl⟩
      rw [parseList, hstep, hfront]
      rfl

theorem code_injective : Function.Injective code := by
  intro s t h
  have hcode := congrArg ofCode? h
  rw [ofCode?_code, ofCode?_code] at hcode
  exact Option.some.inj hcode

/-- The hybrid steps of a chain are its characters `c`. -/
theorem count_hybrid_of_parseList {cs : List Char} {steps : List SealStep}
    (h : parseList cs = .ok steps) : steps.count hybrid = cs.count 'c' := by
  rw [← map_code_of_parseList h]
  exact (List.count_map_of_injective steps code code_injective hybrid).symm

theorem hybrid_mem_iff_of_parseList {cs : List Char} {steps : List SealStep}
    (h : parseList cs = .ok steps) : hybrid ∈ steps ↔ 'c' ∈ cs := by
  rw [← List.count_pos_iff, count_hybrid_of_parseList h, List.count_pos_iff]

end SealStep

namespace Envelope

/-! ## Decoding after encoding -/

theorem decompress_of_compressed {kind applied : Compression} {minSize : Nat} {data out : Bytes}
    {length : Option Nat} (hlength : data.length ≤ maxUnpacked)
    (h : compressed kind minSize data = .ok (out, applied, length)) :
    applied.decompress out length = .ok data := by
  rw [compressed] at h
  split at h
  · obtain ⟨packed, hpacked, heq⟩ := exists_of_map_eq_ok h
    obtain ⟨rfl, hrest⟩ := Prod.mk.inj heq
    obtain ⟨rfl, rfl⟩ := Prod.mk.inj hrest
    exact Compression.decompress_of_compress hlength hpacked
  · cases h
    rfl

/-- On a chain that can be read and a payload that can be packed, encoding is what the steps do to
the packed payload. -/
theorem run_tryEncode {data out : Bytes} {chain : String} {kind applied : Compression}
    {minSize : Nat} {length : Option Nat} {steps : List SealStep}
    (hsteps : SealStep.parseList chain.toList = .ok steps)
    (hpacked : compressed kind minSize data = .ok (out, applied, length)) (ring : KeyRing)
    (d : Draws) :
    (tryEncode ring data chain kind minSize).run d =
      ((((SealStep.applyAll ring steps out none).run d).1.mapError .cipher).map
          fun p => ⟨p.1, chain, p.2, applied, length⟩,
        ((SealStep.applyAll ring steps out none).run d).2) := by
  rw [tryEncode, parseChain, SealStep.parse, hsteps]
  simp only [Except.mapError, hpacked]
  rfl

/-- The stages behind an envelope: its chain was read, the payload was packed, and the steps were
applied to what came out. -/
theorem exists_of_tryEncode {ring : KeyRing} {data : Bytes} {chain : String} {kind : Compression}
    {minSize : Nat} {e : Envelope} {d d' : Draws}
    (h : (tryEncode ring data chain kind minSize).run d = (.ok e, d')) :
    ∃ steps out, SealStep.parseList chain.toList = .ok steps ∧
      compressed kind minSize data = .ok (out, e.compression, e.originalLength) ∧
      (SealStep.applyAll ring steps out none).run d = (.ok (e.payload, e.wrappedKey), d') ∧
      e.chain = chain := by
  rcases hsteps : SealStep.parseList chain.toList with c | steps
  · rw [tryEncode, parseChain, SealStep.parse, hsteps] at h
    cases h
  rcases hpacked : compressed kind minSize data with failure | ⟨out, applied, length⟩
  · rw [tryEncode, parseChain, SealStep.parse, hsteps] at h
    simp only [Except.mapError, hpacked] at h
    cases h
  rw [run_tryEncode hsteps hpacked] at h
  rcases happly : (SealStep.applyAll ring steps out none).run d with ⟨failure | sealed, d₁⟩
  · rw [happly] at h
    cases h
  · rw [happly] at h
    cases h
    exact ⟨steps, out, rfl, rfl, happly, rfl⟩

/-- When the steps are undone down to the packed payload, so is the packing. -/
theorem tryDecode_of_undoAll {peer : KeyRing} {data out : Bytes}
    (hlength : data.length ≤ maxUnpacked) {kind : Compression} {minSize : Nat} {e : Envelope}
    {steps : List SealStep} (hsteps : SealStep.parseList e.chain.toList = .ok steps)
    (hpacked : compressed kind minSize data = .ok (out, e.compression, e.originalLength))
    (hundo : SealStep.undoAll peer e.wrappedKey steps e.payload = .ok out) :
    tryDecode peer e = .ok data := by
  have hunpack := decompress_of_compressed hlength hpacked
  simp only [tryDecode, parseChain, SealStep.parse, hsteps, hundo, Except.mapError, bind,
    Except.bind]
  -- Decoding does not call the unpacker when nothing was packed.
  split
  · next hnone =>
    rw [of_decide_eq_true hnone, Compression.decompress] at hunpack
    cases hunpack
    rfl
  · rw [hunpack]

theorem tryDecode_of_tryEncode {ring peer : KeyRing} (hring : ring.OpenedBy peer) {data : Bytes}
    (hlength : data.length ≤ maxUnpacked) {chain : String} (hone : chain.toList.count 'c' ≤ 1)
    {kind : Compression} {minSize : Nat} {e : Envelope} {d d' : Draws}
    (h : (tryEncode ring data chain kind minSize).run d = (.ok e, d')) :
    tryDecode peer e = .ok data := by
  obtain ⟨steps, out, hsteps, hpacked, happly, rfl⟩ := exists_of_tryEncode h
  have hhybrid : steps.count .hybrid ≤ 1 := by
    rwa [SealStep.count_hybrid_of_parseList hsteps]
  exact tryDecode_of_undoAll hlength hsteps hpacked
    (SealStep.undoAll_of_applyAll hring hhybrid happly)

/-- An envelope without a transform holds its payload as it is. -/
theorem tryDecode_of_not_isTransformed {ring : KeyRing} {e : Envelope}
    (h : e.isTransformed = false) : tryDecode ring e = .ok e.payload := by
  rw [isTransformed, Bool.or_eq_false_iff, Bool.not_eq_false', Bool.not_eq_false'] at h
  have hchain : e.chain = "" := String.isEmpty_iff.mp h.1
  have hparse : parseChain e.chain = .ok [] := by
    rw [hchain]
    rfl
  simp only [tryDecode, hparse, bind, Except.bind, SealStep.undoAll, Except.mapError]
  rw [if_pos h.2]

theorem ofExcept_eq_done_iff {α : Type} {payload : Bytes} {x : Except EnvelopeError α} {result : α} :
    Transformed.ofExcept payload x = .done result ↔ x = .ok result := by
  constructor
  · intro h
    rw [Transformed.ofExcept.eq_def] at h
    split at h <;> cases h
    rfl
  · rintro rfl
    rfl

/-- A failed transform gives its input back. -/
theorem eq_of_ofExcept_eq_degraded {α : Type} {payload : Bytes} {x : Except EnvelopeError α}
    {g : Degraded} (h : Transformed.ofExcept payload x = .degraded g) :
    g.payload = payload ∧ x = .error g.error := by
  rw [Transformed.ofExcept.eq_def] at h
  split at h <;> cases h
  exact ⟨rfl, rfl⟩

theorem decode_eq_ofExcept (ring : KeyRing) (e : Envelope) :
    decode ring e = .ofExcept e.payload (tryDecode ring e) := by
  rw [decode]
  split
  · rfl
  · next hplain =>
    rw [tryDecode_of_not_isTransformed (Bool.eq_false_iff.mpr hplain)]
    rfl

theorem decode_eq_done_iff {ring : KeyRing} {e : Envelope} {data : Bytes} :
    decode ring e = .done data ↔ tryDecode ring e = .ok data := by
  rw [decode_eq_ofExcept, ofExcept_eq_done_iff]

theorem run_encode (ring : KeyRing) (data : Bytes) (chain : String) (kind : Compression)
    (minSize : Nat) (d : Draws) :
    (encode ring data chain kind minSize).run d =
      (.ofExcept data ((tryEncode ring data chain kind minSize).run d).1,
        ((tryEncode ring data chain kind minSize).run d).2) := rfl

theorem tryEncode_of_encode {ring : KeyRing} {data : Bytes} {chain : String} {kind : Compression}
    {minSize : Nat} {e : Envelope} {d d' : Draws}
    (h : (encode ring data chain kind minSize).run d = (.done e, d')) :
    (tryEncode ring data chain kind minSize).run d = (.ok e, d') := by
  rw [run_encode, Prod.mk.injEq] at h
  obtain ⟨hdone, rfl⟩ := h
  exact Prod.ext (ofExcept_eq_done_iff.mp hdone) rfl

/-- The other party decodes what one party encoded. -/
theorem decode_of_encode {ring peer : KeyRing} (hring : ring.OpenedBy peer) {data : Bytes}
    (hlength : data.length ≤ maxUnpacked) {chain : String} (hone : chain.toList.count 'c' ≤ 1)
    {kind : Compression} {minSize : Nat} {e : Envelope} {d d' : Draws}
    (h : (encode ring data chain kind minSize).run d = (.done e, d')) :
    decode peer e = .done data :=
  decode_eq_done_iff.mpr (tryDecode_of_tryEncode hring hlength hone (tryEncode_of_encode h))

/-! ## Encoding does not fail -/

theorem exists_compressed (kind : Compression) (minSize : Nat) {data : Bytes}
    (hlength : data.length ≤ maxUnpacked) : ∃ packed, compressed kind minSize data = .ok packed := by
  rw [compressed]
  split
  · obtain ⟨out, hout⟩ := Compression.exists_compress kind (hlength.trans_lt (by decide))
    rw [hout]
    exact ⟨_, rfl⟩
  · exact ⟨_, rfl⟩

theorem exists_encode {ring peer : KeyRing} (hring : ring.OpenedBy peer)
    (hkey : Aes.isKeyLength ring.passphrase.length)
    (hroom : Draws.messageKeyLength + RsaKeys.overhead ≤ ring.rsa.size) {data : Bytes}
    (hlength : data.length ≤ maxUnpacked) {chain : String}
    (hchain : ∀ c ∈ chain.toList, c ∈ ['a', 'b', 'c', 'r', 'h']) (kind : Compression)
    (minSize : Nat) (d : Draws) :
    ∃ e d', (encode ring data chain kind minSize).run d = (.done e, d') := by
  obtain ⟨steps, hsteps⟩ := SealStep.exists_parseList hchain
  obtain ⟨⟨out, applied, length⟩, hpacked⟩ := exists_compressed kind minSize hlength
  obtain ⟨payload, key, d', happly⟩ :=
    SealStep.exists_applyAll hring hkey hroom steps out none d
  refine ⟨⟨payload, chain, key, applied, length⟩, d', ?_⟩
  rw [run_encode, run_tryEncode hsteps hpacked, happly]
  rfl

/-! ## Both directions -/

/-- The deployed passphrase with the shortest pair that has room for a message key. -/
def shortestRing : KeyRing := ⟨Bytes.ofText KeyRing.legacyPassphrase, RsaKeys.mersennePair⟩

/-- Between a server and its client, either side encodes every payload within the limit on every
chain of known codes with at most one hybrid step, and the other side decodes it. -/
theorem round_trip {server : KeyRing} (hkey : Aes.isKeyLength server.passphrase.length)
    (hpair : server.rsa.IsPair) (hsize : 27 ≤ server.rsa.size) {data : Bytes}
    (hlength : data.length ≤ maxUnpacked) {chain : String}
    (hchain : ∀ c ∈ chain.toList, c ∈ ['a', 'b', 'c', 'r', 'h'])
    (hone : chain.toList.count 'c' ≤ 1) (kind : Compression) (minSize : Nat) (d : Draws) :
    (∃ e d', (encode server data chain kind minSize).run d = (.done e, d') ∧
      decode server.clientRing e = .done data) ∧
    ∃ e d', (encode server.clientRing data chain kind minSize).run d = (.done e, d') ∧
      decode server e = .done data := by
  have htoClient := KeyRing.openedBy_clientRing hpair
  have htoServer := KeyRing.clientRing_openedBy hpair
  constructor
  · obtain ⟨e, d', hencode⟩ := exists_encode htoClient hkey hsize hlength hchain kind minSize d
    exact ⟨e, d', hencode, decode_of_encode htoClient hlength hone hencode⟩
  · obtain ⟨e, d', hencode⟩ := exists_encode htoServer hkey hsize hlength hchain kind minSize d
    exact ⟨e, d', hencode, decode_of_encode htoServer hlength hone hencode⟩

theorem round_trip_shortestRing :
    (∃ e d', (encode shortestRing [104, 105] "rabch" .lz4 0).run ⟨id, 0⟩ = (.done e, d') ∧
      decode shortestRing.clientRing e = .done [104, 105]) ∧
    ∃ e d', (encode shortestRing.clientRing [104, 105] "rabch" .lz4 0).run ⟨id, 0⟩ =
        (.done e, d') ∧
      decode shortestRing e = .done [104, 105] :=
  round_trip (by decide +kernel) RsaKeys.isPair_mersennePair RsaKeys.size_mersennePair.ge
    (by decide) (by simp) (by simp) .lz4 0 ⟨id, 0⟩

end Envelope
end SealedHttp
