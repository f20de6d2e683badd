import SealedHttp.Proofs.Envelope.Headers

/-!
# What encoding reports

An envelope reports what was done to the payload, and headers carry the report to the other party.
Only a length above the limit does not arrive: the sender reports it, the reader refuses it.
-/

namespace SealedHttp

theorem SealStep.isGraphic_code (step : SealStep) : Text.IsGraphic step.code := by
  cases step <;> decide

theorem SealStep.isGraphic_of_parseList {cs : List Char} {steps : List SealStep}
    (h : parseList cs = .ok steps) : ∀ c ∈ cs, Text.IsGraphic c := by
  intro c hc
  rw [← map_code_of_parseList h] at hc
  obtain ⟨step, -, rfl⟩ := List.mem_map.mp hc
  exact step.isGraphic_code

namespace Envelope

open HeaderName

variable {ring : KeyRing} {data : Bytes} {chain : String} {kind : Compression} {minSize : Nat}
  {e : Envelope} {d d' : Draws}

/-! ## Reports -/

/-- An envelope says what was done to a payload for the chain, the kind and the least size that were
asked for. -/
structure Reports (ring : KeyRing) (data : Bytes) (chain : String) (kind : Compression)
    (minSize : Nat) (e : Envelope) : Prop where
  chain_eq : e.chain = chain
  compression_eq : e.compression = if kind ≠ .none ∧ minSize ≤ data.length then kind else .none
  originalLength_eq : e.originalLength = if e.compression = .lz4 then some data.length else none
  isSome_wrappedKey_iff : e.wrappedKey.isSome ↔ 'c' ∈ chain.toList
  /-- A wrapped key is one block, as long as the modulus. -/
  wrappedKey : ∀ text ∈ e.wrappedKey,
    ∃ block : Bytes, block.length = ring.rsa.size ∧ text = Base64.text block
  payload_eq : chain = "" → e.compression = .none → e.payload = data

theorem compressed_eq_ok {applied : Compression} {out : Bytes} {length : Option Nat}
    (h : compressed kind minSize data = .ok (out, applied, length)) :
    applied = (if kind ≠ .none ∧ minSize ≤ data.length then kind else .none) ∧
      length = (if applied = .lz4 then some data.length else none) ∧
      (applied = .none → out = data) := by
  have hasked : compresses kind minSize data ↔ kind ≠ .none ∧ minSize ≤ data.length := by
    simp [compresses, Compression.isNone]
  rw [compressed] at h
  split at h
  · next hlarge =>
    obtain ⟨packed, -, heq⟩ := exists_of_map_eq_ok h
    cases heq
    rw [if_pos (hasked.mp hlarge)]
    refine ⟨rfl, by simp [Compression.needsOriginalLength], ?_⟩
    intro hnone
    exact absurd hnone (hasked.mp hlarge).1
  · next hsmall =>
    cases h
    rw [if_neg (mt hasked.mpr hsmall)]
    exact ⟨rfl, rfl, fun _ => rfl⟩

theorem isWrapped_of_encode (h : (encode ring data chain kind minSize).run d = (.done e, d')) :
    ∀ text ∈ e.wrappedKey, ring.IsWrapped text := by
  obtain ⟨_, _, -, -, happly, -⟩ := exists_of_tryEncode (tryEncode_of_encode h)
  intro text htext
  rcases SealStep.isWrapped_of_applyAll happly text htext with hold | hwrapped
  · cases hold
  · exact hwrapped

theorem reports_of_encode (h : (encode ring data chain kind minSize).run d = (.done e, d')) :
    e.Reports ring data chain kind minSize := by
  have hwrapped := isWrapped_of_encode h
  obtain ⟨steps, out, hsteps, hpacked, happly, rfl⟩ := exists_of_tryEncode (tryEncode_of_encode h)
  obtain ⟨happlied, hlength, hsame⟩ := compressed_eq_ok hpacked
  refine ⟨rfl, happlied, hlength, ?_, ?_, ?_⟩
  · rw [SealStep.isSome_final_iff_of_applyAll happly, SealStep.hybrid_mem_iff_of_parseList hsteps]
    simp
  · exact fun text htext => (hwrapped text htext).exists_block
  · intro hempty hnone
    rw [hempty] at hsteps
    obtain rfl : [] = steps := Except.ok.inj hsteps
    have hpayload : out = e.payload := (Prod.mk.inj (Except.ok.inj (Prod.mk.inj happly).1)).1
    rw [← hpayload, hsame hnone]

/-! ## Reports in headers -/

theorem isGraphic_chain_of_encode
    (h : (encode ring data chain kind minSize).run d = (.done e, d')) :
    ∀ c ∈ e.chain.toList, Text.IsGraphic c := by
  obtain ⟨_, _, hsteps, -, -, rfl⟩ := exists_of_tryEncode (tryEncode_of_encode h)
  exact SealStep.isGraphic_of_parseList hsteps

theorem isFieldText_of_isGraphic {s : String} (hs : ∀ c ∈ s.toList, Text.IsGraphic c) :
    s = "" ∨ Text.IsFieldText s := by
  by_cases hempty : s = ""
  · exact .inl hempty
  · have htoken : Text.IsToken s := ⟨hempty, hs⟩
    exact .inr htoken.isFieldText

theorem headerText_writeHeaders {h : Headers} (hh : h.IsPlain) {name : String}
    {text : Option String} (hmem : (name, text) ∈ e.texts) (htext : ∀ s ∈ text, Text.IsFieldText s) :
    headerText (e.writeHeaders h) name = .ok text :=
  headerText_of_said ((says_writeHeaders_iff hh hmem).mpr htext)

/-- Headers that carry the texts of an envelope are read as it, provided that its length is. -/
theorem ofHeaders_writeHeaders_eq_map {h : Headers} (hh : h.IsPlain)
    (hchain : e.chain = "" ∨ Text.IsFieldText e.chain)
    (hkey : ∀ text ∈ e.wrappedKey, 'c' ∈ e.chain.toList ∧ Text.IsFieldText text) :
    ofHeaders (e.writeHeaders h) = (readLength e.compression e.lengthText?).map
      fun length => ⟨[], e.chain, e.wrappedKey, e.compression, length⟩ := by
  have hchainText : headerText (e.writeHeaders h) originalEncrypt = .ok e.chainText? :=
    headerText_writeHeaders hh (by simp [texts]) (isFieldText_chainText?_iff.mpr hchain)
  have hkeyText : keyText (e.writeHeaders h) (e.chainText?.getD "") = .ok e.wrappedKey := by
    rw [chainText?_getD, keyText]
    split
    · exact headerText_writeHeaders hh (by simp [texts]) fun text htext => (hkey text htext).2
    · next hnone =>
      rw [Option.eq_none_iff_forall_not_mem.mpr fun text htext => hnone (hkey text htext).1]
  have hkind : (headerText (e.writeHeaders h) originalEncoding >>= readKind) = .ok e.compression := by
    rw [bind_of_ok (headerText_writeHeaders hh (by simp [texts]) (isFieldText_codeText? e))]
    exact readKind_eq_ok_iff.mpr (isKind_codeText? e)
  have hlengthText : headerText (e.writeHeaders h) HeaderName.originalLength = .ok e.lengthText? :=
    headerText_writeHeaders hh (by simp [texts]) (isFieldText_lengthText? e)
  rw [ofHeaders_eq, bind_of_ok hchainText, bind_of_ok hkeyText, bind_of_ok hkind,
    bind_of_ok hlengthText, chainText?_getD]
  cases readLength e.compression e.lengthText? <;> rfl

/-- The length of the payload is read as far as the limit goes. -/
theorem readLength_lengthText? (hlz4 : e.compression = .lz4) {n : Nat}
    (hn : e.originalLength = some n) :
    readLength e.compression e.lengthText? = if maxUnpacked < n then
      .error (.header HeaderName.originalLength (toString n)) else .ok (some n) := by
  have htext : e.lengthText? = some (toString n) := by
    rw [lengthText?, hlz4, hn]
    rfl
  rw [hlz4, htext]
  split
  · next hlong =>
    refine readLength_of_none (Option.eq_none_iff_forall_not_mem.mpr ?_)
    intro m hm
    obtain ⟨hnumeral, hle⟩ := lengthOfText?_eq_some_iff.mp hm
    rw [hnumeral.unique (Decimal.isNumeral_toString n)] at hle
    omega
  · next hfits =>
    exact readLength_of_some (lengthOfText?_eq_some_iff.mpr
      ⟨Decimal.isNumeral_toString n, Nat.not_lt.mp hfits⟩)

/-- Whatever was encoded, the envelope reports it. Its headers are read back as it, except that
the length of a payload above the limit that LZ4 packed is refused. -/
theorem encode_reports (h : (encode ring data chain kind minSize).run d = (.done e, d')) :
    e.Reports ring data chain kind minSize ∧
    (ofHeaders (e.writeHeaders .empty)).map (·.withPayload e.payload) =
      if e.compression = .lz4 ∧ maxUnpacked < data.length then
        .error (.header HeaderName.originalLength (toString data.length))
      else .ok e := by
  have he := reports_of_encode h
  refine ⟨he, ?_⟩
  have hplain : Headers.empty.IsPlain := fun _ _ => rfl
  have hkey : ∀ text ∈ e.wrappedKey, 'c' ∈ e.chain.toList ∧ Text.IsFieldText text := by
    intro text htext
    rw [he.chain_eq, ← he.isSome_wrappedKey_iff]
    exact ⟨Option.isSome_of_mem htext, (isWrapped_of_encode h text htext).isToken.isFieldText⟩
  have hchain := isFieldText_of_isGraphic (isGraphic_chain_of_encode h)
  rw [ofHeaders_writeHeaders_eq_map hplain hchain hkey]
  have hlength := he.originalLength_eq
  by_cases hlz4 : e.compression = .lz4
  · rw [if_pos hlz4] at hlength
    rw [readLength_lengthText? hlz4 hlength]
    simp only [hlz4, true_and]
    split
    · rfl
    · rw [← hlength, ← hlz4]
      rfl
  · rw [if_neg hlz4] at hlength
    rw [readLength_of_ne hlz4, if_neg fun hlong => hlz4 hlong.1, ← hlength]
    rfl

/-- A small payload is carried. One that LZ4 packed is reported at any length, but a byte beyond the
limit is refused. -/
theorem encode_reports_boundary :
    (∃ e d', (encode shortestRing [104, 105] "rabch" .lz4 2).run ⟨id, 0⟩ = (.done e, d') ∧
      e.compression = .lz4 ∧ e.originalLength = some 2 ∧ e.wrappedKey.isSome ∧
      (ofHeaders (e.writeHeaders .empty)).map (·.withPayload e.payload) = .ok e) ∧
    ∃ e d', (encode shortestRing (List.replicate 67108865 0) "" .lz4 0).run ⟨id, 0⟩ =
        (.done e, d') ∧ e.originalLength = some 67108865 ∧
      (ofHeaders (e.writeHeaders .empty)).map (·.withPayload e.payload) =
        .error (.header "original-length" "67108865") := by
  have hring : shortestRing.OpenedBy shortestRing.clientRing :=
    KeyRing.openedBy_clientRing RsaKeys.isPair_mersennePair
  constructor
  · have hdata : ([104, 105] : Bytes).length ≤ maxUnpacked := by decide
    have hchain : ∀ c ∈ "rabch".toList, c ∈ ['a', 'b', 'c', 'r', 'h'] := by simp
    obtain ⟨e, d', hencode⟩ := exists_encode hring (by decide +kernel)
      RsaKeys.size_mersennePair.ge hdata hchain .lz4 2 ⟨id, 0⟩
    obtain ⟨he, hread⟩ := encode_reports hencode
    have hlz4 : e.compression = .lz4 := he.compression_eq
    refine ⟨e, d', hencode, hlz4, ?_, he.isSome_wrappedKey_iff.mpr (by decide), ?_⟩
    · rw [he.originalLength_eq, if_pos hlz4]
      rfl
    · rw [hread, if_neg fun hlong => absurd hlong.2 (by decide)]
  · have hencode (data : Bytes) : (encode shortestRing data "" .lz4 0).run ⟨id, 0⟩ =
        (.done ⟨Lz4.pack data, "", none, .lz4, some data.length⟩, ⟨id, 0⟩) := by
      have hpacked : compressed .lz4 0 data = .ok (Lz4.pack data, .lz4, some data.length) := by
        rw [compressed, if_pos (by simp [compresses, Compression.isNone])]
        rfl
      have hsteps : SealStep.parseList "".toList = .ok [] := rfl
      rw [run_encode, run_tryEncode hsteps hpacked]
      rfl
    obtain ⟨he, hread⟩ := encode_reports (hencode (List.replicate 67108865 0))
    have hlength : (List.replicate 67108865 (0 : UInt8)).length = 67108865 := List.length_replicate
    refine ⟨_, _, hencode _, congrArg some hlength, ?_⟩
    rw [hread, hlength, if_pos ⟨rfl, by decide⟩]
    rfl

/-! ## Portable envelopes -/

/-- The parts of an envelope can stand in headers, and only those that will be read are there. -/
structure IsPortable (e : Envelope) : Prop where
  chain : ∀ c ∈ e.chain.toList, Text.IsGraphic c
  key : ∀ text ∈ e.wrappedKey, Text.IsToken text
  key_eq_none : 'c' ∉ e.chain.toList → e.wrappedKey = none
  length_le : ∀ n ∈ e.originalLength, n ≤ maxUnpacked
  length_eq_none : e.compression.needsOriginalLength = false → e.originalLength = none

theorem IsPortable.isCarried {e : Envelope} (he : e.IsPortable) : e.IsCarried where
  chain := isFieldText_of_isGraphic he.chain
  key text htext := by
    refine ⟨?_, (he.key text htext).isFieldText⟩
    by_contra hnone
    rw [he.key_eq_none hnone] at htext
    cases htext
  length n hn := by
    refine ⟨?_, he.length_le n hn⟩
    by_contra hlz4
    have hneeds : e.compression.needsOriginalLength = false := decide_eq_false hlz4
    rw [he.length_eq_none hneeds] at hn
    cases hn

theorem ofHeaders_writeHeaders {e : Envelope} (he : e.IsPortable) {h : Headers} (hh : h.IsPlain) :
    ofHeaders (e.writeHeaders h) = .ok (e.withPayload []) :=
  (ofHeaders_writeHeaders_eq_ok_iff hh).mpr he.isCarried

theorem isPortable_plain (payload : Bytes) : (plain payload).IsPortable where
  chain _ hc := absurd hc List.not_mem_nil
  key _ h := absurd h (Option.not_mem_none _)
  key_eq_none _ := rfl
  length_le _ h := absurd h (Option.not_mem_none _)
  length_eq_none _ := rfl

theorem isPortable_of_encode (hdata : data.length ≤ maxUnpacked)
    (h : (encode ring data chain kind minSize).run d = (.done e, d')) : e.IsPortable := by
  have he := reports_of_encode h
  have hlength := he.originalLength_eq
  constructor
  · exact isGraphic_chain_of_encode h
  · exact fun text htext => (isWrapped_of_encode h text htext).isToken
  · intro hnone
    rwa [he.chain_eq, ← he.isSome_wrappedKey_iff, Option.not_isSome_iff_eq_none] at hnone
  · intro n hn
    rw [hlength] at hn
    split at hn <;> cases hn
    exact hdata
  · intro hneeds
    rw [hlength, if_neg (of_decide_eq_false hneeds)]

/-- An envelope without a transform has nothing to describe. -/
theorem IsPortable.writeHeaders_eq_self {e : Envelope} (he : e.IsPortable)
    (h : e.isTransformed = false) (headers : Headers) : e.writeHeaders headers = headers := by
  rw [isTransformed, Bool.or_eq_false_iff, Bool.not_eq_false', Bool.not_eq_false'] at h
  obtain ⟨hchain, hnone⟩ := h
  have hkey : e.wrappedKey = none := he.key_eq_none (by simp [String.isEmpty_iff.mp hchain])
  have hneeds : e.compression.needsOriginalLength = false := by rw [of_decide_eq_true hnone]; rfl
  have hchainText : e.chainText? = none := if_pos hchain
  have hcodeText : e.codeText? = none := if_pos hnone
  have hlengthText : e.lengthText? = none := if_neg (by simp [hneeds])
  rw [writeHeaders, hchainText, hkey, hcodeText, hlengthText]
  rfl

end Envelope
end SealedHttp
