import SealedHttp.Proofs.Envelope.Reading
import SealedHttp.Proofs.Envelope.RoundTrip

/-!
# Envelopes travel in headers

An envelope is described in headers, and the other party reads the description. Headers in which no
negotiation name occurs describe nothing. Which envelopes headers carry, and which they lose
something of, is decided by the texts and the number that they hold.
-/

namespace SealedHttp

/-- No negotiation name occurs. -/
def Headers.IsPlain (h : Headers) : Prop := ∀ name ∈ HeaderName.negotiation, h.get? name = none

namespace Envelope

open HeaderName

/-! ## Reading -/

theorem headerText_congr {h h' : Headers} {name : String} (hsame : h.get? name = h'.get? name) :
    headerText h name = headerText h' name := by
  rw [headerText, headerText, hsame]

theorem says_congr {h h' : Headers} {name : String} (hsame : h.get? name = h'.get? name)
    {t : Option String} : h.Says name t ↔ h'.Says name t := by
  rw [← headerText_eq_ok_iff, ← headerText_eq_ok_iff, headerText_congr hsame]

theorem ofHeaders_congr {h h' : Headers}
    (hsame : ∀ name ∈ negotiation, h.get? name = h'.get? name) : ofHeaders h = ofHeaders h' := by
  have htext : ∀ name ∈ negotiation, headerText h name = headerText h' name := by
    intro name hname
    exact headerText_congr (hsame name hname)
  simp only [ofHeaders, htext originalEncrypt (by simp [negotiation]),
    htext encryptKey (by simp [negotiation]), htext originalEncoding (by simp [negotiation]),
    htext HeaderName.originalLength (by simp [negotiation])]

/-! ## Writing -/

theorem get?_writeText_of_ne {h : Headers} {name other : String} {text : Option String}
    (hne : other ≠ name) : (writeText name text h).get? other = h.get? other := by
  cases text with
  | none => rfl
  | some s => exact Headers.get?_insertLegal_of_ne hne

/-- A text is said by the name that it was written under if headers carry it, and only then. -/
theorem says_writeText_iff {h : Headers} {name : String} {text : Option String}
    (hnone : h.get? name = none) :
    (writeText name text h).Says name text ↔ ∀ s ∈ text, Text.IsFieldText s := by
  constructor
  · rintro hsaid s rfl
    exact hsaid.isFieldText
  · intro htext
    cases text with
    | none => exact .absent hnone
    | some s =>
      have hs := htext s rfl
      have hget : (writeText name (some s) h).get? name = some (Bytes.ofText ("" ++ s ++ "")) := by
        rw [writeText, Headers.insertLegal_ofText hs.readable, String.empty_append,
          String.append_empty]
        exact Headers.get?_insert_self
      exact .text hget (by simp) (by simp) hs

/-- The names that a description is written under, each with its text. -/
def texts (e : Envelope) : List (String × Option String) :=
  [(originalEncrypt, e.chainText?), (encryptKey, e.wrappedKey), (originalEncoding, e.codeText?),
    (HeaderName.originalLength, e.lengthText?)]

theorem says_writeHeaders_iff {e : Envelope} {h : Headers} (hh : h.IsPlain) {name : String}
    {text : Option String} (hmem : (name, text) ∈ e.texts) :
    (e.writeHeaders h).Says name text ↔ ∀ s ∈ text, Text.IsFieldText s := by
  simp only [texts, List.mem_cons, Prod.mk.injEq, List.not_mem_nil, or_false] at hmem
  rcases hmem with ⟨rfl, rfl⟩ | ⟨rfl, rfl⟩ | ⟨rfl, rfl⟩ | ⟨rfl, rfl⟩
  · have hget : (e.writeHeaders h).get? originalEncrypt =
        (writeText originalEncrypt e.chainText? h).get? originalEncrypt := by
      rw [writeHeaders, get?_writeText_of_ne (by decide), get?_writeText_of_ne (by decide),
        get?_writeText_of_ne (by decide)]
    rw [says_congr hget, says_writeText_iff (hh _ (by decide))]
  · have hget : (e.writeHeaders h).get? encryptKey = (writeText encryptKey e.wrappedKey
        (writeText originalEncrypt e.chainText? h)).get? encryptKey := by
      rw [writeHeaders, get?_writeText_of_ne (by decide), get?_writeText_of_ne (by decide)]
    rw [says_congr hget, says_writeText_iff]
    rw [get?_writeText_of_ne (by decide), hh _ (by decide)]
  · have hget : (e.writeHeaders h).get? originalEncoding = (writeText originalEncoding e.codeText?
        (writeText encryptKey e.wrappedKey (writeText originalEncrypt e.chainText? h))).get?
          originalEncoding := by
      rw [writeHeaders, get?_writeText_of_ne (by decide)]
    rw [says_congr hget, says_writeText_iff]
    rw [get?_writeText_of_ne (by decide), get?_writeText_of_ne (by decide), hh _ (by decide)]
  · rw [writeHeaders, says_writeText_iff]
    rw [get?_writeText_of_ne (by decide), get?_writeText_of_ne (by decide),
      get?_writeText_of_ne (by decide), hh _ (by decide)]

/-- Writing touches the negotiation names alone. -/
theorem get?_writeHeaders_of_notMem (e : Envelope) (h : Headers) {name : String}
    (hname : name ∉ negotiation) : (e.writeHeaders h).get? name = h.get? name := by
  simp only [negotiation, List.mem_cons, List.not_mem_nil, or_false, not_or] at hname
  obtain ⟨hchain, hkey, hcode, hlength⟩ := hname
  rw [writeHeaders, get?_writeText_of_ne hlength, get?_writeText_of_ne hcode,
    get?_writeText_of_ne hkey, get?_writeText_of_ne hchain]

/-! ## Descriptions that headers carry -/

/-- Headers carry an envelope, its payload apart, without a loss: its texts have no gap at either
end and nothing in them that cannot be read, and it has a key or a length only where the reader
looks for one. -/
structure IsCarried (e : Envelope) : Prop where
  chain : e.chain = "" ∨ Text.IsFieldText e.chain
  key : ∀ text ∈ e.wrappedKey, 'c' ∈ e.chain.toList ∧ Text.IsFieldText text
  length : ∀ n ∈ e.originalLength, e.compression = .lz4 ∧ n ≤ maxUnpacked

instance (e : Envelope) : Decidable e.IsCarried :=
  decidable_of_iff ((e.chain = "" ∨ Text.IsFieldText e.chain) ∧
      (∀ text ∈ e.wrappedKey, 'c' ∈ e.chain.toList ∧ Text.IsFieldText text) ∧
      ∀ n ∈ e.originalLength, e.compression = .lz4 ∧ n ≤ maxUnpacked)
    ⟨fun ⟨hchain, hkey, hlength⟩ => ⟨hchain, hkey, hlength⟩,
      fun he => ⟨he.chain, he.key, he.length⟩⟩

theorem isGraphic_of_isDigit {c : Char} (h : c.isDigit) : Text.IsGraphic c := by
  simp only [Char.isDigit, Bool.and_eq_true, decide_eq_true_eq, UInt32.le_iff_toNat_le] at h
  obtain ⟨hlow, hhigh⟩ := h
  exact ⟨Nat.lt_of_lt_of_le (by decide) hlow, Nat.lt_of_le_of_lt hhigh (by decide)⟩

theorem isToken_toString (n : Nat) : Text.IsToken (toString n) where
  ne_empty h := by
    have hlist := congrArg String.toList h
    rw [Nat.toString_eq_repr, Nat.toList_repr] at hlist
    exact Nat.toDigits_ne_nil hlist
  graphic _ hc := isGraphic_of_isDigit (Decimal.isDigit_of_mem_toString hc)

theorem isFieldText_chainText?_iff {e : Envelope} :
    (∀ s ∈ e.chainText?, Text.IsFieldText s) ↔ e.chain = "" ∨ Text.IsFieldText e.chain := by
  rw [chainText?]
  split
  · next hempty => simp [String.isEmpty_iff.mp hempty]
  · next hne => simp [show e.chain ≠ "" by simpa using hne]

theorem isFieldText_codeText? (e : Envelope) : ∀ s ∈ e.codeText?, Text.IsFieldText s := by
  intro s hs
  simp only [codeText?, Option.mem_def] at hs
  split at hs <;> cases hs
  exact (isToken_toString _).isFieldText

theorem isFieldText_lengthText? (e : Envelope) : ∀ s ∈ e.lengthText?, Text.IsFieldText s := by
  intro s hs
  simp only [lengthText?, Option.mem_def] at hs
  split at hs
  · obtain ⟨n, -, rfl⟩ := Option.map_eq_some_iff.mp hs
    exact (isToken_toString n).isFieldText
  · cases hs

theorem isKind_codeText? (e : Envelope) : IsKind e.compression e.codeText? := by
  rw [codeText?]
  split
  · next hnone =>
    have hkind : e.compression = .none := of_decide_eq_true hnone
    exact hkind
  · exact Decimal.isNumeral_toString _

theorem isLength_lengthText?_iff {e : Envelope} (hlz4 : e.compression = .lz4) :
    IsLength e.originalLength e.lengthText? ↔ ∀ n ∈ e.originalLength, n ≤ maxUnpacked := by
  have hneeds : e.compression.needsOriginalLength = true := by rw [hlz4]; rfl
  rw [lengthText?, if_pos hneeds]
  rcases e.originalLength with _ | n
  · simp [IsLength]
  · constructor
    · rintro ⟨m, hm, -, hle⟩ k hk
      cases hm
      cases hk
      exact hle
    · intro hle
      exact ⟨n, rfl, Decimal.isNumeral_toString n, hle n rfl⟩

theorem announces_writeHeaders_iff {e : Envelope} {h : Headers} (hh : h.IsPlain) :
    Announces (e.writeHeaders h) (e.withPayload []) ↔ e.IsCarried := by
  have hchain : (e.writeHeaders h).Says originalEncrypt e.chainText? ↔ _ :=
    says_writeHeaders_iff hh (by simp [texts])
  have hkey : (e.writeHeaders h).Says encryptKey e.wrappedKey ↔ _ :=
    says_writeHeaders_iff hh (by simp [texts])
  have hkind : (e.writeHeaders h).Says originalEncoding e.codeText? :=
    (says_writeHeaders_iff hh (by simp [texts])).mpr (isFieldText_codeText? e)
  have hlength : (e.writeHeaders h).Says HeaderName.originalLength e.lengthText? :=
    (says_writeHeaders_iff hh (by simp [texts])).mpr (isFieldText_lengthText? e)
  constructor
  · intro he
    refine ⟨isFieldText_chainText?_iff.mp (hchain.mp he.chain), ?_, ?_⟩
    · intro text htext
      by_cases hmem : 'c' ∈ e.chain.toList
      · exact ⟨hmem, hkey.mp (he.key hmem) text htext⟩
      · have hnone : e.wrappedKey = none := he.key_eq_none hmem
        rw [hnone] at htext
        cases htext
    · intro n hn
      by_cases hlz4 : e.compression = .lz4
      · obtain ⟨t, hsaid, hisLength⟩ := he.length hlz4
        obtain rfl := says_unique hlength hsaid
        exact ⟨hlz4, (isLength_lengthText?_iff hlz4).mp hisLength n hn⟩
      · have hnone : e.originalLength = none := he.length_eq_none hlz4
        rw [hnone] at hn
        cases hn
  · intro he
    exact
      { payload := rfl
        chain := hchain.mpr (isFieldText_chainText?_iff.mpr he.chain)
        key := fun _ => hkey.mpr fun text htext => (he.key text htext).2
        key_eq_none := fun hnone =>
          Option.eq_none_iff_forall_not_mem.mpr fun text htext => hnone (he.key text htext).1
        kind := ⟨_, hkind, isKind_codeText? e⟩
        length := fun hlz4 => ⟨_, hlength,
          (isLength_lengthText?_iff hlz4).mpr fun n hn => (he.length n hn).2⟩
        length_eq_none := fun hlz4 =>
          Option.eq_none_iff_forall_not_mem.mpr fun n hn => hlz4 (he.length n hn).1 }

theorem isReadable_writeHeaders (e : Envelope) {h : Headers} (hh : h.IsPlain) :
    (e.writeHeaders h).IsReadable HeaderName.originalLength :=
  isReadable_of_said
    ((says_writeHeaders_iff hh (by simp [texts])).mpr (isFieldText_lengthText? e))

theorem ofHeaders_writeHeaders_eq_ok_iff {e : Envelope} {h : Headers} (hh : h.IsPlain) :
    ofHeaders (e.writeHeaders h) = .ok (e.withPayload []) ↔ e.IsCarried := by
  rw [ofHeaders_eq_ok_iff, announces_writeHeaders_iff hh]
  exact and_iff_left (isReadable_writeHeaders e hh)

theorem Announces.isCarried {h : Headers} {e : Envelope} (he : Announces h e) : e.IsCarried where
  chain := by
    apply isFieldText_chainText?_iff.mp
    intro s hs
    have hsaid := he.chain
    rw [Option.mem_def.mp hs] at hsaid
    exact hsaid.isFieldText
  key text htext := by
    have hmem : 'c' ∈ e.chain.toList := by
      by_contra hnone
      rw [he.key_eq_none hnone] at htext
      cases htext
    have hsaid := he.key hmem
    rw [Option.mem_def.mp htext] at hsaid
    exact ⟨hmem, hsaid.isFieldText⟩
  length n hn := by
    have hlz4 : e.compression = .lz4 := by
      by_contra hne
      rw [he.length_eq_none hne] at hn
      cases hn
    obtain ⟨t, -, hisLength⟩ := he.length hlz4
    rw [Option.mem_def.mp hn] at hisLength
    cases t with
    | none => cases hisLength
    | some s =>
      obtain ⟨m, hm, -, hle⟩ := hisLength
      cases hm
      exact ⟨hlz4, hle⟩

/-- What was written reads back as it was, the payload put back, for the envelopes that headers
carry and for no others. -/
theorem ofHeaders_writeHeaders_withPayload_iff (e : Envelope) {h : Headers} (hh : h.IsPlain) :
    (ofHeaders (e.writeHeaders h)).map (·.withPayload e.payload) = .ok e ↔ e.IsCarried := by
  rw [← ofHeaders_writeHeaders_eq_ok_iff hh]
  constructor
  · intro hmap
    obtain ⟨e', hread, hback⟩ := exists_of_map_eq_ok hmap
    have hpayload : e'.payload = [] := (ofHeaders_eq_ok_iff.mp hread).1.payload
    have hdescription : e.withPayload [] = e' := by
      rw [← hback, ← hpayload]
      rfl
    rw [hread, hdescription]
  · intro hread
    rw [hread]
    rfl

/-- A tab inside a chain is carried, a space behind it is not. -/
theorem ofHeaders_writeHeaders_withPayload_iff_host :
    (⟨[("host", [0x78])]⟩ : Headers).IsPlain ∧
    (ofHeaders (writeHeaders ⟨[1], "b\tc", some "k y", .lz4, some 5⟩ ⟨[("host", [0x78])]⟩)).map
        (·.withPayload [1]) = .ok ⟨[1], "b\tc", some "k y", .lz4, some 5⟩ ∧
    (ofHeaders (writeHeaders ⟨[1], "c ", none, .none, none⟩ ⟨[("host", [0x78])]⟩)).map
        (·.withPayload [1]) ≠ .ok ⟨[1], "c ", none, .none, none⟩ := by
  have hplain : (⟨[("host", [0x78])]⟩ : Headers).IsPlain := by
    unfold Headers.IsPlain
    decide
  have hcarried : (⟨[1], "b\tc", some "k y", .lz4, some 5⟩ : Envelope).IsCarried := by decide
  have hlost : ¬(⟨[1], "c ", none, .none, none⟩ : Envelope).IsCarried := by decide
  exact ⟨hplain, (ofHeaders_writeHeaders_withPayload_iff _ hplain).mpr hcarried,
    fun hread => hlost ((ofHeaders_writeHeaders_withPayload_iff _ hplain).mp hread)⟩

/-- Reading is exact: headers are read as the one envelope that they announce, and those that
announce none are refused under the first name that offends. Reading is canonical as well: what was
read can be written and is read again. -/
theorem ofHeaders_exact (h : Headers) :
    (∀ e, ofHeaders h = .ok e ↔ Announces h e ∧ h.IsReadable HeaderName.originalLength) ∧
    ((∃ e, ofHeaders h = .ok e) ↔ ∀ name shown, ¬Offends h name shown) ∧
    (∀ failure, ofHeaders h = .error failure →
      ∃ name shown, failure = .header name shown ∧ OffendsFirst h name shown) ∧
    ∀ e, ofHeaders h = .ok e → ofHeaders (e.writeHeaders .empty) = .ok e := by
  refine ⟨fun e => ofHeaders_eq_ok_iff, ?_, ?_, ?_⟩
  · constructor
    · rintro ⟨e, hread⟩ name shown
      obtain ⟨he, hlength⟩ := ofHeaders_eq_ok_iff.mp hread
      exact he.not_offends hlength
    · intro hnone
      rcases ofHeaders_cases h with ⟨e, hread, -⟩ | ⟨name, shown, -, _, _, -, hoffends, -⟩
      · exact ⟨e, hread⟩
      · exact absurd hoffends (hnone name shown)
  · intro failure hfailure
    rcases ofHeaders_cases h with ⟨e, hread, -⟩ | ⟨name, shown, hread, hfirst⟩
    · rw [hread] at hfailure
      cases hfailure
    · rw [hread] at hfailure
      exact ⟨name, shown, (Except.error.inj hfailure).symm, hfirst⟩
  · intro e hread
    have he := (ofHeaders_eq_ok_iff.mp hread).1
    have hplain : Headers.empty.IsPlain := fun _ _ => rfl
    have hback := (ofHeaders_writeHeaders_eq_ok_iff hplain).mpr he.isCarried
    have hself : e.withPayload [] = e := by
      rw [← he.payload]
      rfl
    rwa [hself] at hback

end Envelope
end SealedHttp
