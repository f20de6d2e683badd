import SealedHttp.Envelope.Headers
import SealedHttp.Proofs.Results
import SealedHttp.Proofs.Header.FieldText
import SealedHttp.Proofs.Text.Decimal

/-!
# What headers say about an envelope

Any headers are read: they announce one envelope, or the first name that offends is refused. What
is announced is stated here without the reader, by the texts and the numerals that the first values
of the four names hold.
-/

namespace SealedHttp

/-- The names that describe an envelope, in the order in which they are read. -/
def HeaderName.negotiation : List String :=
  [originalEncrypt, encryptKey, originalEncoding, originalLength]

namespace Compression

theorem ofCode?_eq_some_iff {n : Nat} {kind : Compression} :
    ofCode? n = some kind ↔ n = kind.code := by
  constructor
  · intro h
    rw [ofCode?.eq_def] at h
    split at h <;> cases h <;> rfl
  · rintro rfl
    exact ofCode?_code kind

theorem code_le (kind : Compression) : kind.code ≤ 4 := by cases kind <;> decide

theorem exists_code_eq {n : Nat} (h : n ≤ 4) : ∃ kind : Compression, kind.code = n := by
  match n with
  | 0 => exact ⟨none, rfl⟩
  | 1 => exact ⟨gzip, rfl⟩
  | 2 => exact ⟨deflate, rfl⟩
  | 3 => exact ⟨snappy, rfl⟩
  | 4 => exact ⟨lz4, rfl⟩

end Compression

namespace Envelope

open HeaderName

variable {h : Headers} {name : String}

/-! ## Texts -/

theorem headerText_of_unreadable {value : Bytes} (hget : h.get? name = some value)
    (hvalue : Headers.text? value = none) :
    headerText h name = .error (.header name (Utf8.decodeLossy value)) := by
  rw [headerText, hget]
  simp only [hvalue]

theorem headerText_of_readable {u : String} (hget : h.get? name = some (Bytes.ofText u))
    (hu : ∀ c ∈ u.toList, Text.IsReadable c) :
    headerText h name = .ok (if (Text.trim u).isEmpty then none else some (Text.trim u)) := by
  rw [headerText, hget]
  simp only [Headers.text?_ofText hu]

theorem headerText_of_said {t : Option String} (hsaid : h.Says name t) :
    headerText h name = .ok t := by
  cases hsaid with
  | absent hget => rw [headerText, hget]
  | blank hget hgap =>
    rw [headerText_of_readable hget fun c hc => (hgap c hc).isReadable, Text.trim_of_gaps hgap]
    rfl
  | @text pre s post hget hpre hpost hs =>
    have hread : ∀ c ∈ (pre ++ s ++ post).toList, Text.IsReadable c := by
      intro c hc
      rw [String.toList_append, String.toList_append, List.mem_append, List.mem_append] at hc
      rcases hc with (hc | hc) | hc
      · exact (hpre c hc).isReadable
      · exact hs.readable c hc
      · exact (hpost c hc).isReadable
    rw [headerText_of_readable hget hread, hs.trim_append hpre hpost,
      if_neg (by simpa using hs.ne_empty)]

theorem says_or_unreadable (h : Headers) (name : String) :
    (∃ t, h.Says name t) ∨ ∃ value, h.get? name = some value ∧ Headers.text? value = none := by
  rcases hget : h.get? name with _ | value
  · exact .inl ⟨none, .absent hget⟩
  · rcases htext : Headers.text? value with _ | u
    · exact .inr ⟨value, rfl, htext⟩
    · obtain ⟨rfl, hu⟩ := Headers.text?_eq_some_iff.mp htext
      rcases Text.gaps_or_isFieldText_trim hu with hgap | ⟨hs, pre, post, hsplit, hpre, hpost⟩
      · exact .inl ⟨none, .blank hget hgap⟩
      · refine .inl ⟨some (Text.trim u), .text ?_ hpre hpost hs⟩
        rw [← hsplit]
        exact hget

theorem headerText_eq_ok_iff {t : Option String} : headerText h name = .ok t ↔ h.Says name t := by
  constructor
  · intro htext
    rcases says_or_unreadable h name with ⟨t', hsaid⟩ | ⟨value, hget, hvalue⟩
    · rw [headerText_of_said hsaid, Except.ok.injEq] at htext
      rwa [← htext]
    · rw [headerText_of_unreadable hget hvalue] at htext
      cases htext
  · exact headerText_of_said

theorem says_unique {t t' : Option String} (hsaid : h.Says name t) (hsaid' : h.Says name t') :
    t = t' :=
  Except.ok.inj ((headerText_of_said hsaid).symm.trans (headerText_of_said hsaid'))

theorem isReadable_of_said {t : Option String} (hsaid : h.Says name t) : h.IsReadable name := by
  rw [Headers.isReadable_iff]
  intro value hget
  by_contra hnone
  have hrefused := headerText_of_unreadable hget (Option.not_isSome_iff_eq_none.mp hnone)
  rw [headerText_of_said hsaid] at hrefused
  cases hrefused

theorem exists_said (hread : h.IsReadable name) : ∃ t, h.Says name t := by
  rcases says_or_unreadable h name with hsaid | ⟨value, hget, hvalue⟩
  · exact hsaid
  · have hsome := Headers.isReadable_iff.mp hread value hget
    rw [hvalue] at hsome
    cases hsome

theorem exists_of_headerText_eq_error {failure : EnvelopeError}
    (htext : headerText h name = .error failure) :
    ∃ value, h.get? name = some value ∧ ¬h.IsReadable name ∧
      failure = .header name (Utf8.decodeLossy value) := by
  rcases says_or_unreadable h name with ⟨t, hsaid⟩ | ⟨value, hget, hvalue⟩
  · rw [headerText_of_said hsaid] at htext
    cases htext
  · rw [headerText_of_unreadable hget hvalue] at htext
    refine ⟨value, hget, ?_, (Except.error.inj htext).symm⟩
    intro hread
    have hsome := Headers.isReadable_iff.mp hread value hget
    rw [hvalue] at hsome
    cases hsome

/-! ## Numbers -/

theorem compressionOfText?_eq_some_iff {s : String} {kind : Compression} :
    compressionOfText? s = some kind ↔ Decimal.IsNumeral s.toList kind.code := by
  have hcode : kind.code ≤ 255 := kind.code_le.trans (by decide)
  simp only [compressionOfText?, Option.bind_eq_some_iff, Decimal.read?_eq_some_iff,
    Compression.ofCode?_eq_some_iff]
  constructor
  · rintro ⟨n, ⟨hnumeral, -⟩, rfl⟩
    exact hnumeral
  · intro hnumeral
    exact ⟨kind.code, ⟨hnumeral, hcode⟩, rfl⟩

theorem lengthOfText?_eq_some_iff {s : String} {n : Nat} :
    lengthOfText? s = some n ↔ Decimal.IsNumeral s.toList n ∧ n ≤ maxUnpacked := by
  simp only [lengthOfText?, Option.filter_eq_some_iff, Decimal.read?_eq_some_iff, decide_eq_true_eq]
  constructor
  · rintro ⟨⟨hnumeral, -⟩, hle⟩
    exact ⟨hnumeral, hle⟩
  · rintro ⟨hnumeral, hle⟩
    exact ⟨⟨hnumeral, hle.trans (by decide)⟩, hle⟩

/-- What the text of a kind, if there is one, stands for. -/
def IsKind (kind : Compression) : Option String → Prop
  | none => kind = .none
  | some s => Decimal.IsNumeral s.toList kind.code

/-- What the text of a length, if there is one, stands for. -/
def IsLength (length : Option Nat) : Option String → Prop
  | none => length = none
  | some s => ∃ n, length = some n ∧ Decimal.IsNumeral s.toList n ∧ n ≤ maxUnpacked

theorem readKind_eq_ok_iff {t : Option String} {kind : Compression} :
    readKind t = .ok kind ↔ IsKind kind t := by
  cases t with
  | none => simp only [readKind, IsKind, Except.ok.injEq, eq_comm]
  | some s =>
    rw [IsKind, ← compressionOfText?_eq_some_iff, readKind]
    split <;> simp_all

theorem exists_of_readKind_eq_error {t : Option String} {failure : EnvelopeError}
    (hread : readKind t = .error failure) :
    ∃ s, t = some s ∧ (∀ n ≤ 4, ¬Decimal.IsNumeral s.toList n) ∧
      failure = .header originalEncoding s := by
  cases t with
  | none => cases hread
  | some s =>
    refine ⟨s, rfl, ?_, ?_⟩
    · intro n hn hnumeral
      obtain ⟨kind, rfl⟩ := Compression.exists_code_eq hn
      have hkind : IsKind kind (some s) := hnumeral
      rw [readKind_eq_ok_iff.mpr hkind] at hread
      cases hread
    · rw [readKind] at hread
      split at hread <;> cases hread
      rfl

theorem readLength_of_some {s : String} {n : Nat} (hlength : lengthOfText? s = some n) :
    readLength .lz4 (some s) = .ok (some n) := by
  simp only [readLength, hlength]
  rfl

theorem readLength_of_none {s : String} (hlength : lengthOfText? s = none) :
    readLength .lz4 (some s) = .error (.header HeaderName.originalLength s) := by
  simp only [readLength, hlength]
  rfl

theorem readLength_eq_ok_iff {t : Option String} {length : Option Nat} :
    readLength .lz4 t = .ok length ↔ IsLength length t := by
  cases t with
  | none => simp only [readLength, IsLength, Except.ok.injEq, eq_comm]
  | some s =>
    simp only [IsLength, ← lengthOfText?_eq_some_iff]
    rcases hlength : lengthOfText? s with _ | n
    · rw [readLength_of_none hlength]
      simp
    · rw [readLength_of_some hlength]
      simp [eq_comm]

/-- Only LZ4 looks at the length. -/
theorem readLength_of_ne {kind : Compression} (hkind : kind ≠ .lz4) (t : Option String) :
    readLength kind t = .ok none := by
  cases t with
  | none => rfl
  | some s => exact if_neg (by simpa [Compression.needsOriginalLength] using hkind)

theorem exists_of_readLength_eq_error {kind : Compression} {t : Option String}
    {failure : EnvelopeError} (hread : readLength kind t = .error failure) :
    kind = .lz4 ∧ ∃ s, t = some s ∧ (∀ n ≤ maxUnpacked, ¬Decimal.IsNumeral s.toList n) ∧
      failure = .header HeaderName.originalLength s := by
  have hkind : kind = .lz4 := by
    by_contra hne
    rw [readLength_of_ne hne] at hread
    cases hread
  subst hkind
  cases t with
  | none => cases hread
  | some s =>
    refine ⟨rfl, s, rfl, ?_, ?_⟩
    · intro n hn hnumeral
      have hlength : IsLength (some n) (some s) := ⟨n, rfl, hnumeral, hn⟩
      rw [readLength_eq_ok_iff.mpr hlength] at hread
      cases hread
    · rcases hlength : lengthOfText? s with _ | n
      · rw [readLength_of_none hlength] at hread
        exact (Except.error.inj hread).symm
      · rw [readLength_of_some hlength] at hread
        cases hread

/-! ## Announcements -/

/-- What headers announce, read by the texts and numerals that they hold. The wrapped key counts
only with the hybrid step and the length only with LZ4, whatever their names say otherwise. -/
structure Announces (h : Headers) (e : Envelope) : Prop where
  payload : e.payload = []
  chain : h.Says originalEncrypt e.chainText?
  key : 'c' ∈ e.chain.toList → h.Says encryptKey e.wrappedKey
  key_eq_none : 'c' ∉ e.chain.toList → e.wrappedKey = none
  kind : ∃ t, h.Says originalEncoding t ∧ IsKind e.compression t
  length : e.compression = .lz4 →
    ∃ t, h.Says HeaderName.originalLength t ∧ IsLength e.originalLength t
  length_eq_none : e.compression ≠ .lz4 → e.originalLength = none

theorem chainText?_getD (e : Envelope) : e.chainText?.getD "" = e.chain := by
  rw [chainText?]
  split
  · next hempty => exact (String.isEmpty_iff.mp hempty).symm
  · rfl

theorem chainText?_of_said {t : Option String} (hsaid : h.Says originalEncrypt t) {e : Envelope}
    (hchain : e.chain = t.getD "") : e.chainText? = t := by
  cases t with
  | none =>
    rw [chainText?, hchain]
    rfl
  | some s =>
    have hne : ¬s.isEmpty := by simpa using hsaid.isFieldText.ne_empty
    rw [chainText?, hchain, Option.getD_some, if_neg hne]

theorem IsKind.unique {kind kind' : Compression} {t : Option String} (hkind : IsKind kind t)
    (hkind' : IsKind kind' t) : kind = kind' :=
  Except.ok.inj ((readKind_eq_ok_iff.mpr hkind).symm.trans (readKind_eq_ok_iff.mpr hkind'))

theorem IsLength.unique {length length' : Option Nat} {t : Option String}
    (hlength : IsLength length t) (hlength' : IsLength length' t) : length = length' :=
  Except.ok.inj ((readLength_eq_ok_iff.mpr hlength).symm.trans (readLength_eq_ok_iff.mpr hlength'))

theorem Announces.unique {e e' : Envelope} (he : Announces h e) (he' : Announces h e') :
    e = e' := by
  have hchain : e.chain = e'.chain := by
    rw [← chainText?_getD e, ← chainText?_getD e', says_unique he.chain he'.chain]
  have hkey : e.wrappedKey = e'.wrappedKey := by
    by_cases hmem : 'c' ∈ e.chain.toList
    · exact says_unique (he.key hmem) (he'.key (hchain ▸ hmem))
    · rw [he.key_eq_none hmem, he'.key_eq_none (hchain ▸ hmem)]
  have hkind : e.compression = e'.compression := by
    obtain ⟨t, hsaid, hisKind⟩ := he.kind
    obtain ⟨t', hsaid', hisKind'⟩ := he'.kind
    obtain rfl := says_unique hsaid hsaid'
    exact hisKind.unique hisKind'
  have hlength : e.originalLength = e'.originalLength := by
    by_cases hlz4 : e.compression = .lz4
    · obtain ⟨t, hsaid, hisLength⟩ := he.length hlz4
      obtain ⟨t', hsaid', hisLength'⟩ := he'.length (hkind ▸ hlz4)
      obtain rfl := says_unique hsaid hsaid'
      exact hisLength.unique hisLength'
    · rw [he.length_eq_none hlz4, he'.length_eq_none (hkind ▸ hlz4)]
  obtain ⟨payload, chain, key, kind, length⟩ := e
  obtain ⟨payload', chain', key', kind', length'⟩ := e'
  obtain rfl : payload = [] := he.payload
  obtain rfl : payload' = [] := he'.payload
  obtain rfl : chain = chain' := hchain
  obtain rfl : key = key' := hkey
  obtain rfl : kind = kind' := hkind
  obtain rfl : length = length' := hlength
  rfl

/-! ## Offences -/

/-- The names that are looked at: the wrapped key only if the chain has the hybrid step. -/
def Consults (h : Headers) (name : String) : Prop :=
  name ∈ negotiation ∧
    (name = encryptKey → ∃ chain, h.Says originalEncrypt (some chain) ∧ 'c' ∈ chain.toList)

/-- A name whose first value makes the reader refuse, with what the refusal shows of it. -/
inductive Offends (h : Headers) : (name shown : String) → Prop
  | unreadable {name : String} {value : Bytes} (hasked : Consults h name)
      (hget : h.get? name = some value) (hbad : ¬h.IsReadable name) :
      Offends h name (Utf8.decodeLossy value)
  | kind {s : String} (hsaid : h.Says originalEncoding (some s))
      (hbad : ∀ n ≤ 4, ¬Decimal.IsNumeral s.toList n) : Offends h originalEncoding s
  | length {t s : String} (hkind : h.Says originalEncoding (some t))
      (hlz4 : Decimal.IsNumeral t.toList Compression.lz4.code)
      (hsaid : h.Says HeaderName.originalLength (some s))
      (hbad : ∀ n ≤ maxUnpacked, ¬Decimal.IsNumeral s.toList n) :
      Offends h HeaderName.originalLength s

/-- The first of the names, in the order of reading, that offends. -/
def OffendsFirst (h : Headers) (name shown : String) : Prop :=
  ∃ before after, negotiation = before ++ name :: after ∧ Offends h name shown ∧
    ∀ other ∈ before, ∀ text, ¬Offends h other text

theorem Offends.mem_negotiation {shown : String} (hoffends : Offends h name shown) :
    name ∈ negotiation := by
  cases hoffends with
  | unreadable hasked => exact hasked.1
  | kind => decide
  | length => decide

theorem not_offends_originalEncrypt (hread : h.IsReadable originalEncrypt) (shown : String) :
    ¬Offends h originalEncrypt shown := by
  generalize hname : originalEncrypt = name at hread
  intro hoffends
  cases hoffends with
  | unreadable _ _ hbad => exact hbad hread
  | kind => exact absurd hname (by decide)
  | length => exact absurd hname (by decide)

theorem not_offends_encryptKey (hread : Consults h encryptKey → h.IsReadable encryptKey)
    (shown : String) : ¬Offends h encryptKey shown := by
  generalize hname : encryptKey = name at hread
  intro hoffends
  cases hoffends with
  | unreadable hasked _ hbad => exact hbad (hread hasked)
  | kind => exact absurd hname (by decide)
  | length => exact absurd hname (by decide)

theorem not_offends_originalEncoding {t : Option String} {kind : Compression}
    (hsaid : h.Says originalEncoding t) (hkind : IsKind kind t) (shown : String) :
    ¬Offends h originalEncoding shown := by
  generalize hname : originalEncoding = name
  intro hoffends
  cases hoffends with
  | unreadable _ _ hbad => exact hbad (hname ▸ isReadable_of_said hsaid)
  | kind hsaid' hbad =>
    obtain rfl := says_unique hsaid hsaid'
    exact hbad _ kind.code_le hkind
  | length => exact absurd hname (by decide)

theorem not_offends_originalLength {t t' : Option String} {kind : Compression}
    {length : Option Nat} (hkindSaid : h.Says originalEncoding t) (hkind : IsKind kind t)
    (hsaid : h.Says HeaderName.originalLength t') (hlength : kind = .lz4 → IsLength length t')
    (shown : String) : ¬Offends h HeaderName.originalLength shown := by
  generalize hname : HeaderName.originalLength = name
  intro hoffends
  cases hoffends with
  | unreadable _ _ hbad => exact hbad (hname ▸ isReadable_of_said hsaid)
  | kind => exact absurd hname (by decide)
  | length hkindSaid' hlz4 hsaid' hbad =>
    obtain rfl := says_unique hkindSaid hkindSaid'
    obtain rfl := says_unique hsaid hsaid'
    have hcode : Compression.lz4.code = kind.code := hlz4.unique hkind
    have heq : kind = .lz4 := by
      have hof := Compression.ofCode?_code kind
      rw [← hcode] at hof
      exact (Option.some.inj hof).symm
    obtain ⟨n, -, hnumeral, hle⟩ := hlength heq
    exact hbad n hle hnumeral

/-! ## The reader -/

/-- The text of the wrapped key, looked at only for a chain with the hybrid step. -/
def keyText (h : Headers) (chain : String) : Except EnvelopeError (Option String) :=
  if 'c' ∈ chain.toList then headerText h encryptKey else .ok none

/-- The reader as one step for each name. -/
theorem ofHeaders_eq (h : Headers) :
    ofHeaders h = (do
      let chain ← headerText h originalEncrypt
      let key ← keyText h (chain.getD "")
      let kind ← headerText h originalEncoding >>= readKind
      let length ← headerText h HeaderName.originalLength >>= readLength kind
      .ok ⟨[], chain.getD "", key, kind, length⟩) := by
  rw [ofHeaders]
  apply bind_congr
  intro chain
  simp only [keyText, SealStep.code, List.contains_iff_mem, bind_assoc]
  split <;> rfl

theorem consults_of_ne (hname : name ∈ negotiation) (hne : name ≠ encryptKey) : Consults h name :=
  ⟨hname, fun heq => absurd heq hne⟩

theorem consults_encryptKey_iff {t : Option String} (hsaid : h.Says originalEncrypt t) :
    Consults h encryptKey ↔ 'c' ∈ (t.getD "").toList := by
  constructor
  · rintro ⟨-, hasked⟩
    obtain ⟨chain, hchain, hmem⟩ := hasked rfl
    obtain rfl := says_unique hsaid hchain
    exact hmem
  · intro hmem
    cases t with
    | none => exact absurd hmem (by decide)
    | some chain => exact ⟨by decide, fun _ => ⟨chain, hsaid, hmem⟩⟩

theorem headerText_cases (hasked : Consults h name) :
    (∃ t, headerText h name = .ok t ∧ h.Says name t) ∨
      ∃ shown, headerText h name = .error (.header name shown) ∧ Offends h name shown := by
  rcases htext : headerText h name with failure | t
  · obtain ⟨value, hget, hbad, rfl⟩ := exists_of_headerText_eq_error htext
    exact .inr ⟨_, rfl, .unreadable hasked hget hbad⟩
  · exact .inl ⟨t, rfl, headerText_eq_ok_iff.mp htext⟩

theorem keyText_cases {t : Option String} (hchain : h.Says originalEncrypt t) :
    (∃ key, keyText h (t.getD "") = .ok key ∧ ('c' ∈ (t.getD "").toList → h.Says encryptKey key) ∧
        ('c' ∉ (t.getD "").toList → key = none)) ∨
      ∃ shown, keyText h (t.getD "") = .error (.header encryptKey shown) ∧
        Offends h encryptKey shown := by
  rw [keyText]
  split
  · next hmem =>
    rcases headerText_cases ((consults_encryptKey_iff hchain).mpr hmem) with
      ⟨key, hkey, hsaid⟩ | hrefused
    · exact .inl ⟨key, hkey, fun _ => hsaid, fun hnone => absurd hmem hnone⟩
    · exact .inr hrefused
  · next hnone => exact .inl ⟨none, rfl, fun hmem => absurd hmem hnone, fun _ => rfl⟩

theorem readKind_cases (h : Headers) :
    (∃ kind t, (headerText h originalEncoding >>= readKind) = .ok kind ∧
        h.Says originalEncoding t ∧ IsKind kind t) ∨
      ∃ shown, (headerText h originalEncoding >>= readKind) =
        .error (.header originalEncoding shown) ∧ Offends h originalEncoding shown := by
  have hasked : Consults h originalEncoding := consults_of_ne (by decide) (by decide)
  rcases headerText_cases hasked with ⟨t, htext, hsaid⟩ | ⟨shown, htext, hoffends⟩
  · rw [bind_of_ok htext]
    rcases hkind : readKind t with failure | kind
    · obtain ⟨s, rfl, hbad, rfl⟩ := exists_of_readKind_eq_error hkind
      exact .inr ⟨s, rfl, .kind hsaid hbad⟩
    · exact .inl ⟨kind, t, rfl, hsaid, readKind_eq_ok_iff.mp hkind⟩
  · rw [bind_of_error htext]
    exact .inr ⟨shown, rfl, hoffends⟩

theorem readLength_cases {kind : Compression} {t : Option String}
    (hkindSaid : h.Says originalEncoding t) (hkind : IsKind kind t) :
    (∃ length t', (headerText h HeaderName.originalLength >>= readLength kind) = .ok length ∧
        h.Says HeaderName.originalLength t' ∧ (kind = .lz4 → IsLength length t') ∧
        (kind ≠ .lz4 → length = none)) ∨
      ∃ shown, (headerText h HeaderName.originalLength >>= readLength kind) =
        .error (.header HeaderName.originalLength shown) ∧
          Offends h HeaderName.originalLength shown := by
  have hasked : Consults h HeaderName.originalLength := consults_of_ne (by decide) (by decide)
  rcases headerText_cases hasked with ⟨t', htext, hsaid⟩ | ⟨shown, htext, hoffends⟩
  · rw [bind_of_ok htext]
    rcases hlength : readLength kind t' with failure | length
    · obtain ⟨rfl, s, rfl, hbad, rfl⟩ := exists_of_readLength_eq_error hlength
      obtain ⟨u, rfl⟩ : ∃ u, t = some u := by
        cases t with
        | none => cases hkind
        | some u => exact ⟨u, rfl⟩
      exact .inr ⟨s, rfl, .length hkindSaid hkind hsaid hbad⟩
    · refine .inl ⟨length, t', rfl, hsaid, ?_, ?_⟩
      · rintro rfl
        exact readLength_eq_ok_iff.mp hlength
      · intro hne
        rw [readLength_of_ne hne] at hlength
        exact (Except.ok.inj hlength).symm
  · rw [bind_of_error htext]
    exact .inr ⟨shown, rfl, hoffends⟩

/-- Every outcome of reading: an announcement, or the first name that offends. -/
theorem ofHeaders_cases (h : Headers) :
    (∃ e, ofHeaders h = .ok e ∧ Announces h e ∧ h.IsReadable HeaderName.originalLength) ∨
      ∃ name shown, ofHeaders h = .error (.header name shown) ∧ OffendsFirst h name shown := by
  rw [ofHeaders_eq]
  have hasked : Consults h originalEncrypt := consults_of_ne (by decide) (by decide)
  obtain ⟨chain, hchain, hchainSaid⟩ | ⟨shown, hchain, hoffends⟩ := headerText_cases hasked
  case inr =>
    rw [bind_of_error hchain]
    exact .inr ⟨_, _, rfl, [], _, rfl, hoffends, by simp⟩
  have hfirst := not_offends_originalEncrypt (isReadable_of_said hchainSaid)
  obtain ⟨key, hkey, hkeySaid, hkeyNone⟩ | ⟨shown, hkey, hoffends⟩ := keyText_cases hchainSaid
  case inr =>
    rw [bind_of_ok hchain, bind_of_error hkey]
    exact .inr ⟨_, _, rfl, [originalEncrypt], _, rfl, hoffends, by simpa using hfirst⟩
  have hsecond : ∀ shown, ¬Offends h encryptKey shown := by
    apply not_offends_encryptKey
    intro hasked
    exact isReadable_of_said (hkeySaid ((consults_encryptKey_iff hchainSaid).mp hasked))
  obtain ⟨kind, t, hkind, hkindSaid, hisKind⟩ | ⟨shown, hkind, hoffends⟩ := readKind_cases h
  case inr =>
    rw [bind_of_ok hchain, bind_of_ok hkey, bind_of_error hkind]
    exact .inr ⟨_, _, rfl, [originalEncrypt, encryptKey], _, rfl, hoffends,
      by simpa using ⟨hfirst, hsecond⟩⟩
  have hthird := not_offends_originalEncoding hkindSaid hisKind
  obtain ⟨length, t', hlength, hlengthSaid, hisLength, hlengthNone⟩ | ⟨shown, hlength, hoffends⟩ :=
    readLength_cases hkindSaid hisKind
  case inr =>
    rw [bind_of_ok hchain, bind_of_ok hkey, bind_of_ok hkind, bind_of_error hlength]
    exact .inr ⟨_, _, rfl, [originalEncrypt, encryptKey, originalEncoding], _, rfl, hoffends,
      by simpa using ⟨hfirst, hsecond, hthird⟩⟩
  rw [bind_of_ok hchain, bind_of_ok hkey, bind_of_ok hkind, bind_of_ok hlength]
  refine .inl ⟨_, rfl, ?_, isReadable_of_said hlengthSaid⟩
  have hchainText : (Envelope.mk [] (chain.getD "") key kind length).chainText? = chain :=
    chainText?_of_said hchainSaid rfl
  exact
    { payload := rfl
      chain := hchainText.symm ▸ hchainSaid
      key := hkeySaid
      key_eq_none := hkeyNone
      kind := ⟨t, hkindSaid, hisKind⟩
      length := fun heq => ⟨t', hlengthSaid, hisLength heq⟩
      length_eq_none := hlengthNone }

theorem Announces.not_offends {e : Envelope} (he : Announces h e)
    (hlength : h.IsReadable HeaderName.originalLength) {shown : String} :
    ¬Offends h name shown := by
  intro hoffends
  obtain ⟨t, hkindSaid, hkind⟩ := he.kind
  obtain ⟨t', hlengthSaid⟩ := exists_said hlength
  have hisLength : e.compression = .lz4 → IsLength e.originalLength t' := by
    intro hlz4
    obtain ⟨u, hsaid, hisLength⟩ := he.length hlz4
    rwa [says_unique hlengthSaid hsaid]
  have hkey : Consults h encryptKey → h.IsReadable encryptKey := by
    intro hasked
    rw [consults_encryptKey_iff he.chain, chainText?_getD] at hasked
    exact isReadable_of_said (he.key hasked)
  have hmem := hoffends.mem_negotiation
  simp only [negotiation, List.mem_cons, List.not_mem_nil, or_false] at hmem
  rcases hmem with rfl | rfl | rfl | rfl
  · exact not_offends_originalEncrypt (isReadable_of_said he.chain) _ hoffends
  · exact not_offends_encryptKey hkey _ hoffends
  · exact not_offends_originalEncoding hkindSaid hkind _ hoffends
  · exact not_offends_originalLength hkindSaid hkind hlengthSaid hisLength _ hoffends

theorem ofHeaders_eq_ok_iff {e : Envelope} :
    ofHeaders h = .ok e ↔ Announces h e ∧ h.IsReadable HeaderName.originalLength := by
  rcases ofHeaders_cases h with ⟨e', hread, he', hlength⟩ | ⟨name, shown, hread, hfirst⟩
  · rw [hread, Except.ok.injEq]
    constructor
    · rintro rfl
      exact ⟨he', hlength⟩
    · rintro ⟨he, -⟩
      exact he'.unique he
  · rw [hread]
    refine ⟨nofun, ?_⟩
    rintro ⟨he, hlength⟩
    obtain ⟨_, _, -, hoffends, -⟩ := hfirst
    exact absurd hoffends (he.not_offends hlength)

end Envelope
end SealedHttp
