import SealedHttp.Proofs.Envelope.Headers

/-!
# Headers that do not apply

The wrapped key is looked at only for a chain with the hybrid step, and the number of the length
only for LZ4. What the two names hold otherwise does not change what is read, with one exception: a
length that cannot be read as text is refused although nobody needs it.
-/

namespace SealedHttp

namespace Headers

open HeaderName

/-- The chain that is announced has the hybrid step. -/
def AnnouncesHybrid (h : Headers) : Prop :=
  ∃ chain, h.Says originalEncrypt (some chain) ∧ 'c' ∈ chain.toList

/-- The kind that is announced is LZ4. -/
def AnnouncesLz4 (h : Headers) : Prop :=
  ∃ t, h.Says originalEncoding (some t) ∧ Decimal.IsNumeral t.toList Compression.lz4.code

/-- The same chain and the same kind are announced, and the other names have the same values as far
as that chain and that kind ask for them. -/
structure Alike (h h' : Headers) : Prop where
  chain : h.values originalEncrypt = h'.values originalEncrypt
  kind : h.values originalEncoding = h'.values originalEncoding
  key : h.AnnouncesHybrid → h.values encryptKey = h'.values encryptKey
  length : h.AnnouncesLz4 → h.values originalLength = h'.values originalLength

theorem get?_congr {h h' : Headers} {name : String} (hsame : h.values name = h'.values name) :
    h.get? name = h'.get? name := congrArg List.head? hsame

end Headers

namespace Envelope

open HeaderName

variable {h h' : Headers}

/-! ## What is read in front of the length -/

def readFront (h : Headers) : Except EnvelopeError Envelope := do
  let chain ← headerText h originalEncrypt
  let key ← keyText h (chain.getD "")
  let kind ← headerText h originalEncoding >>= readKind
  .ok ⟨[], chain.getD "", key, kind, none⟩

theorem ofHeaders_eq_readFront (h : Headers) :
    ofHeaders h = (do
      let e ← readFront h
      let length ← headerText h HeaderName.originalLength >>= readLength e.compression
      .ok { e with originalLength := length }) := by
  rw [ofHeaders_eq, readFront]
  simp only [bind_assoc]
  rfl

theorem keyText_congr (halike : h.Alike h') {chain : Option String}
    (hchain : headerText h originalEncrypt = .ok chain) :
    keyText h (chain.getD "") = keyText h' (chain.getD "") := by
  rw [keyText, keyText]
  split
  · next hmem =>
    cases chain with
    | none => exact absurd hmem (by decide)
    | some chain =>
      have hhybrid : h.AnnouncesHybrid := ⟨chain, headerText_eq_ok_iff.mp hchain, hmem⟩
      exact headerText_congr (Headers.get?_congr (halike.key hhybrid))
  · rfl

theorem readFront_congr (halike : h.Alike h') : readFront h = readFront h' := by
  have hchain := headerText_congr (Headers.get?_congr halike.chain)
  have hkind := headerText_congr (Headers.get?_congr halike.kind)
  rw [readFront, readFront, ← hchain, ← hkind]
  cases hread : headerText h originalEncrypt with
  | error failure => rfl
  | ok chain =>
    rw [bind_of_ok rfl, bind_of_ok rfl, keyText_congr halike hread]

theorem announcesLz4_of_readFront {e : Envelope} (hfront : readFront h = .ok e)
    (hlz4 : e.compression = .lz4) : h.AnnouncesLz4 := by
  obtain ⟨chain, -, hafterChain⟩ := exists_of_bind_eq_ok hfront
  obtain ⟨key, -, hafterKey⟩ := exists_of_bind_eq_ok hafterChain
  obtain ⟨kind, hkind, hlast⟩ := exists_of_bind_eq_ok hafterKey
  obtain ⟨t, htext, hread⟩ := exists_of_bind_eq_ok hkind
  cases hlast
  obtain rfl : kind = .lz4 := hlz4
  rw [readKind_eq_ok_iff] at hread
  cases t with
  | none => cases hread
  | some t => exact ⟨t, headerText_eq_ok_iff.mp htext, hread⟩

/-! ## The length -/

theorem readLength_of_readable {kind : Compression} (hkind : kind ≠ .lz4)
    (hread : h.IsReadable HeaderName.originalLength) :
    (headerText h HeaderName.originalLength >>= readLength kind) = .ok none := by
  obtain ⟨t, hsaid⟩ := exists_said hread
  rw [bind_of_ok (headerText_of_said hsaid), readLength_of_ne hkind]

/-- A length that cannot be read is refused for every kind, but after everything else. -/
theorem ofHeaders_of_unreadable {value : Bytes}
    (hget : h.get? HeaderName.originalLength = some value)
    (hbad : ¬h.IsReadable HeaderName.originalLength) :
    ofHeaders h = readFront h >>= fun _ =>
      .error (.header HeaderName.originalLength (Utf8.decodeLossy value)) := by
  have hvalue : Headers.text? value = none := by
    rw [← Option.not_isSome_iff_eq_none]
    intro hsome
    refine hbad (Headers.isReadable_iff.mpr fun other hother => ?_)
    obtain rfl : value = other := Option.some.inj (hget.symm.trans hother)
    exact hsome
  rw [ofHeaders_eq_readFront, headerText_of_unreadable hget hvalue]
  rfl

theorem ofHeaders_bind_error_of_readable (failure : EnvelopeError) (hlz4 : ¬h.AnnouncesLz4)
    (hread : h.IsReadable HeaderName.originalLength) :
    (ofHeaders h >>= fun _ => .error failure : Except EnvelopeError Envelope) =
      readFront h >>= fun _ => .error failure := by
  rw [ofHeaders_eq_readFront]
  cases hfront : readFront h with
  | error failure => rfl
  | ok e =>
    have hkind : e.compression ≠ .lz4 := fun heq => hlz4 (announcesLz4_of_readFront hfront heq)
    rw [bind_of_ok rfl, bind_of_ok rfl, readLength_of_readable hkind hread]
    rfl

theorem ofHeaders_congr_of_alike (halike : h.Alike h')
    (hlength : h.values HeaderName.originalLength = h'.values HeaderName.originalLength ∨
      h.IsReadable HeaderName.originalLength ∧ h'.IsReadable HeaderName.originalLength) :
    ofHeaders h = ofHeaders h' := by
  rw [ofHeaders_eq_readFront, ofHeaders_eq_readFront, ← readFront_congr halike]
  cases hfront : readFront h with
  | error failure => rfl
  | ok e =>
    rw [bind_of_ok rfl, bind_of_ok rfl]
    by_cases hlz4 : e.compression = .lz4
    · have hsame := halike.length (announcesLz4_of_readFront hfront hlz4)
      rw [headerText_congr (Headers.get?_congr hsame)]
    · rcases hlength with hsame | ⟨hread, hread'⟩
      · rw [headerText_congr (Headers.get?_congr hsame)]
      · rw [readLength_of_readable hlz4 hread, readLength_of_readable hlz4 hread']

/-- Values that do not apply do not matter, unless the length is among them and is no text. Then it
is refused, although the kind does not ask for it. -/
theorem ofHeaders_relevance (halike : h.Alike h') :
    (h.values HeaderName.originalLength = h'.values HeaderName.originalLength ∨
        h.IsReadable HeaderName.originalLength ∧ h'.IsReadable HeaderName.originalLength →
      ofHeaders h = ofHeaders h') ∧
    ∀ value, h.get? HeaderName.originalLength = some value →
      ¬h.IsReadable HeaderName.originalLength → h'.IsReadable HeaderName.originalLength →
        ofHeaders h = ofHeaders h' >>= fun _ =>
          .error (.header HeaderName.originalLength (Utf8.decodeLossy value)) := by
  refine ⟨ofHeaders_congr_of_alike halike, ?_⟩
  intro value hget hbad hread
  have hlz4 : ¬h'.AnnouncesLz4 := by
    rintro ⟨t, hsaid, hnumeral⟩
    have hannounces : h.AnnouncesLz4 :=
      ⟨t, (says_congr (Headers.get?_congr halike.kind)).mpr hsaid, hnumeral⟩
    rw [Headers.IsReadable, Headers.get?_congr (halike.length hannounces)] at hbad
    exact hbad hread
  rw [ofHeaders_of_unreadable hget hbad, ofHeaders_bind_error_of_readable _ hlz4 hread,
    readFront_congr halike]

/-- Headers that announce base64 and nothing else. -/
def armored : Headers := ⟨[(originalEncrypt, Bytes.ofText "b")]⟩

/-- The same with a value that is no text, under one of the names that do not apply. -/
def armoredWith (name : String) : Headers := armored.append name [0xFF]

theorem alike_armoredWith {name : String}
    (hname : name = encryptKey ∨ name = HeaderName.originalLength) :
    (armoredWith name).Alike armored ∧ ¬(armoredWith name).AnnouncesLz4 := by
  have hvalues : (armoredWith name).values originalEncrypt = armored.values originalEncrypt ∧
      (armoredWith name).values originalEncoding = [] := by
    rcases hname with rfl | rfl <;> exact ⟨rfl, rfl⟩
  have hsaid : (armoredWith name).Says originalEncrypt (some "b") := by
    rw [says_congr (Headers.get?_congr hvalues.1)]
    exact headerText_eq_ok_iff.mp (by decide +kernel)
  have hlz4 : ¬(armoredWith name).AnnouncesLz4 := by
    rintro ⟨t, hkind, -⟩
    have hnone : (armoredWith name).get? originalEncoding = none := by
      rw [Headers.get?, hvalues.2]
      rfl
    cases says_unique (.absent hnone) hkind
  have hhybrid : ¬(armoredWith name).AnnouncesHybrid := by
    rintro ⟨chain, hchain, hmem⟩
    cases says_unique hsaid hchain
    exact absurd hmem (by decide)
  exact ⟨⟨hvalues.1, hvalues.2, fun h => absurd h hhybrid, fun h => absurd h hlz4⟩, hlz4⟩

theorem ofHeaders_relevance_armored :
    ofHeaders (armoredWith encryptKey) = ofHeaders armored ∧
    ofHeaders (armoredWith HeaderName.originalLength) = ofHeaders armored >>= fun _ =>
      .error (.header HeaderName.originalLength (Utf8.decodeLossy [0xFF])) := by
  refine ⟨(ofHeaders_relevance (alike_armoredWith (.inl rfl)).1).1 (.inl rfl), ?_⟩
  refine (ofHeaders_relevance (alike_armoredWith (.inr rfl)).1).2 [0xFF] rfl ?_ ?_
  · intro hread
    exact absurd (hread [0xFF] rfl 0xFF List.mem_cons_self) (by decide)
  · rintro value ⟨⟩

/-- A length that does not apply does matter here. -/
theorem ofHeaders_armored_ne : (armoredWith HeaderName.originalLength).Alike armored ∧
    ¬(armoredWith HeaderName.originalLength).AnnouncesLz4 ∧
    ofHeaders (armoredWith HeaderName.originalLength) ≠ ofHeaders armored := by
  have halike := alike_armoredWith (.inr (Eq.refl HeaderName.originalLength))
  exact ⟨halike.1, halike.2, by decide +kernel⟩

end Envelope
end SealedHttp
