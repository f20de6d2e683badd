import SealedHttp.Proofs.Envelope.RoundTrip

/-!
# Chains with several hybrid steps

An envelope has one place for a wrapped key, and each hybrid step puts its own key there. The other
party opens all hybrid steps with the last key: the last of them and what follows it is undone as in
any chain, an earlier one only if its message key was the same.
-/

namespace SealedHttp.Envelope

/-- The message keys that encoding draws, one for each hybrid step of the chain. -/
def messageKeys (ring : KeyRing) (data : Bytes) (chain : String) (kind : Compression)
    (minSize : Nat) (d : Draws) : List Bytes :=
  match parseChain chain, compressed kind minSize data with
  | .ok steps, .ok (out, _, _) => SealStep.messageKeys ring steps out d
  | _, _ => []

theorem messageKeys_eq {ring : KeyRing} {data out : Bytes} {chain : String}
    {kind applied : Compression} {minSize : Nat} {length : Option Nat} {steps : List SealStep}
    (hsteps : SealStep.parseList chain.toList = .ok steps)
    (hpacked : compressed kind minSize data = .ok (out, applied, length)) (d : Draws) :
    messageKeys ring data chain kind minSize d = SealStep.messageKeys ring steps out d := by
  have hparse : parseChain chain = .ok steps := by
    rw [parseChain, SealStep.parse, hsteps]
    rfl
  rw [messageKeys, hparse, hpacked]

/-- What the other party makes of an envelope, however many hybrid steps its chain has. -/
structure OpensByLastKey (ring peer : KeyRing) (data : Bytes) (chain : String) (kind : Compression)
    (minSize : Nat) (d : Draws) (e : Envelope) : Prop where
  /-- The wrapped key is the last one. -/
  unwraps : ∀ key ∈ (messageKeys ring data chain kind minSize d).getLast?,
    ∃ text ∈ e.wrappedKey, peer.Unwraps text key
  /-- The payload comes back if all hybrid steps drew the same key. -/
  decode_eq : (∀ key ∈ messageKeys ring data chain kind minSize d,
      ∀ key' ∈ messageKeys ring data chain kind minSize d, key = key') →
    e.decode peer = .done data
  /-- In any case the chain is undone down to its last hybrid step. What is in front of that is
  opened with the last key instead of its own. -/
  tryDecode_eq : ∀ front back, chain.toList = front ++ 'c' :: back → 'c' ∉ back →
    ∃ e₀ d₀, (encode ring data (String.ofList front) kind minSize).run d = (.done e₀, d₀) ∧
      tryDecode peer e = tryDecode peer { e₀ with wrappedKey := e.wrappedKey }

theorem opensByLastKey {ring peer : KeyRing} (hring : ring.OpenedBy peer) {data : Bytes}
    (hlength : data.length ≤ maxUnpacked) {chain : String} {kind : Compression} {minSize : Nat}
    {e : Envelope} {d d' : Draws}
    (h : (encode ring data chain kind minSize).run d = (.done e, d')) :
    OpensByLastKey ring peer data chain kind minSize d e := by
  obtain ⟨steps, out, hsteps, hpacked, happly, rfl⟩ := exists_of_tryEncode (tryEncode_of_encode h)
  have hkeys : messageKeys ring data e.chain kind minSize d = _ :=
    messageKeys_eq hsteps hpacked d
  refine ⟨?_, ?_, ?_⟩
  · rw [hkeys]
    exact SealStep.unwraps_of_applyAll hring happly
  · rw [hkeys]
    intro hsame
    exact decode_eq_done_iff.mpr (tryDecode_of_undoAll hlength hsteps hpacked
      (SealStep.undoAll_of_sameKey hring happly hsame))
  · intro front back hchain hback
    rw [hchain] at hsteps
    obtain ⟨steps₀, rest, hfront, hrest, rfl⟩ := SealStep.exists_of_parseList_append hsteps
    obtain ⟨mid, midKey, d₀, happly₀, happlyRest⟩ := SealStep.exists_of_applyAll_append happly
    have hone : rest.count .hybrid ≤ 1 := by
      rw [SealStep.count_hybrid_of_parseList hrest, List.count_cons_self,
        List.count_eq_zero.mpr hback]
    have hundo := SealStep.undoAll_of_applyAll hring hone happlyRest
    have hfront' : SealStep.parseList (String.ofList front).toList = .ok steps₀ := by
      rwa [String.toList_ofList]
    refine ⟨⟨mid, String.ofList front, midKey, e.compression, e.originalLength⟩, d₀, ?_, ?_⟩
    · rw [run_encode, run_tryEncode hfront' hpacked, happly₀]
      rfl
    · have hsplit : SealStep.undoAll peer e.wrappedKey (steps₀ ++ rest) e.payload =
          SealStep.undoAll peer e.wrappedKey steps₀ mid := by
        rw [SealStep.undoAll_append, hundo]
        rfl
      rw [← hchain] at hsteps
      simp only [tryDecode, parseChain, SealStep.parse, hsteps, hfront', hsplit, Except.mapError,
        bind, Except.bind]

/-! ## Both directions -/

/-- Between a server and its client, every payload within the limit is encoded on every chain of
known codes, whatever the number of its hybrid steps, and the other side opens it by the last of the
message keys. -/
theorem repeated_hybrid {server : KeyRing} (hkey : Aes.isKeyLength server.passphrase.length)
    (hpair : server.rsa.IsPair) (hsize : 27 ≤ server.rsa.size) {data : Bytes}
    (hlength : data.length ≤ maxUnpacked) {chain : String}
    (hchain : ∀ c ∈ chain.toList, c ∈ ['a', 'b', 'c', 'r', 'h']) (kind : Compression)
    (minSize : Nat) (d : Draws) :
    (∃ e d', (encode server data chain kind minSize).run d = (.done e, d') ∧
      OpensByLastKey server server.clientRing data chain kind minSize d e) ∧
    ∃ e d', (encode server.clientRing data chain kind minSize).run d = (.done e, d') ∧
      OpensByLastKey server.clientRing server data chain kind minSize d e := by
  have htoClient := KeyRing.openedBy_clientRing hpair
  have htoServer := KeyRing.clientRing_openedBy hpair
  constructor
  · obtain ⟨e, d', hencode⟩ := exists_encode htoClient hkey hsize hlength hchain kind minSize d
    exact ⟨e, d', hencode, opensByLastKey htoClient hlength hencode⟩
  · obtain ⟨e, d', hencode⟩ := exists_encode htoServer hkey hsize hlength hchain kind minSize d
    exact ⟨e, d', hencode, opensByLastKey htoServer hlength hencode⟩

/-- With draws that are always the same, two hybrid steps are undone in either direction. -/
theorem repeated_hybrid_sameDraws :
    (∃ e d', (encode shortestRing [55] "cc" .gzip 2).run ⟨fun _ => 0, 0⟩ = (.done e, d') ∧
      decode shortestRing.clientRing e = .done [55]) ∧
    ∃ e d', (encode shortestRing.clientRing [55] "cc" .gzip 2).run ⟨fun _ => 0, 0⟩ = (.done e, d') ∧
      decode shortestRing e = .done [55] := by
  have hkey : Aes.isKeyLength shortestRing.passphrase.length := by decide +kernel
  have hdata : ([55] : Bytes).length ≤ maxUnpacked := by decide
  have hchain : ∀ c ∈ "cc".toList, c ∈ ['a', 'b', 'c', 'r', 'h'] := by simp
  obtain ⟨⟨e, d', hencode, he⟩, ⟨e₁, d₁, hencode₁, he₁⟩⟩ :=
    repeated_hybrid hkey RsaKeys.isPair_mersennePair RsaKeys.size_mersennePair.ge hdata hchain
      .gzip 2 ⟨fun _ => 0, 0⟩
  exact ⟨⟨e, d', hencode, he.decode_eq (by decide +kernel)⟩,
    ⟨e₁, d₁, hencode₁, he₁.decode_eq (by decide +kernel)⟩⟩

/-- Of two hybrid steps alone, the inner one is opened with the key of the outer one. -/
theorem tryDecode_twice {ring peer : KeyRing} (hring : ring.OpenedBy peer) {data : Bytes}
    (hlength : data.length ≤ maxUnpacked) {minSize : Nat} {e : Envelope} {d d' : Draws}
    (h : (encode ring data "cc" .none minSize).run d = (.done e, d')) {last : Bytes}
    (hlast : last ∈ (messageKeys ring data "cc" .none minSize d).getLast?) :
    tryDecode peer e = (Aes.encrypt d.nextKey data >>= Aes.decrypt last).mapError .cipher := by
  have he := opensByLastKey hring hlength h
  obtain ⟨text, htext, hunwraps⟩ := he.unwraps last hlast
  obtain ⟨e₀, d₀, hencode₀, htry⟩ := he.tryDecode_eq ['c'] [] rfl List.not_mem_nil
  obtain ⟨steps, out, hsteps, hpacked, happly, hchain₀⟩ :=
    exists_of_tryEncode (tryEncode_of_encode hencode₀)
  obtain rfl : [SealStep.hybrid] = steps := Except.ok.inj hsteps
  have hplain : compressed .none minSize data = .ok (data, .none, none) := rfl
  rw [hplain, Except.ok.injEq, Prod.mk.injEq, Prod.mk.injEq] at hpacked
  obtain ⟨rfl, hkind, -⟩ := hpacked
  obtain ⟨⟨inner, fresh⟩, d₁, hstep, hdone⟩ := Draws.exists_of_run_andThen happly
  obtain ⟨_, -, hrun⟩ := SealStep.exists_of_apply_hybrid hstep
  obtain ⟨_, _, hinner, -, -⟩ := KeyRing.exists_of_hybridEncrypt hrun
  obtain rfl : inner = e₀.payload := (Prod.mk.inj (Except.ok.inj (Prod.mk.inj hdone).1)).1
  have hparse : parseChain e₀.chain = .ok [.hybrid] := by
    rw [hchain₀]
    rfl
  have hundo : SealStep.undoAll peer e.wrappedKey [.hybrid] e₀.payload =
      Aes.decrypt last e₀.payload := by
    rw [SealStep.undoAll_singleton, Option.mem_def.mp htext, SealStep.undo, hunwraps]
  rw [htry, hinner, tryDecode]
  simp only [hparse, hundo, ← hkind, bind, Except.bind]
  cases Aes.decrypt last e₀.payload <;> rfl

/-- With draws that are not the same, the payload of two hybrid steps is lost. -/
theorem repeated_hybrid_differentDraws :
    ∃ e d', (encode shortestRing [55] "cc" .none 0).run ⟨id, 0⟩ = (.done e, d') ∧
      decode shortestRing.clientRing e ≠ .done [55] := by
  have hring : shortestRing.OpenedBy shortestRing.clientRing :=
    KeyRing.openedBy_clientRing RsaKeys.isPair_mersennePair
  have hdata : ([55] : Bytes).length ≤ maxUnpacked := by decide
  have hchain : ∀ c ∈ "cc".toList, c ∈ ['a', 'b', 'c', 'r', 'h'] := by simp
  obtain ⟨e, d', hencode⟩ := exists_encode hring (by decide +kernel) RsaKeys.size_mersennePair.ge
    hdata hchain .none 0 ⟨id, 0⟩
  have hlast : (⟨id, 16⟩ : Draws).nextKey ∈
      (messageKeys shortestRing [55] "cc" .none 0 ⟨id, 0⟩).getLast? := by decide +kernel
  have hlost : (Aes.encrypt (⟨id, 0⟩ : Draws).nextKey [55] >>=
      Aes.decrypt (⟨id, 16⟩ : Draws).nextKey).mapError EnvelopeError.cipher ≠ .ok [55] := by
    decide +kernel
  refine ⟨e, d', hencode, fun hdecode => hlost ?_⟩
  rw [← tryDecode_twice hring hdata hencode hlast]
  exact decode_eq_done_iff.mp hdecode

end SealedHttp.Envelope
