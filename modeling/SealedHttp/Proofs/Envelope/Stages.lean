import SealedHttp.Proofs.Envelope.Canonical

/-!
# Chains compose

Sealing by a chain is sealing by its first part and then sealing what came out by the rest; opening
goes the other way round. The draws are used in the same order, the first stage that fails decides
the failure, and a later wrapped key takes the place of an earlier one.
-/

namespace SealedHttp

namespace SealStep

variable {ring : KeyRing} {steps : List SealStep}

/-- The place of the wrapped key is only written: what stood there before does not matter but where
no step wraps a key. -/
theorem run_applyAll_of_run_none {data : Bytes} {d d' : Draws}
    {result : Except CipherError (Bytes × Option String)}
    (h : (applyAll ring steps data none).run d = (result, d')) (key : Option String) :
    (applyAll ring steps data key).run d = (result.map fun p => (p.1, p.2.or key), d') := by
  induction steps generalizing data key d d' result with
  | nil =>
    cases h
    rfl
  | cons step steps ih =>
    rcases hstep : (step.apply ring data).run d with ⟨failure | ⟨mid, fresh⟩, d₁⟩
    · rw [applyAll, Draws.run_andThen_of_error hstep] at h ⊢
      cases h
      rfl
    · rw [applyAll, Draws.run_andThen_of_ok hstep] at h ⊢
      -- Both runs are compared with the one that finds nothing behind this step.
      rcases hrest : (applyAll ring steps mid none).run d₁ with ⟨rest, d₂⟩
      rw [ih hrest, Option.or_none] at h
      cases h
      rw [ih hrest]
      cases rest with
      | error failure => rfl
      | ok p => simp [Except.map, Option.or_assoc]

end SealStep

/-! ## Stages -/

namespace Transformed

variable {α β : Type}

/-- Goes on with a result. -/
def andThen (x : Transformed α) (f : α → Transformed β) : Transformed β :=
  match x with
  | .done a => f a
  | .degraded g => .degraded g
  | .crashed reason => .crashed reason

/-- Hands back `payload` after a failure. -/
def handingBack (payload : Bytes) : Transformed α → Transformed α
  | .done a => .done a
  | .degraded g => .degraded ⟨payload, g.error⟩
  | .crashed reason => .crashed reason

theorem handingBack_ofExcept (payload given : Bytes) (x : Except EnvelopeError α) :
    (ofExcept given x).handingBack payload = ofExcept payload x := by
  rw [ofExcept.eq_def, ofExcept.eq_def]
  split <;> rfl

theorem andThen_ofExcept_error (payload : Bytes) (failure : EnvelopeError)
    (f : α → Transformed β) :
    (ofExcept payload (.error failure)).andThen f = ofExcept payload (.error failure) := by
  rw [ofExcept.eq_def, ofExcept.eq_def]
  split <;> simp_all [andThen]

theorem andThen_done_ofExcept (payload : Bytes) (x : Except EnvelopeError α) (f : α → β) :
    ((ofExcept payload x).andThen fun a => .done (f a)) = ofExcept payload (x.map f) := by
  cases x with
  | ok a => rfl
  | error failure => exact andThen_ofExcept_error payload failure _

theorem ofExcept_bind (payload : Bytes) (given : α → Bytes) (x : Except EnvelopeError α)
    (f : α → Except EnvelopeError β) :
    ofExcept payload (x >>= f) =
      (ofExcept payload x).andThen fun a => (ofExcept (given a) (f a)).handingBack payload := by
  cases x with
  | ok a => exact (handingBack_ofExcept payload (given a) (f a)).symm
  | error failure =>
    rw [bind_of_error rfl]
    exact (andThen_ofExcept_error payload failure _).symm

end Transformed

namespace Envelope

/-- The envelope of two chains: the packing of the first, the payload of the second, and the wrapped
key of the last hybrid step. -/
def followedBy (e e' : Envelope) : Envelope :=
  { e with
    payload := e'.payload
    chain := e.chain ++ e'.chain
    wrappedKey := if 'c' ∈ e'.chain.toList then e'.wrappedKey else e.wrappedKey }

/-- Encodes by one chain, and then what came out by another one, without packing it again. -/
def encodeStages (ring : KeyRing) (data : Bytes) (first second : String) (kind : Compression)
    (minSize minSize' : Nat) : StateM Draws (Transformed Envelope) := do
  match ← encode ring data first kind minSize with
  | .done e =>
    let later ← encode ring e.payload second .none minSize'
    pure ((later.andThen fun e' => .done (e.followedBy e')).handingBack data)
  | .degraded g => pure (.degraded g)
  | .crashed reason => pure (.crashed reason)

/-- Decodes by the chain that was applied last, and then what came out by the other one. -/
def decodeStages (ring : KeyRing) (payload : Bytes) (first second : String) (key : Option String)
    (kind : Compression) (length : Option Nat) : Transformed Bytes :=
  (decode ring ⟨payload, second, key, .none, length⟩).andThen fun data =>
    (decode ring ⟨data, first, key, kind, length⟩).handingBack payload

variable {ring : KeyRing} {data : Bytes} {first second : String} {kind : Compression}
  {steps rest : List SealStep}

/-! ## Encoding -/

/-- A payload that cannot be packed fails whatever the chain. -/
theorem run_tryEncode_of_unpacked {chain : String} {minSize : Nat} {failure : PackingError}
    (hsteps : SealStep.parseList chain.toList = .ok steps)
    (hpacked : compressed kind minSize data = .error failure) (d : Draws) :
    (tryEncode ring data chain kind minSize).run d = (.error (.packing failure), d) := by
  rw [tryEncode, parseChain_eq_ok_iff.mpr hsteps]
  simp only [hpacked]
  rfl

/-- The key of the last hybrid step of either chain. -/
theorem or_eq_of_applyAll {out : Bytes} {key key' : Option String} {d d' : Draws}
    (hsteps : SealStep.parseList second.toList = .ok rest)
    (h : (SealStep.applyAll ring rest data none).run d = (.ok (out, key'), d')) :
    key'.or key = if 'c' ∈ second.toList then key' else key := by
  have hsome := SealStep.isSome_final_iff_of_applyAll h
  rw [SealStep.hybrid_mem_iff_of_parseList hsteps] at hsome
  split
  · next hmem =>
    obtain ⟨text, rfl⟩ := Option.isSome_iff_exists.mp (hsome.mpr (.inl hmem))
    rfl
  · next hmem =>
    rcases key' with _ | text
    · exact Option.none_or
    · exact absurd (hsome.mp rfl) (by simpa using hmem)

theorem tryEncode_append (hfirst : SealStep.parseList first.toList = .ok steps)
    (hsecond : SealStep.parseList second.toList = .ok rest) (ring : KeyRing) (data : Bytes)
    (kind : Compression) (minSize minSize' : Nat) :
    tryEncode ring data (first ++ second) kind minSize =
      Draws.andThen (tryEncode ring data first kind minSize) fun e =>
        Draws.andThen (tryEncode ring e.payload second .none minSize') fun e' =>
          pure (.ok (e.followedBy e')) := by
  have hboth : SealStep.parseList (first ++ second).toList = .ok (steps ++ rest) := by
    rw [String.toList_append]
    exact SealStep.parseList_append hfirst hsecond
  refine StateT.ext fun d => ?_
  rcases hpacked : compressed kind minSize data with failure | ⟨out, applied, length⟩
  · rw [run_tryEncode_of_unpacked hboth hpacked,
      Draws.run_andThen_of_error (run_tryEncode_of_unpacked hfirst hpacked d)]
  have hrun := run_tryEncode hboth hpacked ring d
  have hrunFirst := run_tryEncode hfirst hpacked ring d
  rw [SealStep.applyAll_append] at hrun
  rcases hmid : (SealStep.applyAll ring steps out none).run d with ⟨failure | ⟨mid, key⟩, d₁⟩
  · rw [Draws.run_andThen_of_error hmid] at hrun
    rw [hmid] at hrunFirst
    exact hrun.trans (Draws.run_andThen_of_error hrunFirst).symm
  rw [Draws.run_andThen_of_ok hmid] at hrun
  rw [hmid] at hrunFirst
  have hplain : compressed .none minSize' mid = .ok (mid, .none, none) := rfl
  have hrunSecond := run_tryEncode hsecond hplain ring d₁
  rcases hlast : (SealStep.applyAll ring rest mid none).run d₁ with ⟨failure | ⟨last, key'⟩, d₂⟩
  · rw [SealStep.run_applyAll_of_run_none hlast] at hrun
    rw [hlast] at hrunSecond
    exact hrun.trans ((Draws.run_andThen_of_ok hrunFirst).trans
      (Draws.run_andThen_of_error hrunSecond)).symm
  · rw [SealStep.run_applyAll_of_run_none hlast] at hrun
    rw [hlast] at hrunSecond
    have hfollowed : Envelope.followedBy ⟨mid, first, key, applied, length⟩
        ⟨last, second, key', .none, none⟩ =
          ⟨last, first ++ second, key'.or key, applied, length⟩ := by
      rw [or_eq_of_applyAll hsecond hlast]
      rfl
    refine hrun.trans ((Draws.run_andThen_of_ok hrunFirst).trans
      ((Draws.run_andThen_of_ok hrunSecond).trans ?_)).symm
    rw [Draws.run_pure, hfollowed]
    rfl

theorem run_encodeStages_of_error {minSize : Nat} {failure : EnvelopeError} {d d₁ : Draws}
    (h : (tryEncode ring data first kind minSize).run d = (.error failure, d₁))
    (second : String) (minSize' : Nat) :
    (encodeStages ring data first second kind minSize minSize').run d =
      (.ofExcept data (.error failure), d₁) := by
  rw [encodeStages, StateT.run_bind, run_encode, h]
  rcases hend : Transformed.ofExcept data (.error failure) with e | g | reason
  · cases ofExcept_eq_done_iff.mp hend
  · rfl
  · rfl

theorem run_encodeStages_of_ok {minSize : Nat} {e : Envelope} {d d₁ : Draws}
    (h : (tryEncode ring data first kind minSize).run d = (.ok e, d₁)) (second : String)
    (minSize' : Nat) :
    (encodeStages ring data first second kind minSize minSize').run d =
      (.ofExcept data (((tryEncode ring e.payload second .none minSize').run d₁).1.map e.followedBy),
        ((tryEncode ring e.payload second .none minSize').run d₁).2) := by
  rw [← Transformed.handingBack_ofExcept data e.payload, ← Transformed.andThen_done_ofExcept,
    encodeStages, StateT.run_bind, run_encode, h]
  rfl

theorem run_encode_append (hfirst : SealStep.parseList first.toList = .ok steps)
    (hsecond : SealStep.parseList second.toList = .ok rest) (ring : KeyRing) (data : Bytes)
    (kind : Compression) (minSize minSize' : Nat) (d : Draws) :
    (encode ring data (first ++ second) kind minSize).run d =
      (encodeStages ring data first second kind minSize minSize').run d := by
  rw [run_encode, tryEncode_append hfirst hsecond ring data kind minSize minSize']
  rcases hrun : (tryEncode ring data first kind minSize).run d with ⟨failure | e, d₁⟩
  · rw [Draws.run_andThen_of_error hrun, run_encodeStages_of_error hrun]
  · rw [Draws.run_andThen_of_ok hrun, run_encodeStages_of_ok hrun]
    rcases hlater : (tryEncode ring e.payload second .none minSize').run d₁ with ⟨failure | e', d₂⟩
    · rw [Draws.run_andThen_of_error hlater]
      rfl
    · rw [Draws.run_andThen_of_ok hlater]
      rfl

/-! ## Decoding -/

theorem tryDecode_append (hfirst : SealStep.parseList first.toList = .ok steps)
    (hsecond : SealStep.parseList second.toList = .ok rest) (ring : KeyRing) (payload : Bytes)
    (key : Option String) (kind : Compression) (length : Option Nat) :
    tryDecode ring ⟨payload, first ++ second, key, kind, length⟩ =
      tryDecode ring ⟨payload, second, key, .none, length⟩ >>= fun data =>
        tryDecode ring ⟨data, first, key, kind, length⟩ := by
  have hboth : parseChain (first ++ second) = .ok (steps ++ rest) := by
    rw [parseChain_eq_ok_iff, SealStep.parse, String.toList_append]
    exact SealStep.parseList_append hfirst hsecond
  rw [tryDecode_plain (parseChain_eq_ok_iff.mpr hsecond), tryDecode, bind_of_ok hboth,
    SealStep.undoAll_append]
  rcases hundo : SealStep.undoAll ring key rest payload with failure | data
  · rfl
  · rw [bind_of_ok rfl, Except.mapError, bind_of_ok rfl, tryDecode,
      bind_of_ok (parseChain_eq_ok_iff.mpr hfirst)]

theorem decode_append (hfirst : SealStep.parseList first.toList = .ok steps)
    (hsecond : SealStep.parseList second.toList = .ok rest) (ring : KeyRing) (payload : Bytes)
    (key : Option String) (kind : Compression) (length : Option Nat) :
    decode ring ⟨payload, first ++ second, key, kind, length⟩ =
      decodeStages ring payload first second key kind length := by
  simp only [decodeStages, decode_eq_ofExcept]
  rw [tryDecode_append hfirst hsecond]
  exact Transformed.ofExcept_bind payload id _ _

/-! ## Both directions -/

/-- Sealing and opening by a chain are what its two parts do one after the other. -/
theorem chains_compose (ring : KeyRing) (hfirst : ∀ c ∈ first.toList, c ∈ ['a', 'b', 'c', 'r', 'h'])
    (hsecond : ∀ c ∈ second.toList, c ∈ ['a', 'b', 'c', 'r', 'h']) :
    (∀ data kind minSize minSize' d,
      (encode ring data (first ++ second) kind minSize).run d =
        (encodeStages ring data first second kind minSize minSize').run d) ∧
      ∀ payload key kind length,
        decode ring ⟨payload, first ++ second, key, kind, length⟩ =
          decodeStages ring payload first second key kind length := by
  obtain ⟨steps, hsteps⟩ := SealStep.exists_parseList hfirst
  obtain ⟨rest, hrest⟩ := SealStep.exists_parseList hsecond
  exact ⟨run_encode_append hsteps hrest ring, decode_append hsteps hrest ring⟩

/-- A stage that fails behind one that does not: there is no key for AES, and what base64 opens to is
no hex. Both times the whole input comes back. -/
theorem chains_compose_secondFails :
    ((encode ⟨[7], RsaKeys.legacy⟩ [104, 105] ("h" ++ "a") .none 0).run ⟨id, 0⟩).1 =
        .degraded ⟨[104, 105], .cipher (.keyLength 1)⟩ ∧
      decode ⟨[7], RsaKeys.legacy⟩ ⟨Bytes.ofText "eHl6MQ==", "h" ++ "b", none, .none, none⟩ =
        .degraded ⟨Bytes.ofText "eHl6MQ==", .cipher (.hex (.invalidDigit 120 0))⟩ := by
  have hhex : ∀ c ∈ "h".toList, c ∈ ['a', 'b', 'c', 'r', 'h'] := by simp
  have haes : ∀ c ∈ "a".toList, c ∈ ['a', 'b', 'c', 'r', 'h'] := by simp
  have harmor : ∀ c ∈ "b".toList, c ∈ ['a', 'b', 'c', 'r', 'h'] := by simp
  have hencode := (chains_compose ⟨[7], RsaKeys.legacy⟩ hhex haes).1 [104, 105] .none 0 0 ⟨id, 0⟩
  have hdecode := (chains_compose ⟨[7], RsaKeys.legacy⟩ hhex harmor).2 (Bytes.ofText "eHl6MQ==")
    none .none none
  rw [hencode, hdecode]
  decide +kernel

end Envelope
end SealedHttp
