import SealedHttp.Proofs.Envelope.Crashes
import SealedHttp.Proofs.Envelope.RoundTrip

/-!
# Chains are read first and strictly

A chain is a text for a list of steps, and each list has one. The leftmost character that names no
step is what encoding and decoding report, before anything else can fail and with their input
untouched. If there is no such character, neither reports one.
-/

namespace SealedHttp

namespace SealStep

/-! ## Reading codes -/

theorem parseList_map_code (steps : List SealStep) : parseList (steps.map code) = .ok steps := by
  induction steps with
  | nil => rfl
  | cons step steps ih =>
    rw [List.map_cons, parseList, ofCode?_code, ih]
    rfl

theorem mem_codes_of_parseList {cs : List Char} {steps : List SealStep}
    (h : parseList cs = .ok steps) : ∀ c ∈ cs, c ∈ ['a', 'b', 'c', 'r', 'h'] := by
  rw [← map_code_of_parseList h]
  intro c hc
  obtain ⟨step, -, rfl⟩ := List.mem_map.mp hc
  exact mem_codes_iff.mpr ⟨step, ofCode?_code step⟩

/-- The leftmost character of a chain that names no step. -/
def IsStranger (cs : List Char) (x : Char) : Prop :=
  ∃ front back, cs = front ++ x :: back ∧ (∀ c ∈ front, c ∈ ['a', 'b', 'c', 'r', 'h']) ∧
    x ∉ ['a', 'b', 'c', 'r', 'h']

theorem isStranger_of_parseList {cs : List Char} {x : Char} (h : parseList cs = .error x) :
    IsStranger cs x := by
  induction cs with
  | nil => cases h
  | cons c cs ih =>
    rw [parseList] at h
    split at h
    · next hnone =>
      cases h
      refine ⟨[], cs, rfl, List.forall_mem_nil _, ?_⟩
      intro hcode
      obtain ⟨step, hstep⟩ := mem_codes_iff.mp hcode
      rw [hnone] at hstep
      cases hstep
    · next step hstep =>
      rcases hrest : parseList cs with y | steps
      · rw [hrest] at h
        cases h
        obtain ⟨front, back, rfl, hfront, hx⟩ := ih hrest
        refine ⟨c :: front, back, rfl, List.forall_mem_cons.mpr ⟨?_, hfront⟩, hx⟩
        exact mem_codes_iff.mpr ⟨step, hstep⟩
      · rw [hrest] at h
        cases h

end SealStep

namespace Envelope

variable {ring : KeyRing} {chain : String} {steps : List SealStep}

/-! ## Chains that cannot be read -/

theorem run_encode_of_stranger {x : Char} (h : parseChain chain = .error (.unknownStep x))
    (data : Bytes) (kind : Compression) (minSize : Nat) (d : Draws) :
    (encode ring data chain kind minSize).run d = (.degraded ⟨data, .unknownStep x⟩, d) := by
  rw [run_encode, tryEncode, h]
  rfl

theorem decode_of_stranger {e : Envelope} {x : Char}
    (h : parseChain e.chain = .error (.unknownStep x)) :
    decode ring e = .degraded ⟨e.payload, .unknownStep x⟩ := by
  rw [decode_eq_ofExcept, tryDecode, bind_of_error h]
  rfl

/-! ## Chains that can be read -/

theorem avoids_unknownStep_tryEncode (hsteps : parseChain chain = .ok steps) (data : Bytes)
    (kind : Compression) (minSize : Nat) (d : Draws) (x : Char) :
    Avoids (.unknownStep x) ((tryEncode ring data chain kind minSize).run d).1 := by
  rw [tryEncode, hsteps]
  dsimp only
  split
  · apply Avoids.error
    simp
  · apply Avoids.map
    apply Avoids.mapError
    simp

theorem avoids_unknownStep_tryDecode {e : Envelope} (hsteps : parseChain e.chain = .ok steps)
    (x : Char) : Avoids (.unknownStep x) (tryDecode ring e) := by
  rw [tryDecode, bind_of_ok hsteps]
  apply Avoids.bind
  · apply Avoids.mapError
    simp
  · intro data
    split
    · exact .ok data
    · apply Avoids.mapError
      simp

/-- What a transform avoids is not what it hands its input back for. -/
theorem ofExcept_ne_degraded {α : Type} {failure : EnvelopeError} {x : Except EnvelopeError α}
    (h : Avoids failure x) (payload given : Bytes) :
    Transformed.ofExcept payload x ≠ .degraded ⟨given, failure⟩ :=
  fun heq => h (eq_of_ofExcept_eq_degraded heq).2

/-- Either both directions report the leftmost character that names no step, or neither reports any
and the chain is the text of its steps. -/
theorem chain_readStrictly (ring : KeyRing) (chain : String) :
    ((∃ x, SealStep.IsStranger chain.toList x ∧
        (∀ data kind minSize d,
          (encode ring data chain kind minSize).run d = (.degraded ⟨data, .unknownStep x⟩, d)) ∧
        ∀ payload key kind length, decode ring ⟨payload, chain, key, kind, length⟩ =
          .degraded ⟨payload, .unknownStep x⟩) ∨
      ((∀ c ∈ chain.toList, c ∈ ['a', 'b', 'c', 'r', 'h']) ∧
        (∀ data kind minSize d given x,
          ((encode ring data chain kind minSize).run d).1 ≠ .degraded ⟨given, .unknownStep x⟩) ∧
        (∀ payload key kind length given x, decode ring ⟨payload, chain, key, kind, length⟩ ≠
          .degraded ⟨given, .unknownStep x⟩) ∧
        ∃ steps, parseChain chain = .ok steps ∧ String.ofList (steps.map SealStep.code) = chain)) ∧
    ∀ steps, parseChain (String.ofList (steps.map SealStep.code)) = .ok steps := by
  refine ⟨?_, fun steps => ?_⟩
  · rcases hparse : SealStep.parse chain with x | steps
    · have hstranger : parseChain chain = .error (.unknownStep x) := by
        rw [parseChain, hparse]
        rfl
      refine .inl ⟨x, SealStep.isStranger_of_parseList hparse, ?_, ?_⟩
      · exact run_encode_of_stranger hstranger
      · exact fun payload key kind length => decode_of_stranger hstranger
    · have hsteps : parseChain chain = .ok steps := parseChain_eq_ok_iff.mpr hparse
      refine .inr ⟨SealStep.mem_codes_of_parseList hparse, ?_, ?_, steps, hsteps, ?_⟩
      · intro data kind minSize d given x
        exact ofExcept_ne_degraded (avoids_unknownStep_tryEncode hsteps data kind minSize d x) _ _
      · intro payload key kind length given x
        rw [decode_eq_ofExcept]
        exact ofExcept_ne_degraded (avoids_unknownStep_tryDecode hsteps x) _ _
      · rw [SealStep.map_code_of_parseList hparse, String.ofList_toList]
  · rw [parseChain_eq_ok_iff, SealStep.parse, String.toList_ofList]
    exact SealStep.parseList_map_code steps

/-- Of two strangers the left one is reported, although the right one would be undone first. -/
example : decode shortestRing ⟨[1], "a?b!", none, .gzip, none⟩ = .degraded ⟨[1], .unknownStep '?'⟩ := by
  decide +kernel

end Envelope
end SealedHttp
