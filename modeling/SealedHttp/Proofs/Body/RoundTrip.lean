import SealedHttp.Body.Form
import SealedHttp.Proofs.Body.Cbor
import SealedHttp.Proofs.Body.Json

/-!
# Values survive their content kind

What a kind writes, the same kind reads back, with one exception. In CBOR an object is refused when
the least of its names is too long, though every later name may be of any length.
-/

namespace SealedHttp.BodyKind

open Value

theorem decodeValue_toCbor {v : Value} (hplain : v.IsPlain) (hdepth : v.depth < 128)
    (hsize : v.toCbor.length < 0x10000000000000000) :
    cbor.decodeValue .any v.toCbor =
      if v.hasLongFirstName then .error (.cbor (Cbor.Fault.mismatch "string" "str").message)
      else .ok v := by
  rw [decodeValue, if_pos rfl, Cbor.read_any hplain hdepth hsize]
  cases v.hasLongFirstName <;> rfl

theorem decodeValue_toJson {k : BodyKind} (hk : k ≠ cbor) {v : Value} (hplain : v.IsPlain)
    (hdepth : v.depth < 128) : k.decodeValue .any v.toJson = .ok v := by
  rw [decodeValue, if_neg hk, Json.read_any hplain hdepth]
  rfl

theorem decodeValue_smallIntegers (k : BodyKind) {counts : List (String × Int)}
    (hsorted : counts.Pairwise fun c d => c.1 < d.1)
    (hsmall : ∀ count ∈ counts, isSmallInteger count.2 = true)
    (hsize : k = cbor → (object (countFields counts)).toCbor.length < 0x10000000000000000) :
    k.decodeValue .smallIntegers (k.encodeValue (object (countFields counts))) =
      .ok (object (countFields counts)) := by
  by_cases hk : k = cbor
  · rw [encodeValue, decodeValue, if_pos hk, if_pos hk,
      Cbor.read_smallIntegers hsorted hsmall (hsize hk)]
    rfl
  · rw [encodeValue, decodeValue, if_neg hk, if_neg hk, Json.read_smallIntegers hsorted hsmall]
    rfl

/-- Plain values and maps of small integers survive every kind, but for objects in CBOR that begin
with a name beyond the limit. A length in CBOR has at most 64 bits. -/
theorem decodeValue_encodeValue (k : BodyKind) :
    (∀ v : Value, v.IsPlain → v.depth < 128 → (k = cbor → v.toCbor.length < 0x10000000000000000) →
      k.decodeValue .any (k.encodeValue v) =
        if k = cbor ∧ v.hasLongFirstName then
          .error (.cbor (Cbor.Fault.mismatch "string" "str").message)
        else .ok v) ∧
    (∀ counts : List (String × Int), counts.Pairwise (fun c d => c.1 < d.1) →
      (∀ count ∈ counts, isSmallInteger count.2 = true) →
      (k = cbor → (object (countFields counts)).toCbor.length < 0x10000000000000000) →
      k.decodeValue .smallIntegers (k.encodeValue (object (countFields counts))) =
        .ok (object (countFields counts))) ∧
    (∀ v : Value, v.IsPlain → v.depth < 128 → v.toCbor.length < 0x10000000000000000 →
      v.hasLongFirstName = false →
      json.decodeValue .any (json.encodeValue v) = cbor.decodeValue .any (cbor.encodeValue v)) := by
  refine ⟨?_, fun counts => decodeValue_smallIntegers k, ?_⟩
  · intro v hplain hdepth hsize
    by_cases hk : k = cbor
    · subst hk
      rw [encodeValue, if_pos rfl, decodeValue_toCbor hplain hdepth (hsize rfl)]
      simp only [true_and]
    · rw [encodeValue, if_neg hk, decodeValue_toJson hk hplain hdepth,
        if_neg fun h => hk h.1]
  · intro v hplain hdepth hsize hlong
    have hjson : json.decodeValue .any (json.encodeValue v) = .ok v :=
      decodeValue_toJson (by decide) hplain hdepth
    have hcbor := decodeValue_toCbor hplain hdepth hsize
    rw [hlong] at hcbor
    exact hjson.trans hcbor.symm

/-- A record with an array in it, its fields not in order. -/
def record : Value :=
  ofFields [("b", array [null, bool true, int (-1), text "\"\n\u00e9"]),
    ("a", int 0xFFFFFFFFFFFFFFFF)]

theorem decodeValue_encodeValue_record :
    record.IsPlain ∧ record.depth < 128 ∧ record.toCbor.length < 0x10000000000000000 ∧
      cbor.decodeValue .any (cbor.encodeValue record) = .ok record ∧
      json.decodeValue .any (json.encodeValue record) =
        cbor.decodeValue .any (cbor.encodeValue record) ∧
      cbor.decodeValue .smallIntegers
          (cbor.encodeValue (object (countFields [("count", 3), ("errCode", 0)]))) =
        .ok (object (countFields [("count", 3), ("errCode", 0)])) := by
  have hplain : record.IsPlain := by
    apply isPlain_ofFields
    · decide
    · exact ⟨⟨trivial, trivial, ⟨by decide, by decide⟩, trivial, trivial⟩, ⟨by decide, by decide⟩,
        trivial⟩
  have hdepth : record.depth < 128 := by decide +kernel
  have hsize : record.toCbor.length < 0x10000000000000000 := by decide +kernel
  have hshort : record.hasLongFirstName = false := by decide +kernel
  obtain ⟨hany, hsmall, hequal⟩ := decodeValue_encodeValue cbor
  refine ⟨hplain, hdepth, hsize, ?_, hequal record hplain hdepth hsize hshort, ?_⟩
  · have hrecord := hany record hplain hdepth fun _ => hsize
    rwa [hshort, if_neg fun h => Bool.false_ne_true h.2] at hrecord
  · apply hsmall
    · decide
    · decide
    · intro _
      decide +kernel

section LongNames

variable {name : String} {n : Int}

theorem length_toCbor_singleton (name : String) (n : Int) :
    (object [(name, int n)]).toCbor.length ≤ (Bytes.ofText name).length + 27 := by
  have hcount : (Cbor.write 5 [(name, int n)].length).length ≤ 9 := Cbor.length_write_le
  have hname : (Cbor.write 3 (Bytes.ofText name).length).length ≤ 9 := Cbor.length_write_le
  have hint : (int n).toCbor.length ≤ 9 := by cases n <;> exact Cbor.length_write_le
  rw [toCbor, List.length_append, length_cborFields_cons, cborString, List.length_append,
    cborFields, List.length_nil]
  dsimp only
  omega

/-- An object with a single name beyond the limit survives as JSON and not as CBOR. -/
theorem decodeValue_singleton (hplain : (int n).IsPlain)
    (hlong : Cbor.maxFirstName < (Bytes.ofText name).length)
    (hsize : (Bytes.ofText name).length < 0x100000000) :
    (object [(name, int n)]).IsPlain ∧ (object [(name, int n)]).depth < 128 ∧
      cbor.decodeValue .any (cbor.encodeValue (object [(name, int n)])) ≠
        .ok (object [(name, int n)]) ∧
      json.decodeValue .any (json.encodeValue (object [(name, int n)])) =
        .ok (object [(name, int n)]) := by
  have hv : (object [(name, int n)]).IsPlain := ⟨List.pairwise_singleton _ _, hplain, trivial⟩
  have hdepth : (object [(name, int n)]).depth < 128 := by
    rw [depth_object]
    exact Nat.succ_lt_succ (show 0 < 127 by decide)
  have hfirst : (object [(name, int n)]).hasLongFirstName = true := by
    rw [hasLongFirstName, startLong, decide_eq_true hlong, Bool.true_or]
  have hlength := length_toCbor_singleton name n
  have hdecode := decodeValue_toCbor hv hdepth (by omega)
  rw [if_pos hfirst] at hdecode
  refine ⟨hv, hdepth, ?_, decodeValue_toJson (by decide) hv hdepth⟩
  rw [encodeValue, if_pos rfl, hdecode]
  simp

/-- A name of 4097 letters. -/
def longName : String := String.ofList (List.replicate 4097 'a')

theorem length_longName : (Bytes.ofText longName).length = 4097 := by
  have hletter : (String.utf8EncodeChar 'a').length = 1 := rfl
  unfold longName Bytes.ofText
  rw [String.toList_ofList, List.length_flatMap, List.map_replicate, List.sum_replicate_nat,
    hletter]

theorem decodeValue_longName :
    (object [(longName, int 1)]).IsPlain ∧ (object [(longName, int 1)]).depth < 128 ∧
      cbor.decodeValue .any (cbor.encodeValue (object [(longName, int 1)])) ≠
        .ok (object [(longName, int 1)]) ∧
      json.decodeValue .any (json.encodeValue (object [(longName, int 1)])) =
        .ok (object [(longName, int 1)]) := by
  apply decodeValue_singleton
  · exact ⟨by decide, by decide⟩
  · rw [length_longName]
    decide
  · rw [length_longName]
    decide

end LongNames

end SealedHttp.BodyKind
