import SealedHttp.Proofs.Envelope.Headers

/-!
# What writing leaves in headers

An envelope is written as fields of distinct names, each of which takes the place of all fields of
its name. All other fields stay, those that an earlier envelope left behind among them. Which fields
an envelope has is stated here without the writer.
-/

namespace SealedHttp

namespace Headers

variable {h : Headers} {name : String} {value : Bytes} {fields : List (String × Bytes)}

/-- Gives several names one value each. -/
def insertAll (fields : List (String × Bytes)) (h : Headers) : Headers :=
  fields.foldl (fun h field => h.insert field.1 field.2) h

@[simp] theorem insertAll_nil : insertAll [] h = h := rfl

@[simp] theorem insertAll_cons {field : String × Bytes} :
    insertAll (field :: fields) h = insertAll fields (h.insert field.1 field.2) := rfl

theorem insertAll_append {fields' : List (String × Bytes)} :
    insertAll (fields ++ fields') h = insertAll fields' (insertAll fields h) := List.foldl_append

theorem values_insertAll_of_notMem (hname : name ∉ fields.map Prod.fst) :
    (insertAll fields h).values name = h.values name := by
  induction fields generalizing h with
  | nil => rfl
  | cons field fields ih =>
    rw [List.map_cons, List.mem_cons, not_or] at hname
    rw [insertAll_cons, ih hname.2, values_insert_of_ne hname.1]

theorem values_insertAll_of_mem (hdistinct : (fields.map Prod.fst).Nodup)
    (hmem : (name, value) ∈ fields) : (insertAll fields h).values name = [value] := by
  induction fields generalizing h with
  | nil => cases hmem
  | cons field fields ih =>
    rw [List.map_cons, List.nodup_cons] at hdistinct
    rcases List.mem_cons.mp hmem with rfl | hmem
    · rw [insertAll_cons, values_insertAll_of_notMem hdistinct.1, values_insert_self]
    · exact ih hdistinct.2 hmem

/-- The fields of the names that are given, and before them those of all other names. -/
theorem fields_insertAll (hdistinct : (fields.map Prod.fst).Nodup) :
    (insertAll fields h).fields =
      h.fields.filter (·.1 ∉ fields.map Prod.fst) ++ fields := by
  induction fields generalizing h with
  | nil => simp
  | cons field fields ih =>
    rw [List.map_cons, List.nodup_cons] at hdistinct
    have hkept : [field].filter (·.1 ∉ fields.map Prod.fst) = [field] := by
      simpa using hdistinct.1
    rw [insertAll_cons, ih hdistinct.2, insert, List.filter_append, hkept, List.filter_filter,
      List.append_assoc, List.singleton_append]
    congr 1
    refine List.filter_congr fun other _ => ?_
    simp only [List.map_cons, List.mem_cons, not_or, Bool.decide_and, Bool.and_comm]

theorem insertAll_insertAll (hdistinct : (fields.map Prod.fst).Nodup) :
    insertAll fields (insertAll fields h) = insertAll fields h := by
  have hgone : fields.filter (·.1 ∉ fields.map Prod.fst) = [] := by
    rw [List.filter_eq_nil_iff]
    intro field hfield
    simpa using ⟨field.2, hfield⟩
  have hfields : (insertAll fields (insertAll fields h)).fields = (insertAll fields h).fields := by
    rw [fields_insertAll hdistinct, fields_insertAll hdistinct, List.filter_append,
      List.filter_filter, hgone, List.append_nil]
    simp only [Bool.and_self]
  exact congrArg Headers.mk hfields

end Headers

namespace Envelope

open HeaderName

/-! ## Fields -/

/-- What an envelope writes under which name: its chain and its key if they are there and can stand
in a header, the code of its compression, and its length with LZ4. -/
inductive Writes (e : Envelope) : String → Bytes → Prop
  | chain (hchain : e.chain ≠ "") (hlegal : Headers.isLegal (Bytes.ofText e.chain) = true) :
      Writes e originalEncrypt (Bytes.ofText e.chain)
  | key {text : String} (hkey : e.wrappedKey = some text)
      (hlegal : Headers.isLegal (Bytes.ofText text) = true) :
      Writes e encryptKey (Bytes.ofText text)
  | code (hkind : e.compression ≠ .none) :
      Writes e originalEncoding (Bytes.ofText (toString e.compression.code))
  | length {n : Nat} (hkind : e.compression = .lz4) (hlength : e.originalLength = some n) :
      Writes e HeaderName.originalLength (Bytes.ofText (toString n))

/-- The field of a text, if there is one and it can stand in a header. -/
def field? (t : String × Option String) : Option (String × Bytes) :=
  ((t.2.map Bytes.ofText).filter Headers.isLegal).map (t.1, ·)

theorem field?_eq_some_iff {t : String × Option String} {name : String} {value : Bytes} :
    field? t = some (name, value) ↔
      t.1 = name ∧ ∃ s, t.2 = some s ∧ Bytes.ofText s = value ∧ Headers.isLegal value = true := by
  rw [field?, Option.map_eq_some_iff]
  constructor
  · rintro ⟨value', hvalue, heq⟩
    cases heq
    obtain ⟨htext, hlegal⟩ := Option.filter_eq_some_iff.mp hvalue
    obtain ⟨s, hs, rfl⟩ := Option.map_eq_some_iff.mp htext
    exact ⟨rfl, s, hs, rfl, hlegal⟩
  · rintro ⟨rfl, s, hs, rfl, hlegal⟩
    refine ⟨_, Option.filter_eq_some_iff.mpr ⟨?_, hlegal⟩, rfl⟩
    rw [hs]
    rfl

theorem writeText_eq_insertAll (t : String × Option String) (h : Headers) :
    writeText t.1 t.2 h = h.insertAll (field? t).toList := by
  obtain ⟨name, _ | s⟩ := t
  · rfl
  · rw [writeText, Headers.insertLegal, field?]
    split
    · next hlegal => simp [Option.filter_some, hlegal]
    · next hlegal => simp [Option.filter_some, hlegal]

/-- The fields that an envelope has, in the order in which they are written. -/
def fields (e : Envelope) : List (String × Bytes) := e.texts.filterMap field?

theorem writeHeaders_eq_insertAll (e : Envelope) (h : Headers) :
    e.writeHeaders h = h.insertAll e.fields := by
  have hrun : ∀ (ts : List (String × Option String)) (h : Headers),
      ts.foldl (fun h t => writeText t.1 t.2 h) h = h.insertAll (ts.filterMap field?) := by
    intro ts
    induction ts with
    | nil => exact fun _ => rfl
    | cons t ts ih =>
      intro h
      rw [List.foldl_cons, ih, writeText_eq_insertAll, ← Headers.insertAll_append]
      congr 1
      rw [List.filterMap_cons]
      cases field? t <;> rfl
  exact hrun e.texts h

theorem nodup_fields (e : Envelope) : (e.fields.map Prod.fst).Nodup := by
  have htexts : e.texts.Pairwise fun t u => t.1 ≠ u.1 := by
    rw [← List.pairwise_map (R := (· ≠ ·))]
    change negotiation.Nodup
    decide
  rw [List.Nodup, List.pairwise_map]
  refine htexts.filterMap field? fun t u hne f hf g hg => ?_
  rwa [← (field?_eq_some_iff.mp hf).1, ← (field?_eq_some_iff.mp hg).1]

theorem isLegal_toString (n : Nat) : Headers.isLegal (Bytes.ofText (toString n)) = true :=
  Headers.isLegal_ofText (isToken_toString n).isFieldText.readable

theorem mem_fields_iff {e : Envelope} {name : String} {value : Bytes} :
    (name, value) ∈ e.fields ↔ e.Writes name value := by
  rw [fields, List.mem_filterMap]
  constructor
  · rintro ⟨t, ht, hfield⟩
    obtain ⟨rfl, s, hs, rfl, hlegal⟩ := field?_eq_some_iff.mp hfield
    simp only [texts, List.mem_cons, List.not_mem_nil, or_false] at ht
    rcases ht with rfl | rfl | rfl | rfl
    · simp only [chainText?] at hs
      split at hs <;> cases hs
      next hchain => exact .chain (by simpa using hchain) hlegal
    · exact .key hs hlegal
    · simp only [codeText?] at hs
      split at hs <;> cases hs
      next hkind => exact .code (by simpa [Compression.isNone] using hkind)
    · simp only [lengthText?] at hs
      split at hs
      · next hkind =>
        obtain ⟨n, hn, rfl⟩ := Option.map_eq_some_iff.mp hs
        exact .length (of_decide_eq_true hkind) hn
      · cases hs
  · intro hwrites
    cases hwrites with
    | chain hchain hlegal =>
      refine ⟨(originalEncrypt, e.chainText?), by simp [texts], field?_eq_some_iff.mpr ?_⟩
      exact ⟨rfl, e.chain, by simp [chainText?, hchain], rfl, hlegal⟩
    | @key text hkey hlegal =>
      refine ⟨(encryptKey, e.wrappedKey), by simp [texts], field?_eq_some_iff.mpr ?_⟩
      exact ⟨rfl, text, hkey, rfl, hlegal⟩
    | code hkind =>
      refine ⟨(originalEncoding, e.codeText?), by simp [texts], field?_eq_some_iff.mpr ?_⟩
      exact ⟨rfl, _, by simp [codeText?, Compression.isNone, hkind], rfl, isLegal_toString _⟩
    | @length n hkind hlength =>
      refine ⟨(HeaderName.originalLength, e.lengthText?), by simp [texts],
        field?_eq_some_iff.mpr ?_⟩
      exact ⟨rfl, _, by simp [lengthText?, Compression.needsOriginalLength, hkind, hlength], rfl,
        isLegal_toString n⟩

/-! ## Headers afterwards -/

section Values

variable {e : Envelope} {h : Headers} {name : String} {value : Bytes}

theorem Writes.mem_negotiation (hwrites : e.Writes name value) : name ∈ negotiation := by
  cases hwrites <;> simp [negotiation]

theorem Writes.values_writeHeaders (hwrites : e.Writes name value) :
    (e.writeHeaders h).values name = [value] := by
  rw [writeHeaders_eq_insertAll]
  exact Headers.values_insertAll_of_mem e.nodup_fields (mem_fields_iff.mpr hwrites)

theorem values_writeHeaders_of_not_writes (hnone : ∀ value, ¬e.Writes name value) :
    (e.writeHeaders h).values name = h.values name := by
  rw [writeHeaders_eq_insertAll]
  refine Headers.values_insertAll_of_notMem fun hmem => ?_
  obtain ⟨field, hfield, rfl⟩ := List.mem_map.mp hmem
  exact hnone field.2 (mem_fields_iff.mp hfield)

end Values

theorem writeHeaders_writeHeaders (e : Envelope) (h : Headers) :
    e.writeHeaders (e.writeHeaders h) = e.writeHeaders h := by
  simp only [writeHeaders_eq_insertAll]
  exact Headers.insertAll_insertAll e.nodup_fields

/-- What an envelope wrote is forgotten once another one has written under the same names. -/
theorem values_writeHeaders_writeHeaders {e e' : Envelope}
    (hover : ∀ name value, e.Writes name value → ∃ value', e'.Writes name value') (h : Headers)
    (name : String) :
    (e'.writeHeaders (e.writeHeaders h)).values name = (e'.writeHeaders h).values name := by
  by_cases hwrites : ∃ value, e'.Writes name value
  · obtain ⟨value, hwrites⟩ := hwrites
    rw [hwrites.values_writeHeaders, hwrites.values_writeHeaders]
  · have hnone' : ∀ value, ¬e'.Writes name value := not_exists.mp hwrites
    have hnone : ∀ value, ¬e.Writes name value := fun value he => hwrites (hover name value he)
    rw [values_writeHeaders_of_not_writes hnone', values_writeHeaders_of_not_writes hnone,
      values_writeHeaders_of_not_writes hnone']

/-- Writing replaces the values of the names that it writes under, and touches nothing else. It may
be repeated, and a description that has all names of an earlier one leaves nothing of it. -/
theorem writeHeaders_overwrites (e : Envelope) (h : Headers) :
    (∀ name ∉ negotiation, (e.writeHeaders h).values name = h.values name) ∧
    (∀ name value, e.Writes name value → (e.writeHeaders h).values name = [value]) ∧
    (∀ name, (∀ value, ¬e.Writes name value) →
      (e.writeHeaders h).values name = h.values name) ∧
    e.writeHeaders (e.writeHeaders h) = e.writeHeaders h ∧
    ∀ e' : Envelope, (∀ name value, e.Writes name value → ∃ value', e'.Writes name value') →
      ∀ name, (e'.writeHeaders (e.writeHeaders h)).values name =
        (e'.writeHeaders h).values name :=
  ⟨fun _ hname => values_writeHeaders_of_not_writes fun _ hwrites => hname hwrites.mem_negotiation,
    fun _ _ hwrites => hwrites.values_writeHeaders,
    fun _ => values_writeHeaders_of_not_writes, writeHeaders_writeHeaders e h,
    fun _ hover => values_writeHeaders_writeHeaders hover h⟩

end Envelope
end SealedHttp
