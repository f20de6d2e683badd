import SealedHttp.Header.Map
import SealedHttp.Proofs.ByteStrings
import SealedHttp.Proofs.Text.Trimming

/-!
# Looking up header fields

Giving a name a value changes nothing about the other names. A value that can be looked at as text
consists of the bytes of that text.
-/

namespace SealedHttp

namespace Text

/-- The byte of an ASCII character. -/
def asciiByte (c : Char) : UInt8 := UInt8.ofNat c.toNat

theorem IsReadable.toNat_asciiByte {c : Char} (h : IsReadable c) : (asciiByte c).toNat = c.toNat := by
  have hlt := h.toNat_lt
  rw [asciiByte, UInt8.toNat_ofNat']
  omega

theorem ofList_asciiBytes {s : String} (h : ∀ c ∈ s.toList, IsReadable c) :
    String.ofList ((s.toList.map asciiByte).map fun b => Char.ofNat b.toNat) = s := by
  have hchars : (s.toList.map asciiByte).map (fun b => Char.ofNat b.toNat) = s.toList := by
    rw [List.map_map]
    refine (List.map_congr_left ?_).trans (List.map_id _)
    intro c hc
    rw [Function.comp_apply, (h c hc).toNat_asciiByte, Char.ofNat_toNat, id]
  rw [hchars, String.ofList_toList]

/-- The bytes of a readable text are its characters. -/
theorem ofText_eq {s : String} (h : ∀ c ∈ s.toList, IsReadable c) :
    Bytes.ofText s = s.toList.map asciiByte := by
  have hbytes : ∀ b ∈ s.toList.map asciiByte, b.toNat < 128 := by
    intro b hb
    obtain ⟨c, hc, rfl⟩ := List.mem_map.mp hb
    rw [(h c hc).toNat_asciiByte]
    exact (h c hc).toNat_lt.trans (by decide)
  conv_lhs => rw [← ofList_asciiBytes h]
  exact Bytes.ofText_ofList hbytes

/-- The bytes that can be looked at as text are those of the readable characters. -/
theorem isVisible_iff (b : UInt8) :
    isVisible b = true ↔ b.toNat < 128 ∧ IsReadable (Char.ofNat b.toNat) :=
  Bytes.forall_byte
    (p := fun b => isVisible b = true ↔ b.toNat < 128 ∧ IsReadable (Char.ofNat b.toNat))
    (by decide +kernel) b

theorem isVisible_of_mem_ofText {s : String} (h : ∀ c ∈ s.toList, IsReadable c) {b : UInt8}
    (hb : b ∈ Bytes.ofText s) : isVisible b = true := by
  rw [ofText_eq h] at hb
  obtain ⟨c, hc, rfl⟩ := List.mem_map.mp hb
  rw [isVisible_iff, (h c hc).toNat_asciiByte, Char.ofNat_toNat]
  exact ⟨(h c hc).toNat_lt.trans (by decide), h c hc⟩

end Text

namespace Headers

variable {h : Headers} {name other : String} {value : Bytes}

/-! ## Values -/

theorem values_insert_self : (h.insert name value).values name = [value] := by
  have hnone : (h.fields.filter (·.1 ≠ name)).filter (·.1 = name) = [] := by
    rw [List.filter_filter]
    simp
  rw [values, insert, List.filter_append, hnone]
  simp

theorem get?_insert_self : (h.insert name value).get? name = some value := by
  rw [get?, values_insert_self]
  rfl

theorem get?_eq_none_iff : h.get? name = none ↔ h.values name = [] := List.head?_eq_none_iff

theorem values_insert_of_ne (hne : other ≠ name) :
    (h.insert name value).values other = h.values other := by
  have hkept : (h.fields.filter (·.1 ≠ name)).filter (·.1 = other) =
      h.fields.filter (·.1 = other) := by
    rw [List.filter_filter]
    refine List.filter_congr ?_
    intro field _
    by_cases heq : field.1 = other <;> simp [heq, hne]
  have hlast : [(name, value)].filter (·.1 = other) = [] := by simp [hne.symm]
  rw [values, insert, List.filter_append, hkept, hlast, List.append_nil]
  rfl

theorem get?_insert_of_ne (hne : other ≠ name) : (h.insert name value).get? other = h.get? other := by
  rw [get?, values_insert_of_ne hne]
  rfl

theorem get?_insertLegal_of_ne (hne : other ≠ name) :
    (h.insertLegal name value).get? other = h.get? other := by
  rw [insertLegal]
  split
  · exact get?_insert_of_ne hne
  · rfl

/-! ## Readable texts -/

/-- Values are read as the texts that they are the bytes of, if these are readable. -/
theorem text?_eq_some_iff {s : String} :
    text? value = some s ↔ value = Bytes.ofText s ∧ ∀ c ∈ s.toList, Text.IsReadable c := by
  constructor
  · intro h
    rw [text?] at h
    split at h
    · next hall =>
      cases h
      have hvisible : ∀ b ∈ value, b.toNat < 128 ∧ Text.IsReadable (Char.ofNat b.toNat) :=
        fun b hb => (Text.isVisible_iff b).mp (List.all_eq_true.mp hall b hb)
      refine ⟨(Bytes.ofText_ofList fun b hb => (hvisible b hb).1).symm, ?_⟩
      intro c hc
      rw [String.toList_ofList] at hc
      obtain ⟨b, hb, rfl⟩ := List.mem_map.mp hc
      exact (hvisible b hb).2
    · cases h
  · rintro ⟨rfl, hs⟩
    have hall : (Bytes.ofText s).all Text.isVisible = true :=
      List.all_eq_true.mpr fun _ hb => Text.isVisible_of_mem_ofText hs hb
    rw [text?, if_pos hall, Text.ofText_eq hs, Text.ofList_asciiBytes hs]

theorem text?_ofText {s : String} (hs : ∀ c ∈ s.toList, Text.IsReadable c) :
    text? (Bytes.ofText s) = some s := text?_eq_some_iff.mpr ⟨rfl, hs⟩

theorem isLegal_of_isVisible : ∀ b, Text.isVisible b = true → isLegalByte b = true :=
  Bytes.forall_byte (by decide +kernel)

theorem isLegal_ofText {s : String} (hs : ∀ c ∈ s.toList, Text.IsReadable c) :
    isLegal (Bytes.ofText s) = true :=
  List.all_eq_true.mpr fun b hb => isLegal_of_isVisible b (Text.isVisible_of_mem_ofText hs hb)

theorem insertLegal_ofText {s : String} (hs : ∀ c ∈ s.toList, Text.IsReadable c) :
    h.insertLegal name (Bytes.ofText s) = h.insert name (Bytes.ofText s) :=
  if_pos (isLegal_ofText hs)

end Headers
end SealedHttp
