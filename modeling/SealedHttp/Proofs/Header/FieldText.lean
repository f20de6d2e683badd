import SealedHttp.Proofs.Header.Fields

/-!
# Texts that headers carry

What a name says is the text of its first value without the gaps around it, and nothing if no text
is left. The texts that can be said are those without a gap at either end.
-/

namespace SealedHttp

namespace Text

/-- A space or a tab. -/
def IsGap (c : Char) : Prop := c = ' ' ∨ c = '\t'

/-- A text that headers carry as it is: readable, not empty, and without a gap at either end. -/
structure IsFieldText (s : String) : Prop where
  ne_empty : s ≠ ""
  readable : ∀ c ∈ s.toList, IsReadable c
  head : ∀ c ∈ s.toList.head?, ¬IsGap c
  last : ∀ c ∈ s.toList.getLast?, ¬IsGap c

instance (c : Char) : Decidable (IsGap c) := inferInstanceAs (Decidable (c = ' ' ∨ c = '\t'))

-- The instances are written out because there is another one that tries all characters.
instance (s : String) : Decidable (IsFieldText s) :=
  haveI : Decidable (∀ c ∈ s.toList, IsReadable c) := List.decidableBAll _ s.toList
  haveI : Decidable (∀ c ∈ s.toList.head?, ¬IsGap c) := Option.decidableForallMem _
  haveI : Decidable (∀ c ∈ s.toList.getLast?, ¬IsGap c) := Option.decidableForallMem _
  decidable_of_iff (s ≠ "" ∧ (∀ c ∈ s.toList, IsReadable c) ∧ (∀ c ∈ s.toList.head?, ¬IsGap c) ∧
      ∀ c ∈ s.toList.getLast?, ¬IsGap c)
    ⟨fun ⟨hne, hread, hhead, hlast⟩ => ⟨hne, hread, hhead, hlast⟩,
      fun hs => ⟨hs.ne_empty, hs.readable, hs.head, hs.last⟩⟩

theorem IsGap.isReadable {c : Char} (h : IsGap c) : IsReadable c := by
  rcases h with rfl | rfl <;> decide

theorem IsGap.isBlank {c : Char} (h : IsGap c) : isBlank c = true := by
  rcases h with rfl | rfl <;> decide

/-- Of the many blanks of Unicode, only the gaps are readable. -/
theorem IsReadable.isGap {c : Char} (h : IsReadable c) (hblank : isBlank c = true) : IsGap c := by
  rcases h with ⟨hlow, hhigh⟩ | rfl
  · refine .inl (Char.toNat_inj.mp ?_)
    simp only [Text.isBlank, Bool.or_eq_true, Bool.and_eq_true, decide_eq_true_eq,
      beq_iff_eq] at hblank
    change c.toNat = 0x20
    omega
  · exact .inr rfl

theorem IsReadable.isBlank_eq_false {c : Char} (h : IsReadable c) (hgap : ¬IsGap c) :
    isBlank c = false :=
  Bool.eq_false_iff.mpr fun hblank => hgap (h.isGap hblank)

theorem not_isGap_of_isBlank {c : Char} (h : isBlank c = false) : ¬IsGap c :=
  fun hgap => Bool.false_ne_true (h.symm.trans hgap.isBlank)

theorem IsToken.isFieldText {s : String} (h : IsToken s) : IsFieldText s where
  ne_empty := h.ne_empty
  readable c hc := (h.graphic c hc).isReadable
  head c hc := not_isGap_of_isBlank (h.graphic c (List.mem_of_mem_head? hc)).not_isBlank
  last c hc := not_isGap_of_isBlank (h.graphic c (List.mem_of_mem_getLast? hc)).not_isBlank

theorem trim_of_gaps {gap : String} (h : ∀ c ∈ gap.toList, IsGap c) : trim gap = "" := by
  rw [trim, trimList_of_blanks fun c hc => (h c hc).isBlank]

theorem IsFieldText.trim_append {pre s post : String} (hs : IsFieldText s)
    (hpre : ∀ c ∈ pre.toList, IsGap c) (hpost : ∀ c ∈ post.toList, IsGap c) :
    trim (pre ++ s ++ post) = s := by
  have hhead : ∀ c ∈ s.toList.head?, isBlank c = false := by
    intro c hc
    have hread := hs.readable c (List.mem_of_mem_head? hc)
    exact hread.isBlank_eq_false (hs.head c hc)
  have hlast : ∀ c ∈ s.toList.getLast?, isBlank c = false := by
    intro c hc
    have hread := hs.readable c (List.mem_of_mem_getLast? hc)
    exact hread.isBlank_eq_false (hs.last c hc)
  have hcore : trimList (pre.toList ++ s.toList ++ post.toList) = s.toList :=
    trimList_append (fun c hc => (hpre c hc).isBlank) (fun c hc => (hpost c hc).isBlank) hhead hlast
  rw [trim, String.toList_append, String.toList_append, hcore, String.ofList_toList]

/-- A readable text consists of gaps, or of a text without gaps at its ends between two gaps. -/
theorem gaps_or_isFieldText_trim {u : String} (hu : ∀ c ∈ u.toList, IsReadable c) :
    (∀ c ∈ u.toList, IsGap c) ∨
      IsFieldText (trim u) ∧ ∃ pre post : String, u = pre ++ trim u ++ post ∧
        (∀ c ∈ pre.toList, IsGap c) ∧ ∀ c ∈ post.toList, IsGap c := by
  obtain ⟨pre, post, hsplit, hpre, hpost⟩ := exists_eq_append_trimList u.toList
  have hparts : ∀ c, c ∈ pre ∨ c ∈ trimList u.toList ∨ c ∈ post → IsReadable c := by
    intro c hc
    apply hu c
    rw [hsplit, List.append_assoc]
    simpa only [List.mem_append] using hc
  have hpreGap : ∀ c ∈ pre, IsGap c := fun c hc => (hparts c (.inl hc)).isGap (hpre c hc)
  have hpostGap : ∀ c ∈ post, IsGap c :=
    fun c hc => (hparts c (.inr (.inr hc))).isGap (hpost c hc)
  have hcore : (trim u).toList = trimList u.toList := String.toList_ofList
  by_cases hnil : trimList u.toList = []
  · left
    intro c hc
    rw [hsplit, hnil, List.append_nil] at hc
    rcases List.mem_append.mp hc with hc | hc
    · exact hpreGap c hc
    · exact hpostGap c hc
  · right
    refine ⟨⟨?_, ?_, ?_, ?_⟩, String.ofList pre, String.ofList post, ?_, ?_, ?_⟩
    · intro hempty
      rw [hempty] at hcore
      exact hnil hcore.symm
    · intro c hc
      rw [hcore] at hc
      exact hparts c (.inr (.inl hc))
    · intro c hc
      rw [hcore] at hc
      exact not_isGap_of_isBlank (isBlank_of_mem_head?_trimList c hc)
    · intro c hc
      rw [hcore] at hc
      exact not_isGap_of_isBlank (isBlank_of_mem_getLast?_trimList c hc)
    · apply String.toList_inj.mp
      rw [String.toList_append, String.toList_append, String.toList_ofList, String.toList_ofList,
        hcore]
      exact hsplit
    · rwa [String.toList_ofList]
    · rwa [String.toList_ofList]

end Text

namespace Headers

/-- The first value of a name, if there is one, holds nothing but visible ASCII and tabs. -/
def IsReadable (h : Headers) (name : String) : Prop :=
  ∀ value ∈ h.get? name, ∀ b ∈ value, (0x20 ≤ b ∧ b < 0x7F) ∨ b = 0x09

/-- What the first value of a name says: a text between gaps, or nothing. -/
inductive Says (h : Headers) (name : String) : Option String → Prop
  | absent (hget : h.get? name = none) : Says h name none
  | blank {gap : String} (hget : h.get? name = some (Bytes.ofText gap))
      (hgap : ∀ c ∈ gap.toList, Text.IsGap c) : Says h name none
  | text {pre s post : String} (hget : h.get? name = some (Bytes.ofText (pre ++ s ++ post)))
      (hpre : ∀ c ∈ pre.toList, Text.IsGap c) (hpost : ∀ c ∈ post.toList, Text.IsGap c)
      (hs : Text.IsFieldText s) : Says h name (some s)

variable {h : Headers} {name : String}

theorem isReadable_iff : h.IsReadable name ↔ ∀ value ∈ h.get? name, (text? value).isSome := by
  apply forall₂_congr
  intro value _
  have hbyte : ∀ b : UInt8, ((0x20 ≤ b ∧ b < 0x7F) ∨ b = 0x09) ↔ Text.isVisible b = true := by
    intro b
    simp only [Text.isVisible, Bool.or_eq_true, Bool.and_eq_true, decide_eq_true_eq, beq_iff_eq]
  rw [text?, ← List.all_eq_true.trans (forall₂_congr fun b _ => (hbyte b).symm)]
  split <;> simp [*]

theorem Says.isFieldText {s : String} (hsaid : h.Says name (some s)) : Text.IsFieldText s := by
  cases hsaid with
  | text _ _ _ hs => exact hs

end Headers
end SealedHttp
