import Mathlib.Data.List.DropRight
import SealedHttp.Text.Basic

/-!
# Trimming

A text without a blank at either end is left as it is, such as one of graphic characters alone.
-/

namespace SealedHttp.Text

theorem dropWhile_of_head {p : Char → Bool} {cs : List Char} (h : ∀ c ∈ cs.head?, p c = false) :
    cs.dropWhile p = cs := by
  cases cs with
  | nil => rfl
  | cons c cs => rw [List.dropWhile_cons_of_neg]; simp [h c rfl]

theorem trimList_eq_self {cs : List Char} (hhead : ∀ c ∈ cs.head?, isBlank c = false)
    (hlast : ∀ c ∈ cs.getLast?, isBlank c = false) : trimList cs = cs := by
  rw [trimList, dropWhile_of_head hhead, dropWhile_of_head, List.reverse_reverse]
  rwa [List.head?_reverse]

theorem trimList_of_forall {cs : List Char} (h : ∀ c ∈ cs, isBlank c = false) :
    trimList cs = cs :=
  trimList_eq_self (fun c hc => h c (List.mem_of_mem_head? hc))
    fun c hc => h c (List.mem_of_mem_getLast? hc)

theorem trim_of_forall {s : String} (h : ∀ c ∈ s.toList, isBlank c = false) : trim s = s := by
  rw [trim, trimList_of_forall h, String.ofList_toList]

/-! ## Runs of blanks -/

/-- Trimming takes a run of blanks away from either end. -/
theorem exists_eq_append_trimList (cs : List Char) :
    ∃ pre post, cs = pre ++ trimList cs ++ post ∧ (∀ c ∈ pre, isBlank c = true) ∧
      ∀ c ∈ post, isBlank c = true := by
  refine ⟨cs.takeWhile isBlank, ((cs.dropWhile isBlank).reverse.takeWhile isBlank).reverse,
    ?_, ?_, ?_⟩
  · rw [trimList, List.append_assoc, ← List.reverse_append, List.takeWhile_append_dropWhile,
      List.reverse_reverse, List.takeWhile_append_dropWhile]
  · intro c hc
    exact List.mem_takeWhile_imp hc
  · intro c hc
    exact List.mem_takeWhile_imp (List.mem_reverse.mp hc)

theorem isBlank_of_mem_getLast?_trimList {cs : List Char} :
    ∀ c ∈ (trimList cs).getLast?, isBlank c = false := by
  intro c hc
  have hlast := List.head?_dropWhile_not isBlank (cs.dropWhile isBlank).reverse
  rw [trimList, List.getLast?_reverse, Option.mem_def] at hc
  rwa [hc] at hlast

theorem isBlank_of_mem_head?_trimList {cs : List Char} :
    ∀ c ∈ (trimList cs).head?, isBlank c = false := by
  intro c hc
  have hfirst := List.head?_dropWhile_not isBlank cs
  -- What is trimmed at the end does not touch the first character, if one is left.
  obtain ⟨rest, hrest⟩ : trimList cs <+: cs.dropWhile isBlank := List.rdropWhile_prefix isBlank _
  rw [← hrest, List.head?_append, Option.mem_def.mp hc, Option.some_or] at hfirst
  exact hfirst

theorem trimList_of_blanks {cs : List Char} (h : ∀ c ∈ cs, isBlank c = true) :
    trimList cs = [] := by
  rw [trimList, List.dropWhile_eq_nil_iff.mpr h]
  rfl

theorem trimList_append {pre core post : List Char} (hpre : ∀ c ∈ pre, isBlank c = true)
    (hpost : ∀ c ∈ post, isBlank c = true) (hhead : ∀ c ∈ core.head?, isBlank c = false)
    (hlast : ∀ c ∈ core.getLast?, isBlank c = false) : trimList (pre ++ core ++ post) = core := by
  have hrest : trimList (core ++ post) = core := by
    cases core with
    | nil => exact trimList_of_blanks hpost
    | cons c cs =>
      have hfront : (c :: cs ++ post).dropWhile isBlank = c :: cs ++ post := dropWhile_of_head hhead
      rw [trimList, hfront, List.reverse_append,
        List.dropWhile_append_of_pos fun c hc => hpost c (List.mem_reverse.mp hc),
        dropWhile_of_head (by rwa [List.head?_reverse]), List.reverse_reverse]
  rw [List.append_assoc, trimList, List.dropWhile_append_of_pos hpre]
  exact hrest

/-! ## Characters of headers -/

/-- Visible ASCII other than the space. -/
def IsGraphic (c : Char) : Prop := 0x20 < c.toNat ∧ c.toNat < 0x7F

instance (c : Char) : Decidable (IsGraphic c) :=
  inferInstanceAs (Decidable (0x20 < c.toNat ∧ c.toNat < 0x7F))

/-- A text of graphic characters, at least one. -/
structure IsToken (s : String) : Prop where
  ne_empty : s ≠ ""
  graphic : ∀ c ∈ s.toList, IsGraphic c

/-- What a header value can be read as: visible ASCII, the space included, and tabs. -/
def IsReadable (c : Char) : Prop := (0x20 ≤ c.toNat ∧ c.toNat < 0x7F) ∨ c = '\t'

instance (c : Char) : Decidable (IsReadable c) :=
  inferInstanceAs (Decidable ((0x20 ≤ c.toNat ∧ c.toNat < 0x7F) ∨ c = '\t'))

theorem IsGraphic.isReadable {c : Char} (h : IsGraphic c) : IsReadable c := .inl ⟨h.1.le, h.2⟩

theorem IsReadable.toNat_lt {c : Char} (h : IsReadable c) : c.toNat < 0x7F := by
  rcases h with ⟨-, hhigh⟩ | rfl
  · exact hhigh
  · decide

theorem IsGraphic.not_isBlank {c : Char} (h : IsGraphic c) : isBlank c = false := by
  obtain ⟨hlow, hhigh⟩ := h
  simp only [isBlank, Bool.or_eq_false_iff, Bool.and_eq_false_iff, decide_eq_false_iff_not,
    beq_eq_false_iff_ne]
  omega

end SealedHttp.Text
