import SealedHttp.Body.Value

/-!
# Plain values

A plain value has no doubles, and its integers fit 64 bits. The fields of an object are in the
order of their names; objects with any distinct names have such a form.
-/

namespace SealedHttp.Value

mutual

def IsPlain : Value → Prop
  | null | bool _ | text _ => True
  | int n => -0x8000000000000000 ≤ n ∧ n ≤ 0xFFFFFFFFFFFFFFFF
  | double _ => False
  | array items => ItemsArePlain items
  | object fields => fields.Pairwise (fun f g => f.1 < g.1) ∧ FieldsArePlain fields

def ItemsArePlain : List Value → Prop
  | [] => True
  | v :: rest => v.IsPlain ∧ ItemsArePlain rest

def FieldsArePlain : List (String × Value) → Prop
  | [] => True
  | (_, v) :: rest => v.IsPlain ∧ FieldsArePlain rest

end

mutual

/-- How many arrays and objects are within one another. -/
def depth : Value → Nat
  | array items => itemsDepth items + 1
  | object fields => fieldsDepth fields + 1
  | _ => 0

def itemsDepth : List Value → Nat
  | [] => 0
  | v :: rest => max v.depth (itemsDepth rest)

def fieldsDepth : List (String × Value) → Nat
  | [] => 0
  | (_, v) :: rest => max v.depth (fieldsDepth rest)

end

theorem depth_array (items : List Value) : (array items).depth = itemsDepth items + 1 := rfl

theorem depth_object (fields : List (String × Value)) :
    (object fields).depth = fieldsDepth fields + 1 := rfl

/-! ## Objects -/

section Fields

variable {name : String} {v : Value} {fields : List (String × Value)}

theorem insertField_of_forall_lt (h : ∀ f ∈ fields, f.1 < name) :
    insertField name v fields = fields ++ [(name, v)] := by
  induction fields with
  | nil => rfl
  | cons f fields ih =>
    have hlt : f.1 < name := h f List.mem_cons_self
    have hne : name ≠ f.1 := fun heq => String.lt_irrefl _ (heq ▸ hlt)
    rw [insertField, if_neg (String.lt_asymm hlt), if_neg hne,
      ih fun g hg => h g (List.mem_cons_of_mem f hg)]
    rfl

theorem foldl_insertField (front : List (String × Value))
    (h : (front ++ fields).Pairwise (fun f g => f.1 < g.1)) :
    fields.foldl (fun out (name, v) => insertField name v out) front = front ++ fields := by
  induction fields generalizing front with
  | nil => exact (List.append_nil front).symm
  | cons f fields ih =>
    have hlt : ∀ g ∈ front, g.1 < f.1 := by
      intro g hg
      exact (List.pairwise_append.mp h).2.2 g hg f List.mem_cons_self
    rw [List.append_cons] at h ⊢
    rw [← ih _ h, ← insertField_of_forall_lt hlt]
    rfl

/-- Fields that are in order stay as they are. -/
theorem ofFields_of_pairwise (h : fields.Pairwise (fun f g => f.1 < g.1)) :
    ofFields fields = object fields := by
  rw [ofFields, foldl_insertField [] h, List.nil_append]

theorem insertField_perm (h : ∀ f ∈ fields, f.1 ≠ name) :
    (insertField name v fields).Perm ((name, v) :: fields) := by
  induction fields with
  | nil => exact .refl _
  | cons f fields ih =>
    rw [insertField]
    split
    · exact .refl _
    · have hne : name ≠ f.1 := (h f List.mem_cons_self).symm
      rw [if_neg hne]
      exact ((ih fun g hg => h g (List.mem_cons_of_mem f hg)).cons f).trans (.swap _ _ _)

theorem pairwise_insertField (h : fields.Pairwise (fun f g => f.1 < g.1))
    (hname : ∀ f ∈ fields, f.1 ≠ name) :
    (insertField name v fields).Pairwise (fun f g => f.1 < g.1) := by
  induction fields with
  | nil => exact List.pairwise_singleton _ _
  | cons f fields ih =>
    obtain ⟨hf, hfields⟩ := List.pairwise_cons.mp h
    have hne : name ≠ f.1 := (hname f List.mem_cons_self).symm
    have hnames : ∀ g ∈ fields, g.1 ≠ name := fun g hg => hname g (List.mem_cons_of_mem f hg)
    rw [insertField]
    split
    next hlt =>
      refine List.pairwise_cons.mpr ⟨?_, h⟩
      intro g hg
      rcases List.mem_cons.mp hg with rfl | hg
      · exact hlt
      · exact String.lt_trans hlt (hf g hg)
    next hle =>
      refine List.pairwise_cons.mpr ⟨?_, ih hfields hnames⟩
      intro g hg
      rcases List.mem_cons.mp ((insertField_perm hnames).mem_iff.mp hg) with rfl | hg
      · exact Std.lt_of_le_of_ne (String.not_lt.mp hle) hne.symm
      · exact hf g hg

theorem foldl_insertField_perm (out : List (String × Value))
    (h : out.Pairwise (fun f g => f.1 < g.1)) (hnodup : ((fields ++ out).map Prod.fst).Nodup) :
    let sorted := fields.foldl (fun out (name, v) => insertField name v out) out
    sorted.Perm (fields ++ out) ∧ sorted.Pairwise (fun f g => f.1 < g.1) := by
  induction fields generalizing out with
  | nil => exact ⟨.refl _, h⟩
  | cons f fields ih =>
    obtain ⟨name, v⟩ := f
    rw [List.cons_append, List.map_cons, List.nodup_cons] at hnodup
    have hnames : ∀ g ∈ out, g.1 ≠ name := by
      rintro g hg rfl
      exact hnodup.1 (List.mem_map.mpr ⟨g, List.mem_append_right _ hg, rfl⟩)
    have hperm := (insertField_perm (v := v) hnames).append_left fields
    have hperm' := hperm.trans List.perm_middle
    have hsorted := ih _ (pairwise_insertField (v := v) h hnames) ?_
    · exact ⟨hsorted.1.trans hperm', hsorted.2⟩
    · rw [(hperm'.map Prod.fst).nodup_iff, List.map_cons, List.nodup_cons]
      exact hnodup

end Fields

/-- Fields with distinct names make an object that has them in the order of their names. -/
theorem exists_ofFields {fields : List (String × Value)} (h : (fields.map Prod.fst).Nodup) :
    ∃ sorted, ofFields fields = object sorted ∧ sorted.Perm fields ∧
      sorted.Pairwise (fun f g => f.1 < g.1) := by
  obtain ⟨hperm, hsorted⟩ := foldl_insertField_perm [] .nil (by rwa [List.append_nil])
  rw [List.append_nil] at hperm
  exact ⟨_, rfl, hperm, hsorted⟩

theorem fieldsArePlain_iff {fields : List (String × Value)} :
    FieldsArePlain fields ↔ ∀ f ∈ fields, f.2.IsPlain := by
  induction fields with
  | nil => exact iff_of_true trivial nofun
  | cons f fields ih => rw [FieldsArePlain, ih, List.forall_mem_cons]

/-- Plain fields with distinct names make a plain object. -/
theorem isPlain_ofFields {fields : List (String × Value)} (h : (fields.map Prod.fst).Nodup)
    (hplain : FieldsArePlain fields) : (ofFields fields).IsPlain := by
  obtain ⟨sorted, hobject, hperm, hsorted⟩ := exists_ofFields h
  rw [hobject]
  refine ⟨hsorted, fieldsArePlain_iff.mpr ?_⟩
  intro f hf
  exact fieldsArePlain_iff.mp hplain f (hperm.mem_iff.mp hf)

/-! ## Maps of small integers -/

def countFields (counts : List (String × Int)) : List (String × Value) :=
  counts.map fun count => (count.1, int count.2)

theorem countFields_cons (count : String × Int) (counts : List (String × Int)) :
    countFields (count :: counts) = (count.1, int count.2) :: countFields counts := rfl

theorem ofFields_countFields {counts : List (String × Int)}
    (h : counts.Pairwise fun c d => c.1 < d.1) :
    ofFields (countFields counts) = object (countFields counts) :=
  ofFields_of_pairwise (List.pairwise_map.mpr h)

theorem isPlain_int {n : Int} (hn : isSmallInteger n = true) : (int n).IsPlain := by
  simp only [isSmallInteger, Bool.and_eq_true, decide_eq_true_eq] at hn
  exact ⟨by omega, by omega⟩

end SealedHttp.Value
