import SealedHttp.Routing.Pattern
import SealedHttp.Proofs.Results

/-!
# What route patterns say

A pattern can be written back as the text it was read from. A path matches a pattern if it comes
about by putting values for the parameters. A tree of routes does not keep the names of parameters
for segments, which is why patterns are also compared without them.
-/

namespace SealedHttp.Routing

/-- A part without the name of a parameter for a segment. -/
def Part.shape : Part → Part
  | .param _ => .param []
  | part => part

namespace Pattern

def shape (ps : Pattern) : Pattern := ps.map Part.shape

def text : Pattern → Bytes
  | [] => []
  | .byte b :: ps => b :: text ps
  | .param name :: ps => colon :: name ++ text ps
  | .rest name :: ps => star :: name ++ text ps

/-- No parameters occur. -/
def IsLiteral (ps : Pattern) : Prop := ∀ part ∈ ps, ∃ b, part = .byte b

/-- The path that comes about when the parameters have these values. A value for a segment has no
slash in it. -/
inductive Matches : Pattern → List (Bytes × Bytes) → Bytes → Prop
  | nil : Matches [] [] []
  | byte (b : UInt8) {ps : Pattern} {params : List (Bytes × Bytes)} {path : Bytes}
      (h : Matches ps params path) : Matches (.byte b :: ps) params (b :: path)
  | param (name : Bytes) {value : Bytes} (hvalue : slash ∉ value) {ps : Pattern}
      {params : List (Bytes × Bytes)} {path : Bytes} (h : Matches ps params path) :
      Matches (.param name :: ps) ((name, value) :: params) (value ++ path)
  | rest (name value : Bytes) : Matches [.rest name] [(name, value)] value

/-- The same with the values of segments apart from the named rest. -/
inductive Fills : Pattern → List Bytes → Option (Bytes × Bytes) → Bytes → Prop
  | nil : Fills [] [] none []
  | byte (b : UInt8) {ps : Pattern} {captured : List Bytes} {rest : Option (Bytes × Bytes)}
      {path : Bytes} (h : Fills ps captured rest path) :
      Fills (.byte b :: ps) captured rest (b :: path)
  | param (name : Bytes) {value : Bytes} (hvalue : slash ∉ value) {ps : Pattern}
      {captured : List Bytes} {rest : Option (Bytes × Bytes)} {path : Bytes}
      (h : Fills ps captured rest path) :
      Fills (.param name :: ps) (value :: captured) rest (value ++ path)
  | rest (name value : Bytes) : Fills [.rest name] [] (some (name, value)) value

theorem Fills.bytes (front : Bytes) {ps : Pattern} {captured : List Bytes}
    {rest : Option (Bytes × Bytes)} {path : Bytes} (h : Fills ps captured rest path) :
    Fills (front.map .byte ++ ps) captured rest (front ++ path) := by
  induction front with
  | nil => exact h
  | cons b front ih => exact .byte b ih

/-- Values for the parameters of a shape are values for those of the pattern, by their names. -/
theorem Fills.matches {ps : Pattern} {captured : List Bytes} {rest : Option (Bytes × Bytes)}
    {path : Bytes} (h : Fills ps.shape captured rest path) :
    Matches ps (ps.names.zip captured ++ rest.toList) path := by
  induction ps generalizing captured path with
  | nil =>
    cases h
    exact .nil
  | cons part ps ih =>
    rw [shape, List.map_cons] at h
    cases part with
    | byte b =>
      cases h with
      | byte _ h => exact .byte b (ih h)
    | param name =>
      cases h with
      | param _ hvalue h => exact .param name hvalue (ih h)
    | rest name =>
      generalize hps : ps.map Part.shape = qs at h
      cases h
      cases List.map_eq_nil_iff.mp hps
      exact .rest name path

/-! ## Reading -/

/-- A parameter ends its segment. -/
def IsSegmented : Pattern → Prop
  | [] => True
  | .byte _ :: ps => IsSegmented ps
  | .param _ :: ps | .rest _ :: ps => (ps = [] ∨ ps.head? = some (.byte slash)) ∧ IsSegmented ps

theorem isSegmented_of_append {front ps : Pattern} (h : IsSegmented (front ++ ps)) :
    IsSegmented ps := by
  induction front with
  | nil => exact h
  | cons part front ih =>
    cases part with
    | byte => exact ih h
    | param | rest => exact ih h.2

theorem literal_append_wild (ps : Pattern) : ps.literal.map .byte ++ ps.wild = ps := by
  induction ps with
  | nil => rfl
  | cons part ps ih =>
    cases part with
    | byte b => exact congrArg (Part.byte b :: ·) ih
    | param | rest => rfl

theorem wild_ne_byte {ps more : Pattern} {b : UInt8} : ps.wild ≠ .byte b :: more := by
  induction ps with
  | nil => exact nofun
  | cons part ps ih =>
    cases part with
    | byte c => exact ih
    | param | rest => exact nofun

end Pattern

open Pattern

theorem text_of_parseFrom {left : Nat} {route : Bytes} {parts : Pattern}
    (h : parseFrom left route = .ok parts) : parts.text = route := by
  fun_induction parseFrom left route generalizing parts with
  | case1 =>
    cases h
    rfl
  | case2 | case3 | case5 => cases h
  | case4 _ bs =>
    rename_i ih
    obtain ⟨ps, hps, rfl⟩ := exists_of_map_eq_ok h
    rw [text, ih hps]
    exact congrArg (star :: ·) List.takeWhile_append_dropWhile
  | case6 _ b bs hb _ _ _ hstar =>
    rename_i ih
    obtain ⟨ps, hps, rfl⟩ := exists_of_map_eq_ok h
    rw [text, ih hps, hb.resolve_right hstar]
    exact congrArg (colon :: ·) List.takeWhile_append_dropWhile
  | case7 left b bs _ ih =>
    obtain ⟨ps, hps, rfl⟩ := exists_of_map_eq_ok h
    rw [text, ih hps]

/-- What is left behind a parameter begins with a slash. -/
theorem head?_of_parseFrom {left : Nat} {bs : Bytes} {parts : Pattern}
    (h : parseFrom left (bs.dropWhile (· ≠ slash)) = .ok parts) :
    parts = [] ∨ parts.head? = some (.byte slash) := by
  cases hbs : bs.dropWhile (· ≠ slash) with
  | nil =>
    rw [hbs, parseFrom] at h
    exact .inl (Except.ok.inj h).symm
  | cons b rest =>
    obtain rfl : b = slash := by
      have hhead := List.head?_dropWhile_not (· ≠ slash) bs
      simpa only [hbs, List.head?_cons, ne_eq, decide_eq_false_iff_not, Decidable.not_not] using
        hhead
    rw [hbs, parseFrom, if_neg (by decide)] at h
    obtain ⟨ps, -, rfl⟩ := exists_of_map_eq_ok h
    exact .inr rfl

theorem isSegmented_of_parseFrom {left : Nat} {route : Bytes} {parts : Pattern}
    (h : parseFrom left route = .ok parts) : parts.IsSegmented := by
  fun_induction parseFrom left route generalizing parts with
  | case1 =>
    cases h
    trivial
  | case2 | case3 | case5 => cases h
  | case4 | case6 =>
    rename_i ih
    obtain ⟨ps, hps, rfl⟩ := exists_of_map_eq_ok h
    exact ⟨head?_of_parseFrom hps, ih hps⟩
  | case7 _ _ _ _ ih =>
    obtain ⟨ps, hps, rfl⟩ := exists_of_map_eq_ok h
    exact (ih hps :)

end SealedHttp.Routing
