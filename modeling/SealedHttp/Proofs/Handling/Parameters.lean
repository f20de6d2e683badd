import Mathlib.Data.List.Induction
import Mathlib.Data.List.Nodup
import SealedHttp.Handling.Exchange

/-!
# Query parameters under their names

The parameters of a query are looked up one at a time or all at once. The table of all of them has
each name once, with the values that the query gives to it in their order, so that either way leads
to the same.
-/

namespace SealedHttp

namespace Query

/-- The values that pairs give to a name, in their order. -/
def valuesOf (name : String) (ps : List (String × String)) : List String :=
  (ps.filter (·.1 = name)).map (·.2)

/-- The pairs that a table stands for. -/
def ungrouped (table : List (String × List String)) : List (String × String) :=
  table.flatMap fun entry => entry.2.map (entry.1, ·)

/-- A table has each name that occurs once, with its values. -/
structure IsGrouping (ps : List (String × String)) (table : List (String × List String)) :
    Prop where
  nodup_names : (table.map (·.1)).Nodup
  lookup_eq : ∀ name, table.lookup name =
    if valuesOf name ps = [] then none else some (valuesOf name ps)
  perm : (ungrouped table).Perm ps

variable {ps : List (String × String)} {table : List (String × List String)}

/-! ## Adding a value -/

theorem valuesOf_concat (name other value : String) (ps : List (String × String)) :
    valuesOf other (ps ++ [(name, value)]) =
      if name = other then valuesOf other ps ++ [value] else valuesOf other ps := by
  rw [valuesOf, List.filter_append, List.map_append]
  split
  · next h => simp [valuesOf, h]
  · next h => simp [valuesOf, h]

theorem names_addValue (name value : String) (table : List (String × List String)) :
    (addValue name value table).map (·.1) =
      if name ∈ table.map (·.1) then table.map (·.1) else table.map (·.1) ++ [name] := by
  induction table with
  | nil => rfl
  | cons entry table ih =>
    rw [addValue]
    by_cases h : entry.1 = name
    · simp [h]
    · rw [if_neg h, List.map_cons, ih]
      split <;> simp_all [Ne.symm h]

theorem lookup_addValue (name value other : String) (table : List (String × List String)) :
    (addValue name value table).lookup other =
      if name = other then some ((table.lookup other).getD [] ++ [value])
      else table.lookup other := by
  induction table with
  | nil =>
    by_cases h : name = other
    · simp [addValue, h]
    · simpa [addValue, h] using Ne.symm h
  | cons entry table ih =>
    obtain ⟨n, values⟩ := entry
    by_cases hn : n = name
    · subst hn
      by_cases h : n = other
      · simp [addValue, h]
      · have hne : (other == n) = false := beq_eq_false_iff_ne.mpr (Ne.symm h)
        simp [addValue, List.lookup_cons, h, hne]
    · rw [addValue, if_neg hn, List.lookup_cons, List.lookup_cons, ih]
      by_cases h : n = other
      · have hname : name ≠ other := fun heq => hn (h.trans heq.symm)
        simp [h, hname]
      · have hne : (other == n) = false := beq_eq_false_iff_ne.mpr (Ne.symm h)
        simp [hne]

theorem ungrouped_addValue (name value : String) (table : List (String × List String)) :
    (ungrouped (addValue name value table)).Perm (ungrouped table ++ [(name, value)]) := by
  induction table with
  | nil => exact .refl _
  | cons entry table ih =>
    obtain ⟨n, values⟩ := entry
    by_cases h : n = name
    · -- The new pair stands behind the others of its name and is moved to the end.
      have hentry : ungrouped (addValue name value ((n, values) :: table)) =
          values.map (n, ·) ++ [(name, value)] ++ ungrouped table := by
        simp [ungrouped, addValue, h]
      rw [hentry, List.append_assoc]
      exact (List.perm_append_comm.append_left _).trans (.of_eq (List.append_assoc _ _ _).symm)
    · have hentry : ungrouped (addValue name value ((n, values) :: table)) =
          values.map (n, ·) ++ ungrouped (addValue name value table) := by
        simp [ungrouped, addValue, h]
      rw [hentry]
      exact (ih.append_left _).trans (.of_eq (List.append_assoc _ _ _).symm)

theorem isGrouping_nil : IsGrouping [] [] where
  nodup_names := List.nodup_nil
  lookup_eq _ := rfl
  perm := .refl _

/-- Adding a value groups one more pair. -/
theorem IsGrouping.addValue (h : IsGrouping ps table) (name value : String) :
    IsGrouping (ps ++ [(name, value)]) (addValue name value table) where
  nodup_names := by
    rw [names_addValue]
    split
    · exact h.nodup_names
    · next hnew =>
      rw [← List.concat_eq_append]
      exact h.nodup_names.concat hnew
  lookup_eq other := by
    rw [lookup_addValue, h.lookup_eq, valuesOf_concat]
    split
    · by_cases hnone : valuesOf other ps = [] <;> simp [hnone]
    · rfl
  perm := (ungrouped_addValue name value table).trans (h.perm.append_right _)

theorem isGrouping_foldl (ps : List (String × String)) :
    IsGrouping ps (ps.foldl (fun table p => Query.addValue p.1 p.2 table) []) := by
  induction ps using List.reverseRecOn with
  | nil => exact isGrouping_nil
  | append_singleton ps p ih =>
    rw [List.foldl_append]
    exact ih.addValue p.1 p.2

theorem isGrouping_grouped (query : String) : IsGrouping (pairs query) (grouped query) :=
  isGrouping_foldl (pairs query)

/-! ## Looking names up -/

theorem head?_valuesOf (name : String) (ps : List (String × String)) :
    (valuesOf name ps).head? = (ps.find? (·.1 = name)).map (·.2) := by
  rw [valuesOf, List.head?_map, List.head?_filter]

theorem IsGrouping.find?_eq (h : IsGrouping ps table) (name : String) :
    (ps.find? (·.1 = name)).map (·.2) = (table.lookup name).bind List.head? := by
  rw [← head?_valuesOf, h.lookup_eq]
  split
  · next hnone =>
    rw [hnone]
    rfl
  · rfl

theorem lookup_eq_none_iff_notMem {name : String} :
    table.lookup name = none ↔ name ∉ table.map (·.1) := by
  rw [List.lookup_eq_none_iff, List.mem_map]
  constructor
  · rintro h ⟨entry, hentry, rfl⟩
    exact absurd (h entry hentry) (by simp)
  · intro h entry hentry
    exact bne_iff_ne.mpr fun heq => h ⟨entry, hentry, heq.symm⟩

theorem lookup_of_mem (hnodup : (table.map (·.1)).Nodup) {entry : String × List String}
    (h : entry ∈ table) : table.lookup entry.1 = some entry.2 := by
  obtain ⟨before, behind, rfl⟩ := List.append_of_mem h
  refine List.lookup_eq_some_iff.mpr ⟨before, behind, rfl, fun p hp => bne_iff_ne.mpr ?_⟩
  rw [List.map_append, List.nodup_append] at hnodup
  exact (hnodup.2.2 p.1 (List.mem_map_of_mem hp) entry.1 (by simp)).symm

theorem IsGrouping.values_eq (h : IsGrouping ps table) {entry : String × List String}
    (hentry : entry ∈ table) : entry.2 ≠ [] ∧ entry.2 = valuesOf entry.1 ps := by
  have hlookup := lookup_of_mem h.nodup_names hentry
  rw [h.lookup_eq] at hlookup
  split at hlookup
  · cases hlookup
  · next hne =>
    rw [← Option.some.inj hlookup]
    exact ⟨hne, rfl⟩

theorem IsGrouping.bind_head?_eq_none_iff (h : IsGrouping ps table) {name : String} :
    (table.lookup name).bind List.head? = none ↔ table.lookup name = none := by
  rw [h.lookup_eq]
  split
  · simp
  · next hne => simpa using hne

end Query

namespace Exchange

/-- The pairs that the query of the request consists of, decoded. -/
def queryPairs (e : Exchange) : List (String × String) :=
  ((e.request.bind Request.query).map Query.pairs).getD []

theorem isGrouping_parameters (e : Exchange) : Query.IsGrouping e.queryPairs e.parameters := by
  rw [queryPairs, parameters]
  cases e.request.bind Request.query with
  | none => exact Query.isGrouping_nil
  | some query => exact Query.isGrouping_grouped query

theorem parameter_eq (name : String) (e : Exchange) :
    e.parameter name = ((e.queryPairs.find? (·.1 = name)).map (·.2)).map Text.trim := by
  rw [parameter, queryPairs]
  cases e.request.bind Request.query with
  | none => rfl
  | some query => simp [Function.comp_def]

/-- A single parameter is the first value that the table has under its name, without blanks around
it, and is missing just if the table does not have the name. The table has each name once, and under
it the values of all pairs of that name, in their order. It stands for all pairs and no others. -/
theorem parameter_agrees (e : Exchange) :
    (∀ name, e.parameter name =
        ((e.parameters.lookup name).bind List.head?).map Text.trim ∧
      (e.parameter name = none ↔ name ∉ e.parameters.map (·.1))) ∧
    (e.parameters.map (·.1)).Nodup ∧
    (∀ entry ∈ e.parameters, entry.2 ≠ [] ∧ entry.2 = Query.valuesOf entry.1 e.queryPairs) ∧
    (Query.ungrouped e.parameters).Perm e.queryPairs := by
  have h := e.isGrouping_parameters
  refine ⟨fun name => ?_, h.nodup_names, fun entry hentry => h.values_eq hentry, h.perm⟩
  have hparameter : e.parameter name =
      ((e.parameters.lookup name).bind List.head?).map Text.trim := by
    rw [parameter_eq, h.find?_eq]
  refine ⟨hparameter, ?_⟩
  rw [hparameter, Option.map_eq_none_iff, h.bind_head?_eq_none_iff]
  exact Query.lookup_eq_none_iff_notMem

/-- An exchange whose request has blanks around one of two values of a name, and a name without a
value. -/
def repeatedName : Exchange :=
  configure ⟨{ uri := Request.target "/find?a=%20x+&b&a=y" }, [], "0_1", {}⟩
    { instanceId := 1, typeName := "Find" }

theorem parameter_agrees_repeatedName :
    repeatedName.parameters = [("a", [" x ", "y"]), ("b", [""])] ∧
      repeatedName.parameter "a" = some "x" ∧ repeatedName.parameter "c" = none ∧
      [" x ", "y"] = Query.valuesOf "a" repeatedName.queryPairs := by
  have hparameters : repeatedName.parameters = [("a", [" x ", "y"]), ("b", [""])] := by
    decide +kernel
  obtain ⟨hparameter, -, hvalues, -⟩ := parameter_agrees repeatedName
  rw [hparameters] at hparameter hvalues
  refine ⟨hparameters, ?_, (hparameter "c").2.mpr (by decide),
    (hvalues ("a", [" x ", "y"]) (by decide)).2⟩
  rw [(hparameter "a").1]
  decide

end Exchange
end SealedHttp
