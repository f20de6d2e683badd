import SealedHttp.Message.Request
import SealedHttp.Proofs.Header.Fields

/-!
# Options of a connection

The `Connection` lines of a request that are text count as one list, their entries separated by
commas. It does not matter how the entries are spread over the lines, nor in which order they come.
-/

namespace SealedHttp

namespace Text

theorem splitOn_ne_nil (sep : Char) (cs : List Char) : splitOn sep cs ≠ [] := by
  cases cs with
  | nil => exact List.cons_ne_nil _ _
  | cons c cs =>
    rw [splitOn]
    split
    · exact List.cons_ne_nil _ _
    · split <;> exact List.cons_ne_nil _ _

theorem splitOn_cons_self (sep : Char) (cs : List Char) :
    splitOn sep (sep :: cs) = [] :: splitOn sep cs := by
  rw [splitOn]
  split
  · next hnil => exact absurd hnil (splitOn_ne_nil sep cs)
  · next hcons => rw [if_pos rfl, hcons]

theorem splitOn_cons_of_ne {sep c : Char} (hc : c ≠ sep) {cs piece : List Char}
    {pieces : List (List Char)} (h : splitOn sep cs = piece :: pieces) :
    splitOn sep (c :: cs) = (c :: piece) :: pieces := by
  rw [splitOn, h]
  exact if_neg hc

/-- A separator ends one piece and begins the next. -/
theorem splitOn_append_cons (sep : Char) (cs ds : List Char) :
    splitOn sep (cs ++ sep :: ds) = splitOn sep cs ++ splitOn sep ds := by
  induction cs with
  | nil => exact splitOn_cons_self sep ds
  | cons c cs ih =>
    rw [List.cons_append]
    by_cases hc : c = sep
    · rw [hc, splitOn_cons_self, splitOn_cons_self, ih, List.cons_append]
    · obtain ⟨piece, pieces, hpieces⟩ := List.exists_cons_of_ne_nil (splitOn_ne_nil sep cs)
      rw [hpieces, List.cons_append] at ih
      rw [splitOn_cons_of_ne hc ih, splitOn_cons_of_ne hc hpieces, List.cons_append]

theorem splitOn_intercalate (sep : Char) {lines : List (List Char)} (hlines : lines ≠ []) :
    splitOn sep (List.intercalate [sep] lines) = lines.flatMap (splitOn sep) := by
  induction lines with
  | nil => exact absurd rfl hlines
  | cons line lines ih =>
    cases lines with
    | nil => rw [List.intercalate_singleton, List.flatMap_singleton]
    | cons other lines =>
      rw [List.intercalate_cons_cons, List.append_assoc, List.singleton_append,
        splitOn_append_cons, ih (List.cons_ne_nil _ _), ← List.flatMap_cons]

end Text

namespace Request

/-- Whether one of the entries is this name, in any case and with blanks around it. -/
def Names (entries : List (List Char)) (name : String) : Prop :=
  ∃ entry ∈ entries, (Text.trimList entry).map Char.toLower = name.toList.map Char.toLower

/-- All `Connection` lines that are text, with commas between them. -/
def connectionList (r : Request) : List Char :=
  List.intercalate [',']
    (((r.headers.values HeaderName.connection).filterMap Headers.text?).map String.toList)

/-- Old connections are kept when that is asked for, later ones unless closing is. -/
def AsksToPersist (r : Request) : Prop :=
  match r.version with
  | .http09 | .http10 => Names (Text.splitOn ',' r.connectionList) "keep-alive"
  | .http11 | .http2 | .http3 => ¬Names (Text.splitOn ',' r.connectionList) "close"

/-- The entries of lines, one line after the other. -/
def entries (lines : List Bytes) : List (List Char) :=
  (lines.filterMap Headers.text?).flatMap fun line => Text.splitOn ',' line.toList

theorem hasOption_iff_names_entries (r : Request) (name : String) :
    r.hasOption name = true ↔ Names (entries (r.headers.values HeaderName.connection)) name := by
  simp only [hasOption, connectionOptions, List.any_flatMap, List.any_eq_true, List.mem_map,
    Text.eqIgnoreCase, beq_iff_eq, Names, entries, List.mem_flatMap, String.toList_ofList]
  constructor
  · rintro ⟨line, hline, _, ⟨entry, hentry, rfl⟩, heq⟩
    exact ⟨entry, ⟨line, hline, hentry⟩, heq⟩
  · rintro ⟨entry, ⟨line, hline, hentry⟩, heq⟩
    exact ⟨line, hline, _, ⟨entry, hentry, rfl⟩, heq⟩

theorem hasOption_iff (r : Request) {name : String} (hname : name.toList ≠ []) :
    r.hasOption name = true ↔ Names (Text.splitOn ',' r.connectionList) name := by
  rw [hasOption_iff_names_entries]
  by_cases hlines : (r.headers.values HeaderName.connection).filterMap Headers.text? = []
  · -- Without lines the list has one entry, which is empty.
    rw [entries, connectionList, hlines]
    constructor
    · rintro ⟨_, hentry, -⟩
      exact absurd hentry List.not_mem_nil
    · rintro ⟨entry, hentry, heq⟩
      cases List.mem_singleton.mp hentry
      exact absurd (List.map_eq_nil_iff.mp heq.symm) hname
  · have hmap : ((r.headers.values HeaderName.connection).filterMap Headers.text?).map
        String.toList ≠ [] := fun hnil => hlines (List.map_eq_nil_iff.mp hnil)
    rw [entries, connectionList, Text.splitOn_intercalate ',' hmap, List.flatMap_map]

theorem wantsKeepAlive_iff (r : Request) : r.wantsKeepAlive = true ↔ r.AsksToPersist := by
  have hkeep : r.hasOption "keep-alive" = true ↔ _ := r.hasOption_iff (by simp)
  have hclose : r.hasOption "close" = true ↔ _ := r.hasOption_iff (by simp)
  rw [wantsKeepAlive, AsksToPersist]
  cases r.version with
  | http09 | http10 => exact hkeep
  | http11 | http2 | http3 =>
    change (!r.hasOption "close") = true ↔ _
    rw [Bool.not_eq_true', Bool.eq_false_iff, ← hclose]

/-! ## The same entries on other lines -/

/-- Lines that are put into another order, split at commas or joined with commas. A line that is not
text can only be moved. -/
inductive Rearranged : List Bytes → List Bytes → Prop
  | perm {lines lines' : List Bytes} (h : lines.Perm lines') : Rearranged lines lines'
  | split (before after : List Bytes) {x y : Bytes} (hx : x.all Text.isVisible)
      (hy : y.all Text.isVisible) :
      Rearranged (before ++ (x ++ 44 :: y) :: after) (before ++ x :: y :: after)
  | symm {lines lines' : List Bytes} (h : Rearranged lines lines') : Rearranged lines' lines
  | trans {lines lines' lines'' : List Bytes} (h : Rearranged lines lines')
      (h' : Rearranged lines' lines'') : Rearranged lines lines''

theorem entries_append (lines lines' : List Bytes) :
    entries (lines ++ lines') = entries lines ++ entries lines' := by
  rw [entries, List.filterMap_append, List.flatMap_append, entries, entries]

theorem entries_cons {line : Bytes} (hline : line.all Text.isVisible) (lines : List Bytes) :
    entries (line :: lines) =
      Text.splitOn ',' (line.map fun b => Char.ofNat b.toNat) ++ entries lines := by
  have htext : Headers.text? line = some (String.ofList (line.map fun b => Char.ofNat b.toNat)) :=
    if_pos hline
  rw [entries, List.filterMap_cons_some htext, List.flatMap_cons, String.toList_ofList, entries]

theorem Rearranged.perm_entries {lines lines' : List Bytes} (h : Rearranged lines lines') :
    (entries lines).Perm (entries lines') := by
  induction h with
  | perm h => exact (h.filterMap _).flatMap_right _
  | @split before after x y hx hy =>
    have hall : (x ++ 44 :: y).all Text.isVisible := by
      rw [List.all_append, List.all_cons, hx, hy]
      rfl
    have hcomma : (x ++ 44 :: y).map (fun b => Char.ofNat b.toNat) =
        x.map (fun b => Char.ofNat b.toNat) ++ ',' :: y.map (fun b => Char.ofNat b.toNat) := by
      rw [List.map_append, List.map_cons]
      rfl
    rw [entries_append, entries_append, entries_cons hall, entries_cons hx, entries_cons hy, hcomma,
      Text.splitOn_append_cons, List.append_assoc]
  | symm _ ih => exact ih.symm
  | trans _ _ ih ih' => exact ih.trans ih'

theorem Rearranged.wantsKeepAlive_eq {r r' : Request} (hversion : r.version = r'.version)
    (h : Rearranged (r.headers.values HeaderName.connection)
      (r'.headers.values HeaderName.connection)) : r.wantsKeepAlive = r'.wantsKeepAlive := by
  have hoption (name : String) : r.hasOption name = r'.hasOption name := by
    rw [Bool.eq_iff_iff, hasOption_iff_names_entries, hasOption_iff_names_entries]
    simp only [Names, h.perm_entries.mem_iff]
  rw [wantsKeepAlive, wantsKeepAlive, hversion, hoption, hoption]

end Request
end SealedHttp
