import Mathlib.Data.List.Basic
import Mathlib.Data.List.Infix
import SealedHttp.Body.Kind

/-!
# Content types read back

A content type that was made of a kind and a charset is read as the two, provided the charset holds
no separator. Separators are only left out, so that a parameter behind the charset becomes part of
it.
-/

namespace SealedHttp

namespace Text

/-- A search succeeds just if there is something to find. -/
theorem isSome_after?_iff {pat cs : List Char} : (after? pat cs).isSome ↔ pat <:+: cs := by
  induction cs with
  | nil => cases pat <;> simp [after?]
  | cons c cs ih =>
    rw [after?, List.infix_cons_iff, ← List.isPrefixOf_iff_prefix]
    split
    · next hstart => simp [hstart]
    · next hstart => simp [hstart, ih]

/-- What stands in front of the first `last` is not longer than what stands in front of another. -/
theorem length_le_of_append_cons_eq {front front' back back' : List Char} {last : Char}
    (hfront : last ∉ front) (h : front ++ last :: back = front' ++ last :: back') :
    front.length ≤ front'.length := by
  rcases List.append_eq_append_iff.mp h with ⟨rest, rfl, -⟩ | ⟨rest, rfl, hrest⟩
  · simp
  · cases rest with
    | nil => simp
    | cons c rest =>
      obtain ⟨rfl, -⟩ := List.cons.inj hrest
      simp at hfront

/-- A mark is found at its first place, which its last character tells. -/
theorem after?_append {front mark : List Char} {last : Char} (hfront : last ∉ front)
    (hmark : last ∉ mark) (back : List Char) :
    after? (mark ++ [last]) (front ++ (mark ++ last :: back)) = some back := by
  induction front with
  | nil =>
    have hhere : mark ++ last :: back = (mark ++ [last]) ++ back := by simp
    rw [List.nil_append, hhere]
    rcases hcs : (mark ++ [last]) ++ back with _ | ⟨c, cs⟩
    · simp at hcs
    · rw [after?, ← hcs, if_pos (List.isPrefixOf_iff_prefix.mpr (List.prefix_append _ _)),
        List.drop_left]
  | cons c front ih =>
    have hlater : ¬(mark ++ [last]).isPrefixOf (c :: (front ++ (mark ++ last :: back))) := by
      rw [List.isPrefixOf_iff_prefix]
      rintro ⟨rest, hrest⟩
      have heq : (c :: front ++ mark) ++ last :: back = mark ++ last :: rest := by
        simpa using hrest.symm
      have hle := length_le_of_append_cons_eq (List.not_mem_append hfront hmark) heq
      simp only [List.length_append, List.length_cons] at hle
      omega
    rw [List.cons_append, after?, if_neg hlater]
    exact ih fun hmem => hfront (List.mem_cons_of_mem c hmem)

theorem eq_slash_of_toLower {c : Char} (h : c.toLower = '/') : c = '/' := by
  by_cases hupper : 'A'.val ≤ c.val ∧ c.val ≤ 'Z'.val
  · have hlower : c.toLower.toNat = (c.val + ('a'.val - 'A'.val)).toNat :=
      congrArg Char.toNat (dif_pos hupper)
    have hadd : (c.val + ('a'.val - 'A'.val)).toNat = (c.val.toNat + 32) % 2 ^ 32 :=
      UInt32.toNat_add _ _
    rw [h, hadd, show '/'.toNat = 47 from rfl] at hlower
    rw [UInt32.le_iff_toNat_le, UInt32.le_iff_toNat_le] at hupper
    have hA : 'A'.val.toNat = 65 := rfl
    have hZ : 'Z'.val.toNat = 90 := rfl
    omega
  · have hlower : c.toLower = c := dif_neg hupper
    rwa [hlower] at h

end Text

namespace BodyKind

/-! ## Kinds -/

/-- What stands in front of the slash of a media type. -/
def family : BodyKind → List Char
  | plain => "text".toList
  | _ => "application".toList

/-- What stands behind it. -/
def format : BodyKind → List Char
  | plain => "plain".toList
  | binary => "binary".toList
  | json => "json".toList
  | cbor => "cbor".toList

theorem toList_mime (k : BodyKind) : k.mime.toList = k.family ++ '/' :: k.format := by
  cases k <;> rfl

theorem eq_of_head?_format {k k' : BodyKind} (h : k'.format.head? = k.format.head?) : k' = k := by
  cases k <;> cases k' <;> first | rfl | exact absurd h (by decide)

/-- Around a single slash there is at most one media type, which the letter behind it tells. -/
theorem mime_infix_iff {k k' : BodyKind} {rest : List Char} (hrest : '/' ∉ rest) :
    k'.mime.toList <:+: k.mime.toList ++ rest ↔ k' = k := by
  constructor
  · rintro ⟨before, after, h⟩
    have hone : '/' ∉ k.family ∧ '/' ∉ k.format := by cases k <;> decide
    have hsplit : k.family ++ '/' :: (k.format ++ rest) =
        (before ++ k'.family) ++ '/' :: (k'.format ++ after) := by
      simpa [toList_mime] using h.symm
    rw [List.append_cons_inj_of_notMem hone.1 (List.not_mem_append hone.2 hrest)] at hsplit
    have hhead := congrArg List.head? hsplit.2.2
    rw [List.head?_append_of_ne_nil _ (by cases k <;> decide),
      List.head?_append_of_ne_nil _ (by cases k' <;> decide)] at hhead
    exact eq_of_head?_format hhead.symm
  · rintro rfl
    exact (List.prefix_append _ _).isInfix

theorem classify_append (k : BodyKind) {rest : List Char} (hrest : '/' ∉ rest) :
    classify (k.mime.toList ++ rest) = k := by
  have hnames : ∀ k' : BodyKind, (Text.after? k'.mime.toList (k.mime.toList ++ rest)).isSome =
      decide (k' = k) := by
    intro k'
    rw [Bool.eq_iff_iff, Text.isSome_after?_iff, mime_infix_iff hrest, decide_eq_true_iff]
  simp only [classify, hnames]
  cases k <;> rfl

/-! ## Charsets -/

/-- The characters that are left out of a charset. -/
def separators : List Char := ['=', '/', '"', ';', Char.ofNat 0x27, ' ']

/-- A text of at least one character, none of them a separator. -/
structure IsBare (s : String) : Prop where
  ne_empty : s ≠ ""
  notMem : ∀ c ∈ s.toList, c ∉ separators

instance (s : String) : Decidable (IsBare s) :=
  haveI : Decidable (∀ c ∈ s.toList, c ∉ separators) := List.decidableBAll _ s.toList
  decidable_of_iff (s ≠ "" ∧ ∀ c ∈ s.toList, c ∉ separators)
    ⟨fun ⟨hne, hall⟩ => ⟨hne, hall⟩, fun hs => ⟨hs.ne_empty, hs.notMem⟩⟩

theorem isSeparator_iff {c : Char} : isSeparator c = true ↔ c ∈ separators := by
  simp [isSeparator, separators, or_assoc]

/-- A text without its separators. -/
def bare (s : String) : String := String.ofList (s.toList.filter (!isSeparator ·))

theorem toList_bare (s : String) : (bare s).toList = s.toList.filter (!isSeparator ·) :=
  String.toList_ofList

theorem IsBare.bare_eq {s : String} (h : IsBare s) : bare s = s := by
  have hall : s.toList.filter (!isSeparator ·) = s.toList := by
    rw [List.filter_eq_self]
    intro c hc
    rw [Bool.not_eq_true', Bool.eq_false_iff, ne_eq, isSeparator_iff]
    exact h.notMem c hc
  rw [bare, hall, String.ofList_toList]

theorem isBare_bare {s : String} (hne : bare s ≠ "") : IsBare (bare s) where
  ne_empty := hne
  notMem c hc := by
    rw [toList_bare, List.mem_filter, Bool.not_eq_true', Bool.eq_false_iff, ne_eq,
      isSeparator_iff] at hc
    exact hc.2

theorem isBare_defaultCharset (k : BodyKind) : IsBare k.defaultCharset := by
  cases k <;> decide

/-- What a charset comes to: nothing if it consists of separators alone. -/
def charset? (s : String) : Option String := if bare s = "" then none else some (bare s)

theorem IsBare.charset?_eq {s : String} (h : IsBare s) : charset? s = some s := by
  rw [charset?, h.bare_eq, if_neg h.ne_empty]

theorem isBare_of_charset? {s c : String} (h : charset? s = some c) : IsBare c := by
  rw [charset?] at h
  split at h
  · cases h
  · next hne =>
    cases h
    exact isBare_bare hne

theorem charset?_eq (s : String) :
    charset? s =
      ((some (s.toList.filter (!isSeparator ·))).filter (!·.isEmpty)).map String.ofList := by
  rw [charset?, Option.filter_some]
  cases h : s.toList.filter (!isSeparator ·) <;> simp [bare, h]

/-- A charset is made of the end of a content type that is behind the mark. -/
theorem exists_of_parse {s c : String} (h : (parse s).2 = some c) :
    ∃ behind : String, behind.toList <:+ s.toList ∧ charset? behind = some c := by
  simp only [parse] at h
  cases hafter : Text.after? charsetMark (s.toList.map Char.toLower) with
  | none =>
    rw [hafter] at h
    cases h
  | some rest =>
    refine ⟨String.ofList (s.toList.drop (s.toList.length - rest.length)), ?_, ?_⟩
    · rw [String.toList_ofList]
      exact List.drop_suffix _ _
    · rw [charset?_eq, String.toList_ofList, ← h, hafter, Option.map_some]

theorem isBare_of_parse {s c : String} (h : (parse s).2 = some c) : IsBare c := by
  obtain ⟨_, -, hbehind⟩ := exists_of_parse h
  exact isBare_of_charset? hbehind

/-- A charset holds no character that the content type does not hold. -/
theorem mem_of_parse {s c : String} (h : (parse s).2 = some c) :
    ∀ x ∈ c.toList, x ∈ s.toList := by
  obtain ⟨behind, hsuffix, hbehind⟩ := exists_of_parse h
  intro x hx
  rw [charset?] at hbehind
  split at hbehind
  · cases hbehind
  · cases hbehind
    rw [toList_bare] at hx
    exact hsuffix.subset (List.mem_filter.mp hx).1

/-- The first part of a content type, up to the mark of the charset. -/
def opening (k : BodyKind) : List Char := k.mime.toList ++ [';', ' ']

theorem toList_headerValue (k : BodyKind) (s : String) :
    (k.headerValue s).toList = k.opening ++ (charsetMark ++ s.toList) := by
  have hmark : "; charset=".toList = [';', ' '] ++ charsetMark := rfl
  rw [headerValue, String.toList_append, String.toList_append, hmark, opening]
  simp only [List.append_assoc]

theorem lower_headerValue (k : BodyKind) (s : String) :
    (k.headerValue s).toList.map Char.toLower =
      k.opening ++ (charsetMark ++ s.toList.map Char.toLower) := by
  have hopening : k.opening.map Char.toLower = k.opening := by cases k <;> rfl
  have hmark : charsetMark.map Char.toLower = charsetMark := rfl
  rw [toList_headerValue, List.map_append, List.map_append, hopening, hmark]

/-- A content type is read as its kind and what its charset comes to. -/
theorem parse_headerValue (k : BodyKind) {s : String} (hslash : '/' ∉ s.toList) :
    parse (k.headerValue s) = (k, charset? s) := by
  have hclassify : classify ((k.headerValue s).toList.map Char.toLower) = k := by
    rw [lower_headerValue, opening, List.append_assoc]
    refine classify_append k (List.not_mem_append (by decide) (List.not_mem_append (by decide) ?_))
    intro hmem
    obtain ⟨c, hc, hlower⟩ := List.mem_map.mp hmem
    exact hslash (Text.eq_slash_of_toLower hlower ▸ hc)
  have hafter : Text.after? charsetMark ((k.headerValue s).toList.map Char.toLower) =
      some (s.toList.map Char.toLower) := by
    rw [lower_headerValue]
    have hopening : '=' ∉ k.opening := by cases k <;> decide
    exact Text.after?_append hopening (by decide : '=' ∉ "charset".toList) _
  have hbehind : (k.headerValue s).toList.drop
      ((k.headerValue s).toList.length - (s.toList.map Char.toLower).length) = s.toList := by
    rw [toList_headerValue, ← List.append_assoc, List.length_append, List.length_map,
      Nat.add_sub_cancel, List.drop_left]
  simp only [parse, hclassify, hafter, Option.map_some, hbehind, charset?_eq]

theorem IsBare.parse_headerValue {s : String} (h : IsBare s) (k : BodyKind) :
    parse (k.headerValue s) = (k, some s) := by
  rw [BodyKind.parse_headerValue k fun hmem => h.notMem _ hmem (by decide), h.charset?_eq]

theorem parse_headerValue_eq_iff {k : BodyKind} {s : String} :
    parse (k.headerValue s) = (k, some s) ↔ IsBare s :=
  ⟨fun h => isBare_of_parse (congrArg Prod.snd h), fun h => h.parse_headerValue k⟩

/-- A charset that is missing is taken to be the usual one of the kind. -/
theorem isBare_getD_of_parse {s : String} {k : BodyKind} {c : Option String}
    (h : parse s = (k, c)) : IsBare (c.getD k.defaultCharset) := by
  cases c with
  | none => exact isBare_defaultCharset k
  | some c => exact isBare_of_parse (congrArg Prod.snd h)

/-! ## Further parameters -/

/-- Parameters as they follow a charset. -/
def parameterText : List (String × String) → String
  | [] => ""
  | (name, value) :: ps => "; " ++ name ++ "=" ++ value ++ parameterText ps

/-- Names and values, one right behind the other. -/
def runTogether : List (String × String) → String
  | [] => ""
  | (name, value) :: ps => name ++ value ++ runTogether ps

@[simp] theorem bare_append (s t : String) : bare (s ++ t) = bare s ++ bare t := by
  rw [bare, String.toList_append, List.filter_append, String.ofList_append]
  rfl

variable {ps : List (String × String)}

theorem bare_parameterText (hps : ∀ p ∈ ps, IsBare p.1 ∧ IsBare p.2) :
    bare (parameterText ps) = runTogether ps := by
  induction ps with
  | nil => rfl
  | cons p ps ih =>
    rw [List.forall_mem_cons] at hps
    obtain ⟨⟨hname, hvalue⟩, hps⟩ := hps
    have hgap : bare "; " = "" := by decide
    have hequals : bare "=" = "" := by decide
    simp only [parameterText, bare_append, hgap, hequals, hname.bare_eq, hvalue.bare_eq, ih hps,
      String.empty_append, String.append_empty, runTogether]

theorem slash_notMem_parameterText (hps : ∀ p ∈ ps, IsBare p.1 ∧ IsBare p.2) :
    '/' ∉ (parameterText ps).toList := by
  induction ps with
  | nil => simp [parameterText]
  | cons p ps ih =>
    rw [List.forall_mem_cons] at hps
    obtain ⟨⟨hname, hvalue⟩, hps⟩ := hps
    have hslash : '/' ∈ separators := by decide
    have hname' : '/' ∉ p.1.toList := fun h => hname.notMem _ h hslash
    have hvalue' : '/' ∉ p.2.toList := fun h => hvalue.notMem _ h hslash
    simp [parameterText, hname', hvalue', ih hps]

theorem runTogether_eq_empty_iff (hps : ∀ p ∈ ps, IsBare p.1 ∧ IsBare p.2) :
    runTogether ps = "" ↔ ps = [] := by
  cases ps with
  | nil => simp [runTogether]
  | cons p ps =>
    have hname := (hps p List.mem_cons_self).1.ne_empty
    simp [runTogether, String.append_eq_empty_iff, hname]

/-- Names and values of all parameters behind a charset become part of it. It is read as it was
written just if there is none. -/
theorem parse_headerValue_parameterText (k : BodyKind) {charset : String}
    (hcharset : IsBare charset) (hps : ∀ p ∈ ps, IsBare p.1 ∧ IsBare p.2) :
    parse (k.headerValue charset ++ parameterText ps) = (k, some (charset ++ runTogether ps)) ∧
      (parse (k.headerValue charset ++ parameterText ps) = (k, some charset) ↔ ps = []) := by
  have hread : parse (k.headerValue charset ++ parameterText ps) =
      (k, some (charset ++ runTogether ps)) := by
    have hjoined : k.headerValue charset ++ parameterText ps =
        k.headerValue (charset ++ parameterText ps) := by
      simp only [headerValue, String.append_assoc]
    have hslash : '/' ∉ (charset ++ parameterText ps).toList := by
      rw [String.toList_append]
      exact List.not_mem_append (fun h => hcharset.notMem _ h (by decide))
        (slash_notMem_parameterText hps)
    have hne : charset ++ runTogether ps ≠ "" :=
      fun h => hcharset.ne_empty (String.append_eq_empty_iff.mp h).1
    rw [hjoined, parse_headerValue k hslash, charset?, bare_append, hcharset.bare_eq,
      bare_parameterText hps, if_neg hne]
  refine ⟨hread, ?_⟩
  rw [hread, ← runTogether_eq_empty_iff hps, Prod.mk.injEq, Option.some.injEq, and_iff_right rfl,
    ← String.toList_inj, String.toList_append, List.append_right_eq_self, String.toList_eq_nil_iff]

theorem parse_headerValue_parameterText_delsp :
    parse (plain.headerValue "utf-8" ++ parameterText [("format", "flowed"), ("delsp", "yes")]) =
        (plain, some "utf-8formatfloweddelspyes") ∧
      parse (plain.headerValue "utf-8" ++ parameterText []) = (plain, some "utf-8") := by
  have hcharset : IsBare "utf-8" := by decide
  refine ⟨(parse_headerValue_parameterText plain hcharset ?_).1,
    (parse_headerValue_parameterText plain hcharset (List.forall_mem_nil _)).2.mpr rfl⟩
  simp only [List.forall_mem_cons]
  exact ⟨by decide, by decide, List.forall_mem_nil _⟩

/-- One further parameter is enough for another charset. -/
theorem parse_formatFlowed :
    parse "text/plain; charset=utf-8; format=flowed" = (plain, some "utf-8formatflowed") ∧
      parse "text/plain; charset=utf-8; format=flowed" ≠ (plain, some "utf-8") := by
  decide +kernel

end BodyKind
end SealedHttp
