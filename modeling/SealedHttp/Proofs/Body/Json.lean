import SealedHttp.Proofs.Results
import SealedHttp.Proofs.Body.JsonNumbers
import SealedHttp.Proofs.Body.JsonStrings
import SealedHttp.Proofs.Body.Values

/-!
# Reading JSON that was written

A plain value that is not nested too deeply is read back from its JSON. The length of the text is
fuel enough, since every step of the reader has at least one byte of its own.
-/

namespace SealedHttp

namespace Value

/-! ## Items and fields behind the first -/

def moreItems (items : List Value) : Bytes := items.flatMap fun v => 44 :: v.toJson

def fieldJson (f : String × Value) : Bytes :=
  34 :: ((f.1.toList.flatMap jsonChar).flatMap String.utf8EncodeChar ++ 34 :: 58 :: f.2.toJson)

def moreFields (fields : List (String × Value)) : Bytes :=
  fields.flatMap fun f => 44 :: fieldJson f

theorem flatMap_jsonItems (v : Value) (items : List Value) :
    (jsonItems (v :: items)).flatMap String.utf8EncodeChar = v.toJson ++ moreItems items := by
  induction items generalizing v with
  | nil => exact (List.append_nil _).symm
  | cons w items ih =>
    rw [jsonItems, List.flatMap_append, List.flatMap_cons, ih]
    rfl

theorem flatMap_jsonField (name : String) (v : Value) :
    (jsonString name ++ ':' :: jsonChars v).flatMap String.utf8EncodeChar =
      fieldJson (name, v) := by
  rw [jsonString, fieldJson, List.flatMap_append, List.cons_append, List.flatMap_cons,
    List.flatMap_append, List.flatMap_cons]
  simp only [List.append_assoc, List.flatMap_cons, List.flatMap_nil]
  rfl

theorem flatMap_jsonFields (f : String × Value) (fields : List (String × Value)) :
    (jsonFields (f :: fields)).flatMap String.utf8EncodeChar = fieldJson f ++ moreFields fields := by
  induction fields generalizing f with
  | nil =>
    rw [jsonFields, flatMap_jsonField]
    exact (List.append_nil _).symm
  | cons g fields ih =>
    rw [jsonFields, List.flatMap_append, List.flatMap_cons, ih, flatMap_jsonField]
    rfl

theorem toJson_array (v : Value) (items : List Value) :
    (array (v :: items)).toJson = 91 :: (v.toJson ++ (moreItems items ++ [93])) := by
  rw [toJson, jsonChars, List.flatMap_append, List.flatMap_cons, flatMap_jsonItems]
  simp only [List.append_assoc]
  rfl

theorem toJson_object (f : String × Value) (fields : List (String × Value)) :
    (object (f :: fields)).toJson = 123 :: (fieldJson f ++ (moreFields fields ++ [125])) := by
  rw [toJson, jsonChars, List.flatMap_append, List.flatMap_cons, flatMap_jsonFields]
  simp only [List.append_assoc]
  rfl

theorem toJson_text (s : String) :
    (text s).toJson =
      34 :: ((s.toList.flatMap jsonChar).flatMap String.utf8EncodeChar ++ [34]) := by
  rw [toJson, jsonChars, jsonString, List.flatMap_append, List.flatMap_cons]
  rfl

open Json in
theorem toJson_ofNat (n : Nat) : (int (.ofNat n)).toJson = digitBytes (Nat.toDigits 10 n) := by
  have htext : (toString (Int.ofNat n)).toList = Nat.toDigits 10 n := by
    change (toString n).toList = _
    rw [Nat.toString_eq_repr, Nat.toList_repr]
  rw [toJson, jsonChars, htext, flatMap_of_isDigit fun _ => Decimal.isDigit_of_mem_toDigits]

open Json in
theorem toJson_negSucc (n : Nat) :
    (int (.negSucc n)).toJson = 45 :: digitBytes (Nat.toDigits 10 (n + 1)) := by
  have htext : (toString (Int.negSucc n)).toList = '-' :: Nat.toDigits 10 (n + 1) := by
    change ("-" ++ toString (n + 1)).toList = _
    rw [String.toList_append, Nat.toString_eq_repr, Nat.toList_repr]
    rfl
  rw [toJson, jsonChars, htext, List.flatMap_cons,
    flatMap_of_isDigit fun _ => Decimal.isDigit_of_mem_toDigits]
  rfl

end Value

namespace Json

open Value

/-! ## What a written value begins with -/

/-- Bytes that are no blanks, nor the end of a list. -/
def Begins (b : UInt8) : Prop := b ≠ 32 ∧ b ≠ 10 ∧ b ≠ 9 ∧ b ≠ 13 ∧ b ≠ 93

instance (b : UInt8) : Decidable (Begins b) := inferInstanceAs (Decidable (_ ∧ _))

theorem skipBlanks_of_begins {b : UInt8} (h : Begins b) (bs : Bytes) :
    skipBlanks (b :: bs) = b :: bs := by
  obtain ⟨hspace, hfeed, htab, hreturn, -⟩ := h
  apply List.dropWhile_cons_of_neg
  simp [hspace, hfeed, htab, hreturn]

theorem begins_of_isSome_digit? {b : UInt8} (h : (digit? b).isSome = true) : Begins b := by
  refine ⟨?_, ?_, ?_, ?_, ?_⟩ <;> rintro rfl <;> cases h

/-- A written number begins with a digit. -/
theorem exists_digitBytes (n : Nat) :
    ∃ b bs, digitBytes (Nat.toDigits 10 n) = b :: bs ∧ (digit? b).isSome = true := by
  cases hn : Nat.toDigits 10 n with
  | nil => exact absurd hn Nat.toDigits_ne_nil
  | cons c cs =>
    have hc : c.isDigit := Decimal.isDigit_of_mem_toDigits (hn ▸ List.mem_cons_self)
    refine ⟨UInt8.ofNat c.toNat, digitBytes cs, rfl, ?_⟩
    rw [digit?_ofNat hc]
    rfl

theorem exists_toJson {v : Value} (h : v.IsPlain) : ∃ b bs, v.toJson = b :: bs ∧ Begins b := by
  cases v with
  | null => exact ⟨110, _, rfl, by decide⟩
  | bool b => cases b <;> exact ⟨_, _, rfl, by decide⟩
  | int n =>
    cases n with
    | ofNat n =>
      obtain ⟨b, bs, hbs, hb⟩ := exists_digitBytes n
      exact ⟨b, bs, (toJson_ofNat n).trans hbs, begins_of_isSome_digit? hb⟩
    | negSucc n => exact ⟨45, _, toJson_negSucc n, by decide⟩
  | double => cases h
  | text s => exact ⟨34, _, toJson_text s, by decide⟩
  | array items => exact ⟨91, _, rfl, by decide⟩
  | object fields => exact ⟨123, _, rfl, by decide⟩

/-! ## Steps of the reader -/

section Steps

variable {fuel depth : Nat} {rest : Bytes}

theorem value_digit {b : UInt8} (hb : (digit? b).isSome = true) (bs : Bytes) :
    value (fuel + 1) depth (b :: bs) = number false (b :: bs) := by
  have hne : b ≠ 110 ∧ b ≠ 116 ∧ b ≠ 102 ∧ b ≠ 45 := by
    refine ⟨?_, ?_, ?_, ?_⟩ <;> rintro rfl <;> cases hb
  rw [value, skipBlanks_of_begins (begins_of_isSome_digit? hb)]
  dsimp only
  rw [if_neg hne.1, if_neg hne.2.1, if_neg hne.2.2.1, if_neg hne.2.2.2, if_pos hb]

theorem value_int {n : Int} (h : (int n).IsPlain) (hrest : Ends rest) :
    value (fuel + 1) depth ((int n).toJson ++ rest) = .ok (.int n, rest) := by
  obtain ⟨hlow, hhigh⟩ := h
  cases n with
  | ofNat n =>
    obtain ⟨b, bs, hbs, hb⟩ := exists_digitBytes n
    have hnumber := number_toDigits (Int.ofNat_le.mp hhigh) hrest false
    rw [toJson_ofNat, hbs, List.cons_append, value_digit hb, ← List.cons_append, ← hbs, hnumber,
      tail_of_ends hrest]
    rfl
  | negSucc n =>
    have hle : n + 1 ≤ 0x8000000000000000 := by omega
    have hnumber := number_toDigits (Nat.le_trans hle (by decide)) hrest true
    have hint : ¬(n + 1 = 0 ∨ 0x8000000000000000 < n + 1) := by omega
    rw [toJson_negSucc]
    change number true (digitBytes (Nat.toDigits 10 (n + 1)) ++ rest) = _
    rw [hnumber, tail_of_ends hrest, if_neg (by decide), if_neg hint]
    rfl

theorem value_quote (bs : Bytes) :
    value (fuel + 1) depth (34 :: bs) = (string bs).map fun (s, rest) => (.text s, rest) := rfl

theorem value_bracket (hdepth : 1 < depth) (bs : Bytes) :
    value (fuel + 1) depth (91 :: bs) = items fuel (depth - 1) true [] bs := by
  change (if depth ≤ 1 then _ else _) = _
  rw [if_neg (Nat.not_le.mpr hdepth)]

theorem value_brace (hdepth : 1 < depth) (bs : Bytes) :
    value (fuel + 1) depth (123 :: bs) = fields fuel (depth - 1) true [] bs := by
  change (if depth ≤ 1 then _ else _) = _
  rw [if_neg (Nat.not_le.mpr hdepth)]

/-- The name of a written field, behind its opening quote. -/
theorem name_append (f : String × Value) :
    name ((f.1.toList.flatMap jsonChar).flatMap String.utf8EncodeChar ++
      34 :: 58 :: (f.2.toJson ++ rest)) = .ok (f.1, f.2.toJson ++ rest) := by
  rw [name, bind_of_ok (string_jsonString f.1 _)]
  rfl

theorem ends_moreItems (items : List Value) : Ends (moreItems items ++ 93 :: rest) := by
  cases items <;> rintro b ⟨⟩ <;> simp

theorem ends_moreFields (fields : List (String × Value)) :
    Ends (moreFields fields ++ 125 :: rest) := by
  cases fields <;> rintro b ⟨⟩ <;> simp

theorem nextItem_of_begins {b : UInt8} (hb : Begins b) (bs : Bytes) :
    nextItem true (b :: bs) = .ok (some (b :: bs)) := by
  rw [nextItem, skipBlanks_of_begins hb]
  dsimp only
  rw [if_neg hb.2.2.2.2, if_pos rfl]

theorem nextItem_comma {b : UInt8} (hb : Begins b) (bs : Bytes) :
    nextItem false (44 :: b :: bs) = .ok (some (b :: bs)) := by
  have hcomma : skipBlanks (44 :: b :: bs) = 44 :: b :: bs := rfl
  rw [nextItem, hcomma]
  dsimp only
  rw [if_neg (by decide), if_neg (by decide), if_pos rfl, skipBlanks_of_begins hb]
  dsimp only
  rw [if_neg hb.2.2.2.2]

theorem nextName_first (f : String × Value) (rest : Bytes) :
    nextName true (fieldJson f ++ rest) =
      .ok (some ((f.1.toList.flatMap jsonChar).flatMap String.utf8EncodeChar ++
        34 :: 58 :: (f.2.toJson ++ rest))) := by
  rw [fieldJson, List.cons_append, List.append_assoc]
  rfl

theorem nextName_moreFields (f : String × Value) (fs : List (String × Value)) (rest : Bytes) :
    nextName false (moreFields (f :: fs) ++ rest) =
      .ok (some ((f.1.toList.flatMap jsonChar).flatMap String.utf8EncodeChar ++
        34 :: 58 :: (f.2.toJson ++ (moreFields fs ++ rest)))) := by
  rw [moreFields, List.flatMap_cons, List.cons_append, List.cons_append, List.append_assoc,
    fieldJson, List.cons_append, List.append_assoc]
  rfl

theorem items_step {first : Bool} {done : List Value} {bs bs' : Bytes} {v : Value}
    (hnext : nextItem first bs = .ok (some bs')) (hvalue : value fuel depth bs' = .ok (v, rest)) :
    items (fuel + 1) depth first done bs = items fuel depth false (v :: done) rest := by
  rw [items, hnext]
  dsimp only
  rw [hvalue]

theorem fields_step {first : Bool} {done : List (String × Value)} {bs bs' behind : Bytes}
    {n : String} {v : Value} (hnext : nextName first bs = .ok (some bs'))
    (hname : name bs' = .ok (n, behind)) (hvalue : value fuel depth behind = .ok (v, rest)) :
    fields (fuel + 1) depth first done bs = fields fuel depth false ((n, v) :: done) rest := by
  rw [fields, hnext]
  dsimp only
  rw [hname]
  dsimp only
  rw [hvalue]

end Steps

theorem length_moreItems (v : Value) (vs : List Value) :
    (moreItems (v :: vs)).length = v.toJson.length + (moreItems vs).length + 1 := by
  rw [moreItems, List.flatMap_cons, List.cons_append, List.length_cons, List.length_append]
  rfl

theorem length_toJson_lt (f : String × Value) : f.2.toJson.length < (fieldJson f).length := by
  simp only [fieldJson, List.length_cons, List.length_append]
  omega

theorem length_moreFields (f : String × Value) (fs : List (String × Value)) :
    (moreFields (f :: fs)).length = (fieldJson f).length + (moreFields fs).length + 1 := by
  rw [moreFields, List.flatMap_cons, List.cons_append, List.length_cons, List.length_append]
  rfl

/-! ## Values, items and fields

By induction on the value. What is behind a value has to end it, or the digits of a number would go
on; within a list this is a comma or a bracket.
-/

mutual

theorem value_toJson : ∀ {v : Value}, v.IsPlain → ∀ {fuel depth : Nat} {rest : Bytes},
    v.depth < depth → v.toJson.length ≤ fuel → Ends rest →
      value fuel depth (v.toJson ++ rest) = .ok (v, rest)
  | v, hplain, 0, depth, rest, _, hfuel, _ => by
    obtain ⟨b, bs, hbs, -⟩ := exists_toJson hplain
    rw [hbs] at hfuel
    cases hfuel
  | .null, _, _ + 1, _, _, _, _, _ => rfl
  | .bool true, _, _ + 1, _, _, _, _, _ => rfl
  | .bool false, _, _ + 1, _, _, _, _, _ => rfl
  | .int _, hplain, _ + 1, _, _, _, _, hrest => value_int hplain hrest
  | .text s, _, _ + 1, _, rest, _, _, _ => by
    rw [toJson_text, List.cons_append, List.append_assoc, List.singleton_append, value_quote,
      string_jsonString]
    rfl
  | .array [], _, 1, depth, rest, hdepth, hfuel, _ => absurd hfuel (by decide)
  | .array [], _, fuel + 2, depth, rest, hdepth, _, _ => by
    change value (fuel + 2) depth (91 :: 93 :: rest) = _
    rw [value_bracket (Nat.lt_of_le_of_lt (Nat.le_add_left 1 _) hdepth)]
    rfl
  | .array (v :: vs), ⟨hv, hvs⟩, fuel + 1, depth, rest, hdepth, hfuel, _ => by
    obtain ⟨b, bs, hbs, hb⟩ := exists_toJson hv
    have hlength : 1 ≤ v.toJson.length := by
      rw [hbs]
      exact Nat.succ_pos _
    rw [depth_array, itemsDepth] at hdepth
    rw [toJson_array] at hfuel ⊢
    simp only [List.length_cons, List.length_append, List.length_nil] at hfuel
    obtain ⟨fuel, rfl⟩ : ∃ m, fuel = m + 1 := ⟨fuel - 1, by omega⟩
    simp only [List.cons_append, List.append_assoc, List.nil_append]
    rw [value_bracket (by omega)]
    have hnext : nextItem true (v.toJson ++ (moreItems vs ++ 93 :: rest)) =
        .ok (some (v.toJson ++ (moreItems vs ++ 93 :: rest))) := by
      rw [hbs]
      exact nextItem_of_begins hb _
    rw [items_step hnext (value_toJson hv (by omega) (by omega) (ends_moreItems vs)),
      items_moreItems hvs (by omega) (by omega)]
    rfl
  | .object [], _, 1, depth, rest, hdepth, hfuel, _ => absurd hfuel (by decide)
  | .object [], _, fuel + 2, depth, rest, hdepth, _, _ => by
    change value (fuel + 2) depth (123 :: 125 :: rest) = _
    rw [value_brace (Nat.lt_of_le_of_lt (Nat.le_add_left 1 _) hdepth)]
    rfl
  | .object (f :: fs), ⟨hsorted, hv, hvs⟩, fuel + 1, depth, rest, hdepth, hfuel, _ => by
    have hlength := length_toJson_lt f
    rw [depth_object, fieldsDepth] at hdepth
    rw [toJson_object] at hfuel ⊢
    simp only [List.length_cons, List.length_append, List.length_nil] at hfuel
    obtain ⟨fuel, rfl⟩ : ∃ m, fuel = m + 1 := ⟨fuel - 1, by omega⟩
    simp only [List.cons_append, List.append_assoc, List.nil_append]
    have hfields : ofFields ([(f.1, f.2)].reverse ++ fs) = object (f :: fs) :=
      ofFields_of_pairwise hsorted
    rw [value_brace (by omega), fields_step (nextName_first f _) (name_append f)
      (value_toJson hv (by omega) (by omega) (ends_moreFields fs)),
      fields_moreFields hvs (by omega) (by omega), hfields]

theorem items_moreItems : ∀ {vs : List Value}, ItemsArePlain vs →
    ∀ {fuel depth : Nat} {done : List Value} {rest : Bytes}, itemsDepth vs < depth →
      (moreItems vs).length < fuel →
      items fuel depth false done (moreItems vs ++ 93 :: rest) =
        .ok (.array (done.reverse ++ vs), rest)
  | _, _, 0, _, _, _, _, hfuel => absurd hfuel (Nat.not_lt_zero _)
  | [], _, fuel + 1, depth, done, rest, _, _ => by
    rw [List.append_nil]
    rfl
  | v :: vs, ⟨hv, hvs⟩, fuel + 1, depth, done, rest, hdepth, hfuel => by
    obtain ⟨b, bs, hbs, hb⟩ := exists_toJson hv
    rw [itemsDepth] at hdepth
    rw [length_moreItems] at hfuel
    have hnext : nextItem false (moreItems (v :: vs) ++ 93 :: rest) =
        .ok (some (v.toJson ++ (moreItems vs ++ 93 :: rest))) := by
      rw [moreItems, List.flatMap_cons, List.cons_append, List.cons_append, List.append_assoc, hbs]
      exact nextItem_comma hb _
    rw [items_step hnext (value_toJson hv (by omega) (by omega) (ends_moreItems vs)),
      items_moreItems hvs (by omega) (by omega), List.reverse_cons, List.append_assoc]
    rfl

theorem fields_moreFields : ∀ {fs : List (String × Value)}, FieldsArePlain fs →
    ∀ {fuel depth : Nat} {done : List (String × Value)} {rest : Bytes}, fieldsDepth fs < depth →
      (moreFields fs).length < fuel →
      fields fuel depth false done (moreFields fs ++ 125 :: rest) =
        .ok (ofFields (done.reverse ++ fs), rest)
  | _, _, 0, _, _, _, _, hfuel => absurd hfuel (Nat.not_lt_zero _)
  | [], _, fuel + 1, depth, done, rest, _, _ => by
    rw [List.append_nil]
    rfl
  | f :: fs, ⟨hv, hvs⟩, fuel + 1, depth, done, rest, hdepth, hfuel => by
    have hlength := length_toJson_lt f
    rw [fieldsDepth] at hdepth
    rw [length_moreFields] at hfuel
    rw [fields_step (nextName_moreFields f fs _) (name_append f)
      (value_toJson hv (by omega) (by omega) (ends_moreFields fs)),
      fields_moreFields hvs (by omega) (by omega), List.reverse_cons, List.append_assoc]
    rfl

end

theorem read_any {v : Value} (hplain : v.IsPlain) (hdepth : v.depth < 128) :
    read .any v.toJson = .ok v := by
  have hvalue : value (2 * v.toJson.length + 2) maxDepth (v.toJson ++ []) = .ok (v, []) :=
    value_toJson hplain hdepth (by omega) nofun
  rw [List.append_nil] at hvalue
  unfold read shaped
  dsimp only
  rw [hvalue]
  rfl

/-! ## Maps of small integers -/

section Counts

variable {rest : Bytes}

/-- A written integer is not taken for an array or an object. -/
theorem exists_toJson_int (n : Int) :
    ∃ b bs, (int n).toJson = b :: bs ∧ Begins b ∧ ¬(b = 91 ∨ b = 123) := by
  cases n with
  | ofNat n =>
    obtain ⟨b, bs, hbs, hb⟩ := exists_digitBytes n
    refine ⟨b, bs, (toJson_ofNat n).trans hbs, begins_of_isSome_digit? hb, ?_⟩
    rintro (rfl | rfl) <;> cases hb
  | negSucc n => exact ⟨45, _, toJson_negSucc n, by decide, by decide⟩

theorem smallInteger_toJson {n : Int} (hn : isSmallInteger n = true) (hrest : Ends rest) :
    smallInteger ((int n).toJson ++ rest) = .ok (.int n, rest) := by
  obtain ⟨b, bs, hbs, hb, hne⟩ := exists_toJson_int n
  have hvalue : value 2 maxDepth ((int n).toJson ++ rest) = .ok (.int n, rest) :=
    value_int (isPlain_int hn) hrest
  rw [hbs, List.cons_append] at hvalue ⊢
  unfold smallInteger
  rw [skipBlanks_of_begins hb]
  dsimp only
  rw [if_neg hne, bind_of_ok hvalue]
  exact if_pos hn

theorem smallIntegers_brace (bs : Bytes) :
    smallIntegers (123 :: bs) = smallFields (bs.length + 1) true [] bs := rfl

theorem smallFields_step {fuel : Nat} {first : Bool} {done : List (String × Value)}
    {bs bs' behind : Bytes} {n : String} {v : Value} (hnext : nextName first bs = .ok (some bs'))
    (hname : name bs' = .ok (n, behind)) (hvalue : smallInteger behind = .ok (v, rest)) :
    smallFields (fuel + 1) first done bs = smallFields fuel false ((n, v) :: done) rest := by
  rw [smallFields, hnext]
  dsimp only
  rw [hname]
  dsimp only
  rw [hvalue]

theorem smallFields_moreFields {counts : List (String × Int)}
    (h : ∀ count ∈ counts, isSmallInteger count.2 = true) {fuel : Nat}
    {done : List (String × Value)} (hfuel : (moreFields (countFields counts)).length < fuel) :
    smallFields fuel false done (moreFields (countFields counts) ++ 125 :: rest) =
      .ok (ofFields (done.reverse ++ countFields counts), rest) := by
  induction counts generalizing fuel done with
  | nil =>
    obtain ⟨fuel, rfl⟩ : ∃ m, fuel = m + 1 := ⟨fuel - 1, by omega⟩
    rw [countFields, List.map_nil, List.append_nil]
    rfl
  | cons count counts ih =>
    obtain ⟨fuel, rfl⟩ : ∃ m, fuel = m + 1 := ⟨fuel - 1, by omega⟩
    rw [countFields_cons] at hfuel ⊢
    rw [length_moreFields] at hfuel
    have hcount := h count List.mem_cons_self
    rw [smallFields_step (nextName_moreFields _ _ _) (name_append _)
      (smallInteger_toJson hcount (ends_moreFields _))]
    rw [ih (fun c hc => h c (List.mem_cons_of_mem _ hc)) (by omega), List.reverse_cons,
      List.append_assoc]
    rfl

end Counts

theorem read_smallIntegers {counts : List (String × Int)}
    (hsorted : counts.Pairwise fun c d => c.1 < d.1)
    (h : ∀ count ∈ counts, isSmallInteger count.2 = true) :
    read .smallIntegers (object (countFields counts)).toJson =
      .ok (object (countFields counts)) := by
  cases counts with
  | nil => rfl
  | cons count counts =>
    have hcount := h count List.mem_cons_self
    have hmore : ∀ c ∈ counts, isSmallInteger c.2 = true :=
      fun c hc => h c (List.mem_cons_of_mem _ hc)
    have hread : smallIntegers (object (countFields (count :: counts))).toJson =
        .ok (object (countFields (count :: counts)), []) := by
      have hjson : (object (countFields (count :: counts))).toJson =
          123 :: (fieldJson (count.1, int count.2) ++ (moreFields (countFields counts) ++ [125])) :=
        toJson_object _ _
      rw [hjson, smallIntegers_brace, smallFields_step (nextName_first _ _) (name_append _)
        (smallInteger_toJson hcount (ends_moreFields _)), smallFields_moreFields hmore]
      · exact congrArg (fun v => Except.ok (v, [])) (ofFields_countFields hsorted)
      · simp only [List.length_append, List.length_singleton]
        omega
    unfold read shaped
    dsimp only
    rw [hread]
    rfl

end Json
end SealedHttp
