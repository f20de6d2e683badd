import SealedHttp.Proofs.Body.CborHeads
import SealedHttp.Proofs.Body.Values

/-!
# Reading CBOR that was written

A plain value is read back from its CBOR, unless an object in it begins with a name that is too long
for a first name. Then the whole value is refused.
-/

namespace SealedHttp

namespace Value

/-- Fields that begin with a name beyond the limit for first names. -/
def startLong : List (String × Value) → Bool
  | [] => false
  | (name, _) :: _ => decide (Cbor.maxFirstName < (Bytes.ofText name).length)

mutual

/-- Whether an object at any depth begins with a name beyond the limit. -/
def hasLongFirstName : Value → Bool
  | array items => itemsHaveLongFirstName items
  | object fields => startLong fields || fieldsHaveLongFirstName fields
  | _ => false

def itemsHaveLongFirstName : List Value → Bool
  | [] => false
  | v :: rest => v.hasLongFirstName || itemsHaveLongFirstName rest

def fieldsHaveLongFirstName : List (String × Value) → Bool
  | [] => false
  | (_, v) :: rest => v.hasLongFirstName || fieldsHaveLongFirstName rest

end

/-! ## Lengths -/

theorem length_cborString (s : String) : (Bytes.ofText s).length < (cborString s).length := by
  have hpos : 0 < (Cbor.write 3 (Bytes.ofText s).length).length := Cbor.length_write_pos
  rw [cborString, List.length_append]
  omega

theorem length_toCbor_pos (v : Value) (h : v.IsPlain) : 0 < v.toCbor.length := by
  cases v with
  | null => exact Nat.one_pos
  | bool b => cases b <;> exact Nat.one_pos
  | int n => cases n <;> exact Cbor.length_write_pos
  | double d => cases h
  | text s => exact Nat.zero_lt_of_lt (length_cborString s)
  | array items =>
    rw [toCbor, List.length_append]
    exact Nat.add_pos_left Cbor.length_write_pos _
  | object fields =>
    rw [toCbor, List.length_append]
    exact Nat.add_pos_left Cbor.length_write_pos _

theorem length_le_cborItems : ∀ {items : List Value}, ItemsArePlain items →
    items.length ≤ (cborItems items).length
  | [], _ => Nat.zero_le _
  | v :: rest, ⟨hv, hrest⟩ => by
    have hpos := length_toCbor_pos v hv
    have hle := length_le_cborItems hrest
    rw [cborItems, List.length_cons, List.length_append]
    omega

theorem length_cborFields_cons (f : String × Value) (rest : List (String × Value)) :
    (cborFields (f :: rest)).length =
      (cborString f.1).length + f.2.toCbor.length + (cborFields rest).length := by
  rw [cborFields, List.length_append, List.length_append]

theorem length_le_cborFields (fields : List (String × Value)) :
    fields.length ≤ (cborFields fields).length := by
  induction fields with
  | nil => exact Nat.zero_le _
  | cons f fields ih =>
    have hname := length_cborString f.1
    rw [length_cborFields_cons, List.length_cons]
    omega

end Value

namespace Cbor

open Value

/-- The answer to a value, which is refused when a first name in it is `long`. -/
def unlessLong (long : Bool) (p : Value × Bytes) : Except Fault (Value × Bytes) :=
  if long then .error (.mismatch "string" "str") else .ok p

section Steps

variable {total fuel depth : Nat} {rest : Bytes}

theorem head_positive {n : Nat} (hn : n < 0x10000000000000000) :
    head total (write 0 n ++ rest) = .ok (.positive n, rest) :=
  head_write (by decide) hn fun a ha => by rw [ofArgument?, ha]; rfl

theorem head_negative {n : Nat} (hn : n < 0x10000000000000000) :
    head total (write 1 n ++ rest) = .ok (.negative n, rest) :=
  head_write (by decide) hn fun a ha => by rw [ofArgument?, ha]; rfl

theorem head_array {n : Nat} (hn : n < 0x10000000000000000) :
    head total (write 4 n ++ rest) = .ok (.array (some n), rest) :=
  head_write (by decide) hn fun a ha => by rw [ofArgument?, ha]

theorem head_map {n : Nat} (hn : n < 0x10000000000000000) :
    head total (write 5 n ++ rest) = .ok (.map (some n), rest) :=
  head_write (by decide) hn fun a ha => by rw [ofArgument?, ha]

theorem value_int {n : Int} (h : (int n).IsPlain) :
    value total (fuel + 1) depth (cborInt n ++ rest) = .ok (.int n, rest) := by
  obtain ⟨hlow, hhigh⟩ := h
  cases n with
  | ofNat n =>
    have hn : n ≤ 0xFFFFFFFFFFFFFFFF := Int.ofNat_le.mp hhigh
    rw [cborInt, value, head_positive (Nat.lt_succ_of_le hn)]
    rfl
  | negSucc n =>
    have hn : n < 0x8000000000000000 := by omega
    rw [cborInt, value, head_negative (Nat.lt_trans hn (by decide))]
    dsimp only
    rw [if_pos hn, show (-1 - (n : Int)) = .negSucc n by omega]

theorem value_text {s : String} (hs : (Bytes.ofText s).length < 0x10000000000000000) :
    value total (fuel + 1) depth (cborString s ++ rest) = .ok (.text s, rest) := by
  rw [value, head_text hs]
  dsimp only
  rw [text_ofText]
  rfl

theorem value_array {n : Nat} (hn : n < 0x10000000000000000) (hdepth : 0 < depth) (bs : Bytes) :
    value total (fuel + 1) depth (write 4 n ++ bs) =
      items total fuel (depth - 1) (some n) [] bs := by
  rw [value, head_array hn]
  dsimp only
  rw [if_neg (Nat.ne_of_gt hdepth)]

theorem value_object {n : Nat} (hn : n < 0x10000000000000000) (hdepth : 0 < depth) (bs : Bytes) :
    value total (fuel + 1) depth (write 5 n ++ bs) =
      fields total fuel (depth - 1) (some n) true [] bs := by
  rw [value, head_map hn]
  dsimp only
  rw [if_neg (Nat.ne_of_gt hdepth)]

theorem more_succ (n : Nat) (bs : Bytes) : more total (some (n + 1)) bs = .ok (true, bs) := rfl

theorem items_step {v : Value} {long : Bool} {n : Nat} {done : List Value} {bs : Bytes}
    (hvalue : value total fuel depth bs = unlessLong long (v, rest)) :
    items total (fuel + 1) depth (some (n + 1)) done bs =
      if long then .error (.mismatch "string" "str")
      else items total fuel depth (some n) (v :: done) rest := by
  rw [items, more_succ]
  dsimp only
  rw [hvalue]
  cases long <;> rfl

theorem fields_step {s : String} {v : Value} {first long : Bool} {n : Nat}
    {done : List (String × Value)} {bs : Bytes}
    (hname : (Bytes.ofText s).length < 0x10000000000000000)
    (hvalue : value total fuel depth bs = unlessLong long (v, rest)) :
    fields total (fuel + 1) depth (some (n + 1)) first done (cborString s ++ bs) =
      if (first && startLong [(s, v)]) || long then .error (.mismatch "string" "str")
      else fields total fuel depth (some n) false ((s, v) :: done) rest := by
  rw [fields, more_succ]
  dsimp only
  rw [name_cborString first hname]
  rw [startLong]
  cases first && decide (maxFirstName < (Bytes.ofText s).length) with
  | true => rfl
  | false =>
    rw [if_neg Bool.false_ne_true]
    dsimp only
    rw [hvalue]
    cases long <;> rfl

end Steps

variable {total : Nat}

/-! ## Values, items and fields

By induction on the value, with any bytes behind it. An item takes a step of the list and a step of
its own, and has a byte at least, so twice the length is fuel enough. One refusal is carried to the
top by every list on the way, whichever object it comes from.
-/

mutual

theorem value_toCbor : ∀ {v : Value}, v.IsPlain → ∀ {fuel depth : Nat} {rest : Bytes},
    v.depth ≤ depth → v.toCbor.length < 0x10000000000000000 → 2 * v.toCbor.length ≤ fuel →
      value total fuel depth (v.toCbor ++ rest) = unlessLong v.hasLongFirstName (v, rest)
  | v, hplain, 0, depth, rest, _, _, hfuel => by
    have hpos := length_toCbor_pos v hplain
    omega
  | .null, _, _ + 1, _, _, _, _, _ => rfl
  | .bool true, _, _ + 1, _, _, _, _, _ => rfl
  | .bool false, _, _ + 1, _, _, _, _, _ => rfl
  | .int _, hplain, _ + 1, _, _, _, _, _ => value_int hplain
  | .text s, _, _ + 1, _, _, _, hsize, _ => value_text (Nat.lt_trans (length_cborString s) hsize)
  | .array vs, hplain, fuel + 1, depth, rest, hdepth, hsize, hfuel => by
    have hvs : ItemsArePlain vs := hplain
    have hpos : 0 < (write 4 vs.length).length := length_write_pos
    have hcount := length_le_cborItems hvs
    rw [depth_array] at hdepth
    rw [toCbor, List.length_append] at hsize hfuel
    rw [toCbor, List.append_assoc, value_array (by omega) (by omega),
      items_cborItems hvs (by omega) (by omega) (by omega)]
    rfl
  | .object fs, ⟨hsorted, hfs⟩, fuel + 1, depth, rest, hdepth, hsize, hfuel => by
    have hpos : 0 < (write 5 fs.length).length := length_write_pos
    have hcount := length_le_cborFields fs
    have hfields : ofFields ([].reverse ++ fs) = object fs := ofFields_of_pairwise hsorted
    rw [depth_object] at hdepth
    rw [toCbor, List.length_append] at hsize hfuel
    rw [toCbor, List.append_assoc, value_object (by omega) (by omega),
      fields_cborFields hfs (by omega) (by omega) (by omega), hfields]
    rfl

theorem items_cborItems : ∀ {vs : List Value}, ItemsArePlain vs →
    ∀ {fuel depth : Nat} {done : List Value} {rest : Bytes}, itemsDepth vs ≤ depth →
      (cborItems vs).length < 0x10000000000000000 → 2 * (cborItems vs).length < fuel →
      items total fuel depth (some vs.length) done (cborItems vs ++ rest) =
        unlessLong (itemsHaveLongFirstName vs) (.array (done.reverse ++ vs), rest)
  | _, _, 0, _, _, _, _, _, hfuel => absurd hfuel (Nat.not_lt_zero _)
  | [], _, fuel + 1, depth, done, rest, _, _, _ => by
    rw [List.append_nil]
    rfl
  | v :: vs, ⟨hv, hvs⟩, fuel + 1, depth, done, rest, hdepth, hsize, hfuel => by
    have hpos := length_toCbor_pos v hv
    rw [itemsDepth] at hdepth
    rw [cborItems, List.length_append] at hsize hfuel
    rw [cborItems, List.append_assoc, List.length_cons, itemsHaveLongFirstName,
      items_step (value_toCbor hv (by omega) (by omega) (by omega))]
    cases v.hasLongFirstName with
    | true => rfl
    | false =>
      rw [if_neg Bool.false_ne_true, items_cborItems hvs (by omega) (by omega) (by omega),
        List.reverse_cons, List.append_assoc]
      rfl

theorem fields_cborFields : ∀ {fs : List (String × Value)}, FieldsArePlain fs →
    ∀ {fuel depth : Nat} {first : Bool} {done : List (String × Value)} {rest : Bytes},
      fieldsDepth fs ≤ depth → (cborFields fs).length < 0x10000000000000000 →
      2 * (cborFields fs).length < fuel →
      fields total fuel depth (some fs.length) first done (cborFields fs ++ rest) =
        unlessLong ((first && startLong fs) || fieldsHaveLongFirstName fs)
          (ofFields (done.reverse ++ fs), rest)
  | _, _, 0, _, _, _, _, _, _, hfuel => absurd hfuel (Nat.not_lt_zero _)
  | [], _, fuel + 1, depth, first, done, rest, _, _, _ => by
    cases first <;> rw [List.append_nil] <;> rfl
  | f :: fs, ⟨hf, hfs⟩, fuel + 1, depth, first, done, rest, hdepth, hsize, hfuel => by
    -- only the name that is read with `first` set counts, so the rest is read without it
    have hname := length_cborString f.1
    rw [fieldsDepth] at hdepth
    rw [length_cborFields_cons] at hsize hfuel
    rw [cborFields, List.append_assoc, List.append_assoc, List.length_cons,
      fields_step (by omega) (value_toCbor hf (by omega) (by omega) (by omega)),
      fields_cborFields hfs (by omega) (by omega) (by omega), fieldsHaveLongFirstName,
      List.reverse_cons, List.append_assoc, ← Bool.or_assoc]
    change (if (first && startLong (f :: fs)) || f.2.hasLongFirstName then _ else _) = _
    cases (first && startLong (f :: fs)) || f.2.hasLongFirstName <;> rfl

end

theorem read_any {v : Value} (hplain : v.IsPlain) (hdepth : v.depth < 128)
    (hsize : v.toCbor.length < 0x10000000000000000) :
    read .any v.toCbor =
      if v.hasLongFirstName then .error (.mismatch "string" "str") else .ok v := by
  have hvalue : value v.toCbor.length (2 * v.toCbor.length + 2) maxDepth (v.toCbor ++ []) =
      unlessLong v.hasLongFirstName (v, []) :=
    value_toCbor hplain (Nat.le_trans (Nat.le_of_lt hdepth) (by decide)) hsize (by omega)
  rw [List.append_nil] at hvalue
  rw [read, hvalue]
  cases v.hasLongFirstName <;> rfl

/-! ## Maps of small integers -/

section Counts

theorem smallInteger_toCbor {n : Int} (hn : isSmallInteger n = true) (rest : Bytes) :
    smallInteger total ((int n).toCbor ++ rest) = .ok (.int n, rest) := by
  obtain ⟨hlow, hhigh⟩ := isPlain_int hn
  rw [toCbor]
  cases n with
  | ofNat n =>
    have hle : n ≤ 0xFFFFFFFFFFFFFFFF := Int.ofNat_le.mp hhigh
    have hhead : head total (write 0 n ++ rest) = .ok (.positive n, rest) :=
      head_positive (Nat.lt_succ_of_le hle)
    rw [cborInt, smallInteger, bind_of_ok (untagged_of_head hhead nofun)]
    exact if_pos hn
  | negSucc n =>
    have hhead : head total (write 1 n ++ rest) = .ok (.negative n, rest) :=
      head_negative (by omega)
    rw [cborInt, smallInteger, bind_of_ok (untagged_of_head hhead nofun)]
    dsimp only
    rw [show (-1 - (n : Int)) = .negSucc n by omega]
    exact if_pos hn

theorem smallIntegers_map {n : Nat} (hn : n < 0x10000000000000000) (bs : Bytes) :
    smallIntegers (write 5 n ++ bs) =
      smallFields (write 5 n ++ bs).length ((write 5 n ++ bs).length + 1) (some n) [] bs := by
  rw [smallIntegers, bind_of_ok (untagged_of_head (head_map hn) nofun)]

theorem smallFields_step {fuel n : Nat} {s : String} {v : Value} {done : List (String × Value)}
    {bs rest : Bytes} (hname : (Bytes.ofText s).length < 0x10000000000000000)
    (hvalue : smallInteger total bs = .ok (v, rest)) :
    smallFields total (fuel + 1) (some (n + 1)) done (cborString s ++ bs) =
      smallFields total fuel (some n) ((s, v) :: done) rest := by
  rw [smallFields, more_succ]
  dsimp only
  rw [name_cborString false hname, Bool.false_and, if_neg Bool.false_ne_true]
  dsimp only
  rw [hvalue]
  rfl

theorem smallFields_cborFields {counts : List (String × Int)}
    (h : ∀ count ∈ counts, isSmallInteger count.2 = true) {fuel : Nat}
    {done : List (String × Value)}
    (hsize : (cborFields (countFields counts)).length < 0x10000000000000000)
    (hfuel : (cborFields (countFields counts)).length < fuel) :
    smallFields total fuel (some counts.length) done (cborFields (countFields counts)) =
      .ok (ofFields (done.reverse ++ countFields counts)) := by
  induction counts generalizing fuel done with
  | nil =>
    obtain ⟨fuel, rfl⟩ : ∃ m, fuel = m + 1 := ⟨fuel - 1, by omega⟩
    rw [countFields, List.map_nil, List.append_nil]
    rfl
  | cons count counts ih =>
    obtain ⟨fuel, rfl⟩ : ∃ m, fuel = m + 1 := ⟨fuel - 1, by omega⟩
    have hname := length_cborString count.1
    have hcount := h count List.mem_cons_self
    rw [countFields_cons] at hsize hfuel ⊢
    rw [length_cborFields_cons] at hsize hfuel
    dsimp only at hsize hfuel
    rw [cborFields, List.append_assoc, List.length_cons,
      smallFields_step (by omega) (smallInteger_toCbor hcount _)]
    rw [ih (fun c hc => h c (List.mem_cons_of_mem _ hc)) (by omega) (by omega), List.reverse_cons,
      List.append_assoc]
    rfl

end Counts

theorem read_smallIntegers {counts : List (String × Int)}
    (hsorted : counts.Pairwise fun c d => c.1 < d.1)
    (h : ∀ count ∈ counts, isSmallInteger count.2 = true)
    (hsize : (object (countFields counts)).toCbor.length < 0x10000000000000000) :
    read .smallIntegers (object (countFields counts)).toCbor =
      .ok (object (countFields counts)) := by
  have hlength : (countFields counts).length = counts.length := List.length_map _
  have hle := length_le_cborFields (countFields counts)
  rw [toCbor] at hsize ⊢
  rw [List.length_append] at hsize
  rw [hlength] at hsize ⊢
  rw [read, smallIntegers_map (by omega)]
  refine (smallFields_cborFields h (by omega) ?_).trans ?_
  · rw [List.length_append]
    omega
  · exact congrArg Except.ok (ofFields_countFields hsorted)

end Cbor
end SealedHttp
