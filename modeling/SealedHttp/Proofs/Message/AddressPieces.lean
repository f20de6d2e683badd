import Mathlib.Tactic.Ring
import SealedHttp.Message.Address
import SealedHttp.Proofs.Text.Decimal
import SealedHttp.Proofs.Text.Trimming

/-!
# Pieces of addresses

Each reader of a piece of an address takes exactly what the piece is written as and leaves what
follows, as long as that could not belong to the piece. What a reader gives is within the width of
the piece. Hexadecimal digits are never taken for an IPv4 address, so that a list of groups is read
group by group up to its end or the gap.
-/

namespace SealedHttp.Address

variable {cs rest : List Char}

@[simp] theorem char_self (c : Char) (rest : List Char) : char c (c :: rest) = some ((), rest) :=
  if_pos rfl

theorem char_of_ne {c d : Char} (h : c ≠ d) (rest : List Char) : char c (d :: rest) = none :=
  if_neg h

theorem takeWhile_of_head {p : Char → Bool} (h : ∀ c ∈ cs.head?, p c = false) :
    cs.takeWhile p = [] := by
  cases cs with
  | nil => rfl
  | cons c cs => rw [List.takeWhile_cons_of_neg]; simp [h c rfl]

theorem takeWhile_append_of_head {p : Char → Bool} (hcs : ∀ c ∈ cs, p c)
    (hrest : ∀ c ∈ rest.head?, p c = false) : (cs ++ rest).takeWhile p = cs := by
  rw [List.takeWhile_append_of_pos hcs, takeWhile_of_head hrest, List.append_nil]

theorem dropWhile_append_of_head {p : Char → Bool} (hcs : ∀ c ∈ cs, p c)
    (hrest : ∀ c ∈ rest.head?, p c = false) : (cs ++ rest).dropWhile p = rest := by
  rw [List.dropWhile_append_of_pos hcs, Text.dropWhile_of_head hrest]

/-! ## Decimal numbers -/

theorem decimal_toDigits {max n : Nat} (zeros : Bool) (hn : n ≤ max)
    (hrest : ∀ c ∈ rest.head?, c.isDigit = false) :
    decimal max zeros (Nat.toDigits 10 n ++ rest) = some (n, rest) := by
  have hdigits : ∀ c ∈ Nat.toDigits 10 n, c.isDigit := fun _ => Decimal.isDigit_of_mem_toDigits
  have hshort : ¬((!zeros && (Nat.toDigits 10 n).head? = some '0' &&
      1 < (Nat.toDigits 10 n).length) = true) := by
    intro hzero
    simp only [Bool.and_eq_true, decide_eq_true_eq] at hzero
    obtain ⟨⟨-, hhead⟩, hlong⟩ := hzero
    rw [Decimal.eq_zero_of_head?_toDigits hhead] at hlong
    exact absurd hlong (by decide)
  rw [decimal]
  simp only [takeWhile_append_of_head hdigits hrest, dropWhile_append_of_head hdigits hrest]
  rw [if_neg hshort, Decimal.read?_of_isNumeral (Decimal.isNumeral_toDigits n) hn]
  rfl

theorem of_decimal {max n : Nat} {zeros : Bool} (h : decimal max zeros cs = some (n, rest)) :
    n ≤ max ∧ rest = cs.dropWhile Char.isDigit := by
  rw [decimal] at h
  split at h
  · cases h
  · obtain ⟨m, hm, heq⟩ := Option.map_eq_some_iff.mp h
    cases heq
    exact ⟨(Decimal.read?_eq_some_iff.mp hm).2, rfl⟩

/-! ## Four numbers -/

/-- Four numbers with dots between them. -/
def dotted (a b c d : Nat) : List Char :=
  Nat.toDigits 10 a ++ '.' :: (Nat.toDigits 10 b ++ '.' :: (Nat.toDigits 10 c ++
    '.' :: Nat.toDigits 10 d))

theorem ipv4_dotted {a b c d : Nat} (ha : a ≤ 255) (hb : b ≤ 255) (hc : c ≤ 255) (hd : d ≤ 255)
    (hrest : ∀ c ∈ rest.head?, c.isDigit = false) :
    ipv4 (dotted a b c d ++ rest) = some ((a, b, c, d), rest) := by
  have hdot : ∀ tail : List Char, ∀ c ∈ ('.' :: tail).head?, c.isDigit = false := by
    rintro tail c hc
    cases hc
    rfl
  simp only [dotted, List.append_assoc, List.cons_append]
  simp only [ipv4, decimal_toDigits false ha (hdot _), decimal_toDigits false hb (hdot _),
    decimal_toDigits false hc (hdot _), decimal_toDigits false hd hrest, char_self,
    Option.bind_eq_bind, Option.bind_some]

theorem ipv4_eq_none (h : ∀ c ∈ (cs.dropWhile Char.isDigit).head?, c ≠ '.') : ipv4 cs = none := by
  rw [ipv4]
  rcases hfirst : decimal 255 false cs with _ | ⟨n, tail⟩
  · rfl
  · obtain ⟨-, rfl⟩ := of_decimal hfirst
    have hdot : char '.' (cs.dropWhile Char.isDigit) = none := by
      rcases hdrop : cs.dropWhile Char.isDigit with _ | ⟨c, tail⟩
      · rfl
      · exact char_of_ne (h c (by rw [hdrop]; rfl)).symm tail
    simp only [Option.bind_eq_bind, Option.bind_some, hdot, Option.bind_none]

theorem of_ipv4 {a b c d : Nat} (h : ipv4 cs = some ((a, b, c, d), rest)) :
    a ≤ 255 ∧ b ≤ 255 ∧ c ≤ 255 ∧ d ≤ 255 := by
  simp only [ipv4, Option.bind_eq_bind, Option.bind_eq_some_iff, Prod.exists] at h
  obtain ⟨_, _, ha, -, _, -, _, _, hb, -, _, -, _, _, hc, -, _, -, _, _, hd, heq⟩ := h
  cases heq
  exact ⟨(of_decimal ha).1, (of_decimal hb).1, (of_decimal hc).1, (of_decimal hd).1⟩

/-- A port stands last. -/
theorem port_toDigits {p : Nat} (hp : p ≤ 65535) :
    port (':' :: Nat.toDigits 10 p) = some (p, []) := by
  have hread : decimal 65535 true (Nat.toDigits 10 p ++ []) = some (p, []) :=
    decimal_toDigits true hp nofun
  rw [List.append_nil] at hread
  simp only [port, char_self, Option.bind_eq_bind, Option.bind_some, hread]

theorem of_port {p : Nat} (h : port cs = some (p, rest)) : p ≤ 65535 := by
  obtain ⟨⟨_, cs⟩, -, hp⟩ := Option.bind_eq_some_iff.mp h
  exact (of_decimal hp).1

/-! ## Groups -/

theorem isHexDigit_digitChar {n : Nat} (h : n < 16) : isHexDigit n.digitChar = true := by
  decide +revert

theorem hexValue_digitChar {n : Nat} (h : n < 16) : hexValue n.digitChar = n := by
  decide +revert

theorem isHexDigit_of_mem_toDigits {n : Nat} {c : Char} (h : c ∈ Nat.toDigits 16 n) :
    isHexDigit c = true := by
  induction n using Nat.strongRecOn with
  | ind n ih =>
    rw [Nat.toDigits_eq_if (by decide)] at h
    split at h
    · next hlt =>
      rw [List.mem_singleton.mp h]
      exact isHexDigit_digitChar hlt
    · rcases List.mem_append.mp h with h | h
      · exact ih (n / 16) (by omega) h
      · rw [List.mem_singleton.mp h]
        exact isHexDigit_digitChar (Nat.mod_lt n (by decide))

theorem foldl_hexValue_toDigits (n : Nat) :
    (Nat.toDigits 16 n).foldl (fun n c => 16 * n + hexValue c) 0 = n := by
  induction n using Nat.strongRecOn with
  | ind n ih =>
    rw [Nat.toDigits_eq_if (by decide)]
    split
    · next hlt =>
      rw [List.foldl_cons, List.foldl_nil, hexValue_digitChar hlt, Nat.mul_zero, Nat.zero_add]
    · next hle =>
      rw [List.foldl_append, ih (n / 16) (by omega), List.foldl_cons, List.foldl_nil,
        hexValue_digitChar (Nat.mod_lt n (by decide)), Nat.div_add_mod]

theorem group_toDigits {g : Nat} (hg : g < 65536)
    (hrest : ∀ c ∈ rest.head?, isHexDigit c = false) :
    group (Nat.toDigits 16 g ++ rest) = some (g, rest) := by
  have hdigits : ∀ c ∈ Nat.toDigits 16 g, isHexDigit c := fun _ => isHexDigit_of_mem_toDigits
  have hlength : (Nat.toDigits 16 g).length ≤ 4 :=
    (Nat.length_toDigits_le_iff (by decide) (by decide)).mpr hg
  have hfits : ¬(((Nat.toDigits 16 g).isEmpty || 4 < (Nat.toDigits 16 g).length) = true) := by
    simp [Nat.toDigits_ne_nil, hlength]
  rw [group]
  simp only [takeWhile_append_of_head hdigits hrest, dropWhile_append_of_head hdigits hrest]
  rw [if_neg hfits, foldl_hexValue_toDigits]

theorem group_eq_none (hcs : ∀ c ∈ cs.head?, isHexDigit c = false) : group cs = none := by
  rw [group]
  simp [takeWhile_of_head hcs]

theorem hexValue_lt {c : Char} (h : isHexDigit c = true) : hexValue c < 16 := by
  rw [hexValue]
  simp only [isHexDigit, Bool.or_eq_true, Bool.and_eq_true, decide_eq_true_eq] at h
  split
  · next hdigit =>
    have hrange : 48 ≤ c.toNat ∧ c.toNat ≤ 57 := Char.isDigit_iff_toNat.mp hdigit
    omega
  · next hdigit =>
    have hrange := h.resolve_left hdigit
    omega

theorem foldl_hexValue_lt {ds : List Char} (h : ∀ c ∈ ds, isHexDigit c = true) (n : Nat) :
    ds.foldl (fun n c => 16 * n + hexValue c) n < (n + 1) * 16 ^ ds.length := by
  induction ds generalizing n with
  | nil => simp
  | cons c ds ih =>
    have hc := hexValue_lt (h c List.mem_cons_self)
    calc
      _ < (16 * n + hexValue c + 1) * 16 ^ ds.length :=
        ih (fun d hd => h d (List.mem_cons_of_mem c hd)) _
      _ ≤ (16 * (n + 1)) * 16 ^ ds.length := Nat.mul_le_mul_right _ (by omega)
      _ = (n + 1) * 16 ^ (c :: ds).length := by
        rw [List.length_cons, pow_succ]
        ring

theorem lt_of_group {g : Nat} (h : group cs = some (g, rest)) : g < 65536 := by
  rw [group] at h
  split at h
  · cases h
  · next hfits =>
    cases h
    simp only [Bool.or_eq_true, decide_eq_true_eq, not_or, not_lt] at hfits
    have hdigits : ∀ c ∈ cs.takeWhile isHexDigit, isHexDigit c = true :=
      fun _ => List.mem_takeWhile_imp
    calc
      _ < (0 + 1) * 16 ^ (cs.takeWhile isHexDigit).length := foldl_hexValue_lt hdigits 0
      _ ≤ (0 + 1) * 16 ^ 4 := Nat.mul_le_mul_left _ (Nat.pow_le_pow_right (by decide) hfits.2)
      _ = 65536 := rfl

/-! ## Lists of groups -/

/-- What follows an address: its zone, or the bracket. -/
inductive Ends : List Char → Prop
  | zone (tail : List Char) : Ends ('%' :: tail)
  | bracket (tail : List Char) : Ends (']' :: tail)

/-- What follows a group: a colon, or the end of the address. -/
inductive Breaks : List Char → Prop
  | colon (tail : List Char) : Breaks (':' :: tail)
  | ends {rest : List Char} (h : Ends rest) : Breaks rest

/-- What follows the last group of a list: the gap, or the end of the address. -/
inductive Closes : List Char → Prop
  | gap (tail : List Char) : Closes (':' :: ':' :: tail)
  | ends {rest : List Char} (h : Ends rest) : Closes rest

theorem Closes.breaks (h : Closes rest) : Breaks rest := by
  cases h with
  | gap tail => exact .colon _
  | ends h => exact .ends h

theorem Ends.isDigit_eq_false (h : Ends rest) : ∀ c ∈ rest.head?, c.isDigit = false := by
  cases h <;> rintro c hc <;> cases hc <;> rfl

theorem Ends.separated_eq_none {α : Type} (h : Ends rest) (read : Reader α) :
    separated false read rest = none := by
  cases h <;> rfl

theorem Breaks.isHexDigit_eq_false (h : Breaks rest) : ∀ c ∈ rest.head?, isHexDigit c = false := by
  rcases h with tail | ⟨tail⟩ | ⟨tail⟩ <;> rintro c hc <;> cases hc <;> rfl

/-- Hexadecimal digits are no IPv4 address, even if they begin with decimal ones. -/
theorem ipv4_hexDigits (hcs : ∀ c ∈ cs, isHexDigit c) (hrest : Breaks rest) :
    ipv4 (cs ++ rest) = none := by
  apply ipv4_eq_none
  induction cs with
  | nil => rcases hrest with tail | ⟨tail⟩ | ⟨tail⟩ <;> rintro c hc <;> cases hc <;> decide
  | cons c cs ih =>
    rw [List.forall_mem_cons] at hcs
    rw [List.cons_append, List.dropWhile_cons]
    split
    · exact ih hcs.2
    · rintro d hd rfl
      cases hd
      exact absurd hcs.1 (by decide)

theorem Breaks.ipv4_eq_none (h : Breaks rest) : ipv4 rest = none := by
  have hnone := ipv4_hexDigits (List.forall_mem_nil _) h
  rwa [List.nil_append] at hnone

/-- The colon in front of all but the first group. -/
def lead (first : Bool) : List Char := if first then [] else [':']

theorem separated_lead {α : Type} (first : Bool) (read : Reader α) (cs : List Char) :
    separated first read (lead first ++ cs) = read cs := by
  cases first <;> rfl

theorem groups_of_closes (limit : Nat) (first : Bool) (h : Closes rest) :
    groups limit first rest = (([], false), rest) := by
  have hnone : separated first ipv4 rest = none ∧ separated first group rest = none := by
    have hhex : ∀ {cs : List Char}, Breaks cs → ipv4 cs = none ∧ group cs = none := fun hcs =>
      ⟨hcs.ipv4_eq_none, group_eq_none hcs.isHexDigit_eq_false⟩
    cases first with
    | true => exact hhex h.breaks
    | false =>
      cases h with
      | gap tail => exact hhex (.colon tail)
      | ends h => exact ⟨h.separated_eq_none ipv4, h.separated_eq_none group⟩
  cases limit with
  | zero => rfl
  | succ limit =>
    rw [groups, hnone.1, hnone.2]
    simp

theorem groups_cons {limit : Nat} (first : Bool) {g : Nat} (hg : g < 65536) {gs : List Nat}
    {mixed : Bool} {tail : List Char} (hrest : Breaks rest)
    (h : groups limit false rest = ((gs, mixed), tail)) :
    groups (limit + 1) first (lead first ++ (Nat.toDigits 16 g ++ rest)) =
      ((g :: gs, mixed), tail) := by
  have hdigits : ∀ c ∈ Nat.toDigits 16 g, isHexDigit c := fun _ => isHexDigit_of_mem_toDigits
  -- An IPv4 address is looked for first; the digits of the group are none.
  have hmixed : (if limit = 0 then none
      else separated first ipv4 (lead first ++ (Nat.toDigits 16 g ++ rest))) = none := by
    rw [separated_lead, ipv4_hexDigits hdigits hrest, ite_self]
  rw [groups, hmixed, separated_lead, group_toDigits hg hrest.isHexDigit_eq_false]
  simp only [h]

/-- An IPv4 address is taken for the last two groups. -/
theorem groups_dotted (limit : Nat) {a b c d : Nat} (ha : a ≤ 255) (hb : b ≤ 255) (hc : c ≤ 255)
    (hd : d ≤ 255) (hrest : ∀ c ∈ rest.head?, c.isDigit = false) :
    groups (limit + 2) false (':' :: (dotted a b c d ++ rest)) =
      (([256 * a + b, 256 * c + d], true), rest) := by
  have hread : separated false ipv4 (':' :: (dotted a b c d ++ rest)) = some ((a, b, c, d), rest) :=
    (separated_lead false ipv4 _).trans (ipv4_dotted ha hb hc hd hrest)
  rw [groups, if_neg (Nat.succ_ne_zero limit), hread]

theorem of_separated {α : Type} {first : Bool} {read : Reader α} {a : α}
    (h : separated first read cs = some (a, rest)) : ∃ cs, read cs = some (a, rest) := by
  cases first with
  | true => exact ⟨cs, h⟩
  | false =>
    obtain ⟨⟨_, cs⟩, -, hread⟩ := Option.bind_eq_some_iff.mp h
    exact ⟨cs, hread⟩

theorem of_groups {limit : Nat} {first : Bool} {gs : List Nat} {mixed : Bool}
    (h : groups limit first cs = ((gs, mixed), rest)) :
    gs.length ≤ limit ∧ ∀ g ∈ gs, g < 65536 := by
  induction limit generalizing first cs gs mixed rest with
  | zero =>
    cases h
    exact ⟨Nat.le_refl 0, nofun⟩
  | succ limit ih =>
    rw [groups] at h
    split at h
    · next hread =>
      cases h
      split at hread
      · cases hread
      · next hlimit =>
        -- An IPv4 address is two groups, and it is not looked for where only one has room.
        obtain ⟨cs, hread⟩ := of_separated hread
        obtain ⟨ha, hb, hc, hd⟩ := of_ipv4 hread
        refine ⟨Nat.succ_le_succ (Nat.pos_of_ne_zero hlimit), ?_⟩
        rw [List.forall_mem_cons, List.forall_mem_singleton]
        omega
    · split at h
      · next hread =>
        obtain ⟨cs, hread⟩ := of_separated hread
        rcases hgroups : groups limit false _ with ⟨⟨gs, mixed⟩, rest⟩
        rw [hgroups] at h
        cases h
        obtain ⟨hlength, hgs⟩ := ih hgroups
        exact ⟨Nat.succ_le_succ hlength, List.forall_mem_cons.mpr ⟨lt_of_group hread, hgs⟩⟩
      · cases h
        exact ⟨Nat.zero_le _, nofun⟩

/-- The groups behind the first one, each with its colon. -/
def more (gs : List Nat) : List Char := gs.flatMap fun g => ':' :: Nat.toDigits 16 g

theorem toList_groupsText_cons (g : Nat) (gs : List Nat) :
    (groupsText (g :: gs)).toList = Nat.toDigits 16 g ++ more gs := by
  rw [groupsText, String.toList_intercalate, List.map_map]
  induction gs generalizing g with
  | nil => simp [more]
  | cons g' gs ih =>
    have htail := ih g'
    simp only [List.map_cons, List.intercalate_cons_cons] at htail ⊢
    rw [htail]
    simp [more]

theorem breaks_more (gs : List Nat) (h : Closes rest) : Breaks (more gs ++ rest) := by
  cases gs with
  | nil => exact h.breaks
  | cons g gs => exact .colon _

theorem groups_more {limit : Nat} {gs : List Nat} (hlimit : gs.length ≤ limit)
    (hgs : ∀ g ∈ gs, g < 65536) (hrest : Closes rest) :
    groups limit false (more gs ++ rest) = ((gs, false), rest) := by
  induction gs generalizing limit with
  | nil => exact groups_of_closes limit false hrest
  | cons g gs ih =>
    rw [List.forall_mem_cons] at hgs
    cases limit with
    | zero => cases hlimit
    | succ limit =>
      have htail := ih (Nat.le_of_succ_le_succ hlimit) hgs.2
      have hread := groups_cons false hgs.1 (breaks_more gs hrest) htail
      rwa [more, List.flatMap_cons, List.append_assoc]

theorem groups_text {limit : Nat} {gs : List Nat} (hlimit : gs.length ≤ limit)
    (hgs : ∀ g ∈ gs, g < 65536) (hrest : Closes rest) :
    groups limit true ((groupsText gs).toList ++ rest) = ((gs, false), rest) := by
  cases gs with
  | nil => exact groups_of_closes limit true hrest
  | cons g gs =>
    rw [List.forall_mem_cons] at hgs
    cases limit with
    | zero => cases hlimit
    | succ limit =>
      have htail := groups_more (Nat.le_of_succ_le_succ hlimit) hgs.2 hrest
      rw [toList_groupsText_cons, List.append_assoc]
      exact groups_cons true hgs.1 (breaks_more gs hrest) htail

end SealedHttp.Address
