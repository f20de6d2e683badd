import SealedHttp.Compression.Snappy
import SealedHttp.Proofs.ByteStrings
import SealedHttp.Proofs.Compression.Match

/-!
# Snappy blocks are unpacked to what was packed

The declared length is read back group by group. The elements are carried out one by one: pieces of
literals, and the copies that were found.
-/

namespace SealedHttp.Snappy

/-! ## The declared length -/

theorem lengthFrom_lengthBytes {shift n : Nat} (hshift : shift < 64)
    (hn : n * 2 ^ shift < 0x10000000000000000) (value : Nat) (rest : Bytes) :
    lengthFrom shift value (lengthBytes n ++ rest) = some (value + n * 2 ^ shift, rest) := by
  fun_induction lengthBytes n generalizing shift value with
  | case1 n hlast =>
    have hbyte : (UInt8.ofNat n).toNat = n := by
      rw [UInt8.toNat_ofNat']
      omega
    have hsmall : UInt8.ofNat n < 128 := by
      rw [UInt8.lt_iff_toNat_lt, hbyte]
      exact hlast
    rw [List.cons_append, List.nil_append, lengthFrom, if_neg (by omega)]
    simp only [hbyte, Nat.mod_eq_of_lt hlast, Nat.shiftLeft_eq]
    rw [if_pos hsmall, Nat.mod_eq_of_lt hn]
  | case2 n hmore ih =>
    have hbyte : (UInt8.ofNat (n % 128 + 128)).toNat = n % 128 + 128 := by
      rw [UInt8.toNat_ofNat']
      omega
    have hbig : ¬UInt8.ofNat (n % 128 + 128) < 128 := by
      rw [UInt8.lt_iff_toNat_lt, hbyte]
      exact Nat.not_lt.mpr (Nat.le_add_left _ _)
    have hsplit : n * 2 ^ shift = n % 128 * 2 ^ shift + n / 128 * 2 ^ (shift + 7) := by
      conv_lhs => rw [← Nat.mod_add_div n 128]
      ring
    have hshift' : shift + 7 < 64 := by
      have hone : 2 ^ (shift + 7) ≤ n / 128 * 2 ^ (shift + 7) :=
        Nat.le_mul_of_pos_left _ (by omega)
      exact (Nat.pow_lt_pow_iff_right (show 1 < 2 by decide)).mp (hone.trans_lt (by omega))
    rw [List.cons_append, lengthFrom, if_neg (by omega)]
    simp only [hbyte, Nat.add_mod_right, Nat.mod_mod, Nat.shiftLeft_eq]
    rw [if_neg hbig, Nat.mod_eq_of_lt (by omega), ih hshift' (by omega), hsplit, Nat.add_assoc]

theorem declared?_lengthBytes {n : Nat} (hn : n < 0x100000000) (rest : Bytes) :
    declared? (lengthBytes n ++ rest) = some (n, rest) := by
  rw [declared?, lengthFrom_lengthBytes (by decide) (by omega), pow_zero, Nat.mul_one,
    Nat.zero_add, Option.filter_some, if_pos (by simpa using hn)]

/-- The number behind groups of seven bits, low groups first. The high bit of a byte does not
count. -/
def groups : Bytes → Nat
  | [] => 0
  | b :: bs => b.toNat % 128 + 128 * groups bs

/-- A block declares the length of its output in front of its body: in at most ten groups, all of
which but the last are marked by their high bit. What exceeds a word is lost, and the length fits
32 bits. -/
def Declares (packed : Bytes) (length : Nat) (body : Bytes) : Prop :=
  ∃ front last, packed = front ++ last :: body ∧ front.length < 10 ∧ (∀ b ∈ front, 128 ≤ b) ∧
    last < 128 ∧ length = groups (front ++ [last]) % 2 ^ 64 ∧ length < 2 ^ 32

/-- A group that reaches beyond the word is cut off there. -/
theorem add_shiftLeft_mod {shift value : Nat} (hshift : shift < 64) (hvalue : value < 2 ^ shift)
    (group : Nat) :
    value + (group <<< shift) % 0x10000000000000000 = (value + 2 ^ shift * group) % 2 ^ 64 := by
  have hword : (2 : Nat) ^ 64 = 2 ^ shift * 2 ^ (64 - shift) := by
    rw [← pow_add, Nat.add_sub_cancel' hshift.le]
  have hcut : 2 ^ shift * group % 2 ^ 64 = 2 ^ shift * (group % 2 ^ (64 - shift)) := by
    rw [hword, Nat.mul_mod_mul_left]
  have hsum : value + 2 ^ shift * (group % 2 ^ (64 - shift)) < 2 ^ 64 := by
    have hgroup : group % 2 ^ (64 - shift) < 2 ^ (64 - shift) := Nat.mod_lt _ (Nat.two_pow_pos _)
    calc value + 2 ^ shift * (group % 2 ^ (64 - shift))
        < 2 ^ shift * (group % 2 ^ (64 - shift) + 1) := by rw [Nat.mul_succ]; omega
      _ ≤ 2 ^ shift * 2 ^ (64 - shift) := Nat.mul_le_mul_left _ hgroup
      _ = 2 ^ 64 := hword.symm
  rw [Nat.shiftLeft_eq, Nat.mul_comm group, show (0x10000000000000000 : Nat) = 2 ^ 64 by rfl, hcut,
    ← Nat.add_mod_mod, hcut, Nat.mod_eq_of_lt hsum]

/-- The groups that are still to come add to a value that occupies the bits below them. -/
theorem lengthFrom_eq_some_iff {shift value n : Nat} {bs body : Bytes}
    (hvalue : value < 2 ^ shift) :
    lengthFrom shift value bs = some (n, body) ↔
      ∃ front last, bs = front ++ last :: body ∧ shift + 7 * front.length < 64 ∧
        (∀ b ∈ front, 128 ≤ b) ∧ last < 128 ∧
        n = (value + 2 ^ shift * groups (front ++ [last])) % 2 ^ 64 := by
  fun_induction lengthFrom shift value bs with
  | case1 shift value => simp
  | case2 shift value b rest hshift =>
    constructor
    · intro h
      cases h
    · rintro ⟨front, -, -, hroom, -⟩
      omega
  | case3 shift value b rest hshift value' hlast =>
    have hone : value' = (value + 2 ^ shift * groups [b]) % 2 ^ 64 := by
      rw [groups, groups, Nat.mul_zero, Nat.add_zero]
      exact add_shiftLeft_mod (Nat.not_le.mp hshift) hvalue _
    constructor
    · intro h
      obtain ⟨hn, rfl⟩ := Prod.mk.inj (Option.some.inj h)
      exact ⟨[], b, rfl, Nat.not_le.mp hshift, by simp, hlast, hn.symm.trans hone⟩
    · rintro ⟨front, last, hbs, -, hfront, -, hn⟩
      cases front with
      | nil =>
        cases hbs
        rw [hn, List.nil_append, ← hone]
      | cons b' front =>
        cases hbs
        exact absurd hlast (UInt8.not_lt.mpr (hfront _ List.mem_cons_self))
  | case4 shift value b rest hshift value' hmore ih =>
    have hword : value' = (value + 2 ^ shift * (b.toNat % 128)) % 2 ^ 64 :=
      add_shiftLeft_mod (Nat.not_le.mp hshift) hvalue _
    have hvalue' : value' < 2 ^ (shift + 7) := by
      have hgroup : b.toNat % 128 < 128 := Nat.mod_lt _ (by decide)
      calc value' ≤ value + 2 ^ shift * (b.toNat % 128) := hword.le.trans (Nat.mod_le _ _)
        _ < 2 ^ shift * (b.toNat % 128 + 1) := by rw [Nat.mul_succ]; omega
        _ ≤ 2 ^ shift * 128 := Nat.mul_le_mul_left _ hgroup
        _ = 2 ^ (shift + 7) := by rw [pow_add]; rfl
    -- Cutting off beyond the word does not disturb the groups that follow.
    have hcons (later : Nat) : (value' + 2 ^ (shift + 7) * later) % 2 ^ 64 =
        (value + 2 ^ shift * (b.toNat % 128 + 128 * later)) % 2 ^ 64 := by
      rw [hword, Nat.mod_add_mod, pow_add]
      congr 1
      ring
    rw [ih hvalue']
    constructor
    · rintro ⟨front, last, rfl, hroom, hfront, hlast, rfl⟩
      refine ⟨b :: front, last, rfl, by rw [List.length_cons]; omega, ?_, hlast, hcons _⟩
      exact List.forall_mem_cons.mpr ⟨UInt8.not_lt.mp hmore, hfront⟩
    · rintro ⟨front, last, hbs, hroom, hfront, hlast, rfl⟩
      cases front with
      | nil =>
        cases hbs
        exact absurd hlast hmore
      | cons b' front =>
        cases hbs
        rw [List.length_cons] at hroom
        exact ⟨front, last, rfl, by omega, (List.forall_mem_cons.mp hfront).2, hlast,
          (hcons _).symm⟩

theorem declared?_eq_some_iff {packed body : Bytes} {length : Nat} :
    declared? packed = some (length, body) ↔ Declares packed length body := by
  rw [declared?, Option.filter_eq_some_iff, lengthFrom_eq_some_iff (by decide)]
  simp only [Nat.zero_add, pow_zero, Nat.one_mul, decide_eq_true_eq]
  constructor
  · rintro ⟨⟨front, last, hpacked, hroom, hfront, hlast, hlength⟩, hfits⟩
    exact ⟨front, last, hpacked, by omega, hfront, hlast, hlength, hfits⟩
  · rintro ⟨front, last, hpacked, hroom, hfront, hlast, hlength, hfits⟩
    exact ⟨⟨front, last, hpacked, by omega, hfront, hlast, hlength⟩, hfits⟩

/-! ## Elements -/

theorem element?_literal {piece : Bytes} (hne : piece ≠ []) (hle : piece.length ≤ 60)
    (rest : Bytes) :
    element? (UInt8.ofNat (4 * (piece.length - 1))) (piece ++ rest) =
      some (.literal piece rest) := by
  have hpos := List.length_pos_iff.mpr hne
  have htag : (UInt8.ofNat (4 * (piece.length - 1))).toNat = 4 * (piece.length - 1) := by
    rw [UInt8.toNat_ofNat']
    omega
  simp only [element?, htag, Nat.mul_mod_right]
  rw [if_pos (by omega), show 4 * (piece.length - 1) / 4 + 1 = piece.length by omega,
    Bytes.split?_append]
  rfl

/-- A literal element that still fits is carried out. -/
theorem elements_literal {length : Nat} {piece : Bytes} (hne : piece ≠ [])
    (hle : piece.length ≤ 60) (rest : Bytes) {out : Array UInt8}
    (hfits : out.size + piece.length ≤ length) :
    elements length (UInt8.ofNat (4 * (piece.length - 1)) :: (piece ++ rest)) out =
      elements length rest (out ++ piece) := by
  have helement := element?_literal hne hle rest
  rw [elements]
  split
  · next h =>
    rw [helement] at h
    cases h
  · next h =>
    rw [helement] at h
    cases h
    rw [if_neg (by omega)]
  · next h =>
    rw [helement] at h
    cases h

theorem elements_pieces {length : Nat} (pieces : List Bytes)
    (hpieces : ∀ piece ∈ pieces, piece ≠ [] ∧ piece.length ≤ 60) {out : Array UInt8}
    (hfits : out.size + pieces.flatten.length ≤ length) (rest : Bytes) :
    elements length
        ((pieces.flatMap fun piece => UInt8.ofNat (4 * (piece.length - 1)) :: piece) ++ rest) out =
      elements length rest (out ++ pieces.flatten) := by
  induction pieces generalizing out with
  | nil => simp
  | cons piece pieces ih =>
    obtain ⟨hne, hle⟩ := hpieces piece List.mem_cons_self
    rw [List.flatten_cons, List.length_append] at hfits
    have hrest : (out ++ piece).size + pieces.flatten.length ≤ length := by
      rw [Bytes.size_append]
      omega
    rw [List.flatMap_cons, List.cons_append, List.cons_append, List.append_assoc,
      elements_literal hne hle _ (by omega),
      ih (fun p hp => hpieces p (List.mem_cons_of_mem _ hp)) hrest]
    congr 1
    apply Array.toList_inj.mp
    simp

theorem elements_literals {length : Nat} {bs : Bytes} {out : Array UInt8}
    (hfits : out.size + bs.length ≤ length) (rest : Bytes) :
    elements length (literals bs ++ rest) out = elements length rest (out ++ bs) := by
  have hflatten : (Bytes.chunks 60 bs).flatten = bs := Bytes.flatten_chunks (by decide) bs
  have hpieces : ∀ piece ∈ Bytes.chunks 60 bs, piece ≠ [] ∧ piece.length ≤ 60 := fun piece h =>
    ⟨Bytes.ne_nil_of_mem_chunks h, Bytes.length_le_of_mem_chunks h⟩
  rw [literals, elements_pieces _ hpieces (by rwa [hflatten]), hflatten]

theorem element?_copy {n distance : Nat} (hpos : 0 < n) (hn : n ≤ 64) (hword : distance ≤ 65535)
    (rest : Bytes) :
    element? (UInt8.ofNat (4 * (n - 1) + 2)) (Bytes.ofNatLittle distance 2 ++ rest) =
      some (.copy n distance rest) := by
  have htag : (UInt8.ofNat (4 * (n - 1) + 2)).toNat = 4 * (n - 1) + 2 := by
    rw [UInt8.toNat_ofNat']
    omega
  have hkind : (4 * (n - 1) + 2) % 4 = 2 := by omega
  have hlength : (4 * (n - 1) + 2) / 4 + 1 = n := by omega
  have hsplit := Bytes.split?_append (Bytes.ofNatLittle distance 2) rest
  have hdistance : Bytes.toNatLittle (Bytes.ofNatLittle distance 2) = distance := by
    rw [Bytes.toNatLittle_ofNatLittle, Nat.mod_eq_of_lt (show distance < 256 ^ 2 by omega)]
  rw [Bytes.length_ofNatLittle] at hsplit
  simp only [element?, htag, hkind, hsplit, Option.map_some, hlength, hdistance]

/-- A copy element within the output so far is carried out. -/
theorem elements_copy {length n distance : Nat} (hn : 0 < n) (hlong : n ≤ 64)
    (hpos : 0 < distance) (hword : distance ≤ 65535) {out : Array UInt8}
    (hback : distance ≤ out.size) (hfits : out.size + n ≤ length) (rest : Bytes) :
    elements length (UInt8.ofNat (4 * (n - 1) + 2) :: (Bytes.ofNatLittle distance 2 ++ rest)) out =
      elements length rest (Token.copyBack distance n out) := by
  have helement := element?_copy hn hlong hword rest
  rw [elements]
  split
  · next h =>
    rw [helement] at h
    cases h
  · next h =>
    rw [helement] at h
    cases h
  · next h =>
    rw [helement] at h
    cases h
    rw [if_neg (by omega), if_neg (Nat.not_lt.mpr hfits)]

/-! ## Blocks -/

theorem written_eq (run done : Bytes) (tokens : List Token) :
    written run done tokens = done.reverse ++ written run [] tokens := by
  induction tokens generalizing run done with
  | nil => simp [written]
  | cons token tokens ih =>
    cases token with
    | literal b => rw [written, written, ih]
    | copy length distance =>
      rw [written, written, ih, ih [] (_ ++ (_ ++ []))]
      simp

/-- Literals that were put off stand behind the output before they are carried out. -/
theorem elements_written {reach : Match.Reach} (hlong : reach.maxLength ≤ 64)
    (hreach : reach.maxDistance ≤ 65535) {run : Bytes} {tokens : List Token}
    {out whole : Array UInt8} (h : Spells reach (out ++ run.reverse) tokens whole) :
    elements whole.size (written run [] tokens) out = .ok whole := by
  induction tokens generalizing run out with
  | nil =>
    cases h
    have hliterals := elements_literals (Bytes.size_append out run.reverse).ge []
    rw [List.append_nil] at hliterals
    rw [written, List.append_nil, List.reverse_reverse, hliterals, elements]
  | cons token tokens ih =>
    cases h with
    | literal h =>
      rw [Bytes.push_append_reverse] at h
      exact ih h
    | @copy _ _ length distance _ hfour hlength hpos hdistance hback h =>
      have hfits := h.size_add_le
      have hliterals : out.size + run.reverse.length ≤ whole.size := by
        rw [← Bytes.size_append]
        exact Nat.le_of_add_right_le hfits
      have hnext : elements whole.size (written [] [] tokens)
          (Token.copyBack distance length (out ++ run.reverse)) = .ok whole := ih h
      have hcopy := elements_copy (by omega) (hlength.trans hlong) hpos (hdistance.trans hreach)
        hback hfits (written [] [] tokens)
      rw [hnext, ← elements_literals hliterals] at hcopy
      rw [written, written_eq]
      simpa using hcopy

theorem unpack_found (bs : Bytes) : unpack bs.length (found bs) = .ok bs := by
  have hrun : elements bs.length (written [] [] (Match.tokens ⟨65535, 64⟩ bs)) #[] =
      .ok bs.toArray :=
    elements_written (le_refl 64) (le_refl 65535) (Match.spells_tokens ⟨65535, 64⟩ bs)
  rw [unpack, found, hrun]
  simp

theorem unpack_literals (bs : Bytes) : unpack bs.length (literals bs) = .ok bs := by
  have hrun : elements bs.length (literals bs ++ []) #[] =
      elements bs.length [] ((#[] : Array UInt8) ++ bs) := elements_literals (by simp) []
  rw [List.append_nil, elements] at hrun
  simp [unpack, hrun]

/-- A packed block declares the length of its input and unpacks to it. -/
theorem exists_pack {bs : Bytes} (hlength : bs.length < 0x100000000) :
    ∃ body, declared? (pack bs) = some (bs.length, body) ∧ unpack bs.length body = .ok bs := by
  refine ⟨_, declared?_lengthBytes hlength _, ?_⟩
  split
  · exact unpack_found bs
  · exact unpack_literals bs

end SealedHttp.Snappy
