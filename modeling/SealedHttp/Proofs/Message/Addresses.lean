import SealedHttp.Proofs.ByteStrings
import SealedHttp.Proofs.Message.AddressPieces

/-!
# Socket addresses are read back

An address within the widths of its parts is read back from its text, and the reader gives no other
addresses. The brackets around an IPv6 address are needed: without them the text with the port
behind it is no address at all.
-/

namespace SealedHttp

namespace Address

variable {cs rest : List Char}

/-! ## Eight groups -/

theorem ipv6_of_eight {front : List Nat} {mixed : Bool}
    (h : groups 8 true cs = ((front, mixed), rest)) (hlength : front.length = 8) :
    ipv6 cs = some (front, rest) := by
  rw [ipv6, h]
  exact if_pos hlength

theorem ipv6_of_gap {front back : List Nat} {mixed : Bool} {tail : List Char}
    (hfront : groups 8 true cs = ((front, false), ':' :: ':' :: tail)) (hlength : front.length ≠ 8)
    (hback : groups (7 - front.length) true tail = ((back, mixed), rest)) :
    ipv6 cs =
      some (front ++ List.replicate (8 - front.length - back.length) 0 ++ back, rest) := by
  rw [ipv6, hfront]
  simp only [hlength, if_false, char_self, Option.bind_eq_bind, Option.bind_some, hback,
    Bool.false_eq_true]

theorem of_ipv6 {gs : List Nat} (h : ipv6 cs = some (gs, rest)) :
    gs.length = 8 ∧ ∀ g ∈ gs, g < 65536 := by
  rw [ipv6] at h
  rcases hfront : groups 8 true cs with ⟨⟨front, mixed⟩, tail⟩
  obtain ⟨hlength, hgs⟩ := of_groups hfront
  simp only [hfront] at h
  split at h
  · next height =>
    cases h
    exact ⟨height, hgs⟩
  · next height =>
    split at h
    · cases h
    · simp only [Option.bind_eq_bind, Option.bind_eq_some_iff, Prod.exists] at h
      obtain ⟨_, cs₁, -, _, cs₂, -, heq⟩ := h
      rcases hback : groups (7 - front.length) true cs₂ with ⟨⟨back, mixed⟩, tail⟩
      obtain ⟨hroom, hbacks⟩ := of_groups hback
      simp only [hback, Option.some.injEq, Prod.mk.injEq] at heq
      obtain ⟨rfl, -⟩ := heq
      constructor
      · rw [List.length_append, List.length_append, List.length_replicate]
        omega
      · have hzeros : ∀ g ∈ List.replicate (8 - front.length - back.length) 0, g < 65536 := by
          intro g hg
          rw [List.eq_of_mem_replicate hg]
          decide
        exact List.forall_mem_append.mpr ⟨List.forall_mem_append.mpr ⟨hgs, hzeros⟩, hbacks⟩

/-- The run that is left out, with what is before and behind it. -/
theorem longestZeros_split (gs : List Nat) :
    gs = gs.take (longestZeros gs).1 ++ List.replicate (longestZeros gs).2 0 ++
      gs.drop ((longestZeros gs).1 + (longestZeros gs).2) := by
  induction gs with
  | nil => rfl
  | cons g gs ih =>
    rcases hrun : longestZeros gs with ⟨start, length⟩
    rw [hrun] at ih
    simp only [longestZeros, hrun]
    split
    · rw [List.take_zero, List.nil_append, Nat.zero_add]
      exact eq_replicate_append_drop 0 (g :: gs)
    · rw [Nat.add_right_comm, List.take_succ_cons, List.drop_succ_cons, List.cons_append,
        List.cons_append, ← ih]

theorem toString_text (s : String) : toString s = s := rfl

theorem toList_embedded (a b c d : Nat) :
    s!"::ffff:{a}.{b}.{c}.{d}".toList =
      ':' :: ':' :: (Nat.toDigits 16 0xFFFF ++ ':' :: dotted a b c d) := by
  have hdigits : Nat.toDigits 16 0xFFFF = ['f', 'f', 'f', 'f'] := by decide
  simp [dotted, toString_text, hdigits]

/-- The last two groups of an address that embeds an IPv4 address are written as one. -/
theorem ipv6_embedded {a b : Nat} (ha : a < 65536) (hb : b < 65536) (hrest : Ends rest) :
    ipv6 (s!"::ffff:{a / 256}.{a % 256}.{b / 256}.{b % 256}".toList ++ rest) =
      some ([0, 0, 0, 0, 0, 0xFFFF, a, b], rest) := by
  have hlast := groups_dotted 4 (show a / 256 ≤ 255 by omega) (show a % 256 ≤ 255 by omega)
    (show b / 256 ≤ 255 by omega) (show b % 256 ≤ 255 by omega) hrest.isDigit_eq_false
  rw [Nat.div_add_mod, Nat.div_add_mod] at hlast
  have hback := groups_cons true (show 0xFFFF < 65536 by decide) (.colon _) hlast
  rw [toList_embedded, List.cons_append, List.cons_append, List.append_assoc]
  exact ipv6_of_gap (groups_of_closes 8 true (.gap _)) (by decide) hback

/-- A run of at least two zeros may be left out. -/
theorem ipv6_gap {front back : List Nat} {length : Nat}
    (hlength : front.length + length + back.length = 8) (hlong : 1 < length)
    (hfront : ∀ g ∈ front, g < 65536) (hback : ∀ g ∈ back, g < 65536) (hrest : Ends rest) :
    ipv6 ((groupsText front).toList ++ ':' :: ':' :: ((groupsText back).toList ++ rest)) =
      some (front ++ List.replicate length 0 ++ back, rest) := by
  have hrun : 8 - front.length - back.length = length := by omega
  rw [← hrun]
  exact ipv6_of_gap (groups_text (by omega) hfront (.gap _)) (by omega)
    (groups_text (by omega) hback (.ends hrest))

theorem ipv6_v6Text {gs : List Nat} (hlength : gs.length = 8) (hgs : ∀ g ∈ gs, g < 65536)
    (hrest : Ends rest) : ipv6 ((IpAddress.v6Text gs).toList ++ rest) = some (gs, rest) := by
  unfold IpAddress.v6Text
  split
  · next a b => exact ipv6_embedded (hgs a (by simp)) (hgs b (by simp)) hrest
  · rcases hrun : longestZeros gs with ⟨start, length⟩
    simp only
    split
    · have hread := groups_text (Nat.le_of_eq hlength) hgs (.ends hrest)
      exact ipv6_of_eight hread hlength
    · next hlong =>
      have hsplit := longestZeros_split gs
      rw [hrun] at hsplit
      have hparts := congrArg List.length hsplit
      rw [hlength, List.length_append, List.length_append, List.length_replicate] at hparts
      have hread := ipv6_gap hparts.symm (Nat.lt_of_not_le hlong)
        (fun g hg => hgs g (List.mem_of_mem_take hg)) (fun g hg => hgs g (List.mem_of_mem_drop hg))
        hrest
      rw [← hsplit] at hread
      simpa using hread

/-! ## With a port -/

theorem toList_port (host : String) (p : Nat) :
    s!"{host}:{p}".toList = host.toList ++ ':' :: Nat.toDigits 10 p := by
  simp [toString_text]

theorem toList_v4 (a b c d : Nat) : (IpAddress.v4 a b c d).text.toList = dotted a b c d := by
  simp [IpAddress.text, dotted, toString_text]

theorem socketV4_of_bracket (cs : List Char) : socketV4 ('[' :: cs) = none := by
  have hnone : ipv4 ('[' :: cs) = none := by
    apply ipv4_eq_none
    rintro c hc rfl
    cases hc
  rw [socketV4, hnone]
  rfl

theorem exists_groupsText_append (gs : List Nat) (cs : List Char) :
    ∃ ds tail, (groupsText gs).toList ++ ':' :: cs = ds ++ ':' :: tail ∧
      ∀ c ∈ ds, isHexDigit c := by
  cases gs with
  | nil => exact ⟨[], cs, rfl, List.forall_mem_nil _⟩
  | cons g gs =>
    have hdigits : ∀ c ∈ Nat.toDigits 16 g, isHexDigit c := fun _ => isHexDigit_of_mem_toDigits
    rw [toList_groupsText_cons, List.append_assoc]
    cases gs with
    | nil => exact ⟨_, cs, rfl, hdigits⟩
    | cons g gs => exact ⟨_, _, rfl, hdigits⟩

/-- An IPv6 address and a colon begin with a group, perhaps an empty one, and a colon. -/
theorem exists_v6Text_append (gs : List Nat) (cs : List Char) :
    ∃ ds tail, (IpAddress.v6Text gs).toList ++ ':' :: cs = ds ++ ':' :: tail ∧
      ∀ c ∈ ds, isHexDigit c := by
  unfold IpAddress.v6Text
  split
  · rw [toList_embedded]
    exact ⟨[], _, rfl, List.forall_mem_nil _⟩
  · simp only
    split
    · exact exists_groupsText_append gs cs
    · rw [String.toList_append, String.toList_append, List.append_assoc, List.append_assoc]
      exact exists_groupsText_append _ _

end Address

/-- An address whose parts are within their widths. Only an IPv6 address has a zone. -/
inductive SocketAddress.IsProper : SocketAddress → Prop
  | v4 {a b c d port : Nat} (ha : a ≤ 255) (hb : b ≤ 255) (hc : c ≤ 255) (hd : d ≤ 255)
      (hport : port ≤ 65535) : IsProper { ip := .v4 a b c d, port }
  | v6 {gs : List Nat} {port zone : Nat} (hlength : gs.length = 8) (hgs : ∀ g ∈ gs, g < 65536)
      (hport : port ≤ 65535) (hzone : zone ≤ 4294967295) : IsProper { ip := .v6 gs, port, zone }

namespace SocketAddress

open Address

variable {cs rest : List Char} {a : SocketAddress}

theorem isProper_of_socketV4 (h : socketV4 cs = some (a, rest)) : a.IsProper := by
  simp only [socketV4, Option.bind_eq_bind, Option.bind_eq_some_iff, Prod.exists] at h
  obtain ⟨a, b, c, d, cs₁, hip, p, cs₂, hport, heq⟩ := h
  cases heq
  obtain ⟨ha, hb, hc, hd⟩ := of_ipv4 hip
  exact .v4 ha hb hc hd (of_port hport)

theorem isProper_of_socketV6 (h : socketV6 cs = some (a, rest)) : a.IsProper := by
  simp only [socketV6, Option.bind_eq_bind, Option.bind_eq_some_iff, Prod.exists] at h
  obtain ⟨_, cs₁, -, gs, cs₂, hip, h⟩ := h
  obtain ⟨hlength, hgs⟩ := of_ipv6 hip
  split at h
  · next zone hzone =>
    obtain ⟨_, cs₃, -, p, cs₄, hport, heq⟩ := h
    obtain ⟨_, -, hdecimal⟩ := Option.bind_eq_some_iff.mp hzone
    cases heq
    exact .v6 hlength hgs (of_port hport) (of_decimal hdecimal).1
  · obtain ⟨_, cs₃, -, p, cs₄, hport, heq⟩ := h
    cases heq
    exact .v6 hlength hgs (of_port hport) (Nat.zero_le _)

/-- The reader of addresses gives proper ones. -/
theorem isProper_of_parse? {s : String} (h : parse? s = some a) : a.IsProper := by
  rw [parse?] at h
  split at h
  · next hread =>
    cases h
    rcases Option.or_eq_some_iff.mp hread with hread | ⟨-, hread⟩
    · exact isProper_of_socketV4 hread
    · exact isProper_of_socketV6 hread
  · cases h

theorem socketV4_dotted {a b c d p : Nat} (ha : a ≤ 255) (hb : b ≤ 255) (hc : c ≤ 255)
    (hd : d ≤ 255) (hp : p ≤ 65535) :
    socketV4 (dotted a b c d ++ ':' :: Nat.toDigits 10 p) =
      some ({ ip := .v4 a b c d, port := p }, []) := by
  have hcolon : ∀ c ∈ (':' :: Nat.toDigits 10 p).head?, c.isDigit = false := by
    rintro c hc
    cases hc
    rfl
  simp only [socketV4, ipv4_dotted ha hb hc hd hcolon, port_toDigits hp, Option.bind_eq_bind,
    Option.bind_some]

theorem text_v4 (a b c d port : Nat) :
    text { ip := .v4 a b c d, port } = s!"{(IpAddress.v4 a b c d).text}:{port}" := by
  rw [text]

theorem text_v6 (gs : List Nat) (port : Nat) :
    text { ip := .v6 gs, port } = s!"[{(IpAddress.v6 gs).text}]:{port}" := by
  rw [text]
  exact if_pos rfl

theorem toList_text_v6 (gs : List Nat) (p zone : Nat) :
    (text { ip := .v6 gs, port := p, zone }).toList =
      '[' :: ((IpAddress.v6Text gs).toList ++
        ((if zone = 0 then [] else '%' :: Nat.toDigits 10 zone) ++
          ']' :: ':' :: Nat.toDigits 10 p)) := by
  simp only [text, IpAddress.text]
  split <;> simp [toString_text]

theorem socketV6_v6Text {gs : List Nat} {p zone : Nat} (hlength : gs.length = 8)
    (hgs : ∀ g ∈ gs, g < 65536) (hp : p ≤ 65535) (hzone : zone ≤ 4294967295) :
    socketV6 ('[' :: ((IpAddress.v6Text gs).toList ++
      ((if zone = 0 then [] else '%' :: Nat.toDigits 10 zone) ++ ']' :: ':' :: Nat.toDigits 10 p))) =
      some ({ ip := .v6 gs, port := p, zone }, []) := by
  split
  · next hzero =>
    have hnone : char '%' (']' :: ':' :: Nat.toDigits 10 p) = none := char_of_ne (by decide) _
    simp only [socketV6, char_self, List.nil_append, ipv6_v6Text hlength hgs (.bracket _), hnone,
      port_toDigits hp, Option.bind_eq_bind, Option.bind_some, Option.bind_none, hzero]
  · have hbracket : ∀ c ∈ (']' :: ':' :: Nat.toDigits 10 p).head?, c.isDigit = false :=
      Ends.isDigit_eq_false (.bracket _)
    simp only [socketV6, char_self, List.cons_append, ipv6_v6Text hlength hgs (.zone _),
      decimal_toDigits true hzone hbracket, port_toDigits hp, Option.bind_eq_bind, Option.bind_some]

theorem parse?_of_socketV4 {s : String} (h : socketV4 s.toList = some (a, [])) :
    parse? s = some a := by
  rw [parse?, h]
  rfl

theorem parse?_of_socketV6 {s : String} (hnone : socketV4 s.toList = none)
    (h : socketV6 s.toList = some (a, [])) : parse? s = some a := by
  rw [parse?, hnone, h]
  rfl

/-- A proper address is read back from its text. -/
theorem parse?_text (h : a.IsProper) : parse? a.text = some a := by
  cases h with
  | @v4 a b c d p ha hb hc hd hp =>
    apply parse?_of_socketV4
    rw [text, toList_port, toList_v4, socketV4_dotted ha hb hc hd hp]
  | @v6 gs p zone hlength hgs hp hzone =>
    apply parse?_of_socketV6
    · rw [toList_text_v6, socketV4_of_bracket]
    · rw [toList_text_v6, socketV6_v6Text hlength hgs hp hzone]

/-- Without its brackets, an IPv6 address with a port is not an address. -/
theorem parse?_unbracketed (gs : List Nat) (p : Nat) :
    parse? s!"{IpAddress.v6Text gs}:{p}" = none := by
  obtain ⟨ds, tail, htail, hds⟩ := exists_v6Text_append gs (Nat.toDigits 10 p)
  -- The digits run into a colon, where four numbers need a dot, and no digit is a bracket.
  have hbracket : char '[' (ds ++ ':' :: tail) = none := by
    cases ds with
    | nil => exact char_of_ne (by decide) _
    | cons d ds =>
      apply char_of_ne
      rintro rfl
      exact absurd (hds '[' List.mem_cons_self) (by decide)
  have hv4 : socketV4 (ds ++ ':' :: tail) = none := by
    rw [socketV4, ipv4_hexDigits hds (.colon tail)]
    rfl
  have hv6 : socketV6 (ds ++ ':' :: tail) = none := by
    rw [socketV6, hbracket]
    rfl
  rw [parse?, toList_port, htail, hv4, hv6]
  rfl

end SocketAddress
end SealedHttp
