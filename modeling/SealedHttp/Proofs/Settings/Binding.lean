import SealedHttp.Proofs.Message.Addresses
import SealedHttp.Settings.Keys

/-!
# The address of a bound server

The settings of a server that is bound to an address give the address out again as one text. Of an
IPv4 address this text is read back; of an IPv6 address it never is, since the host has lost its
brackets, and to bind to it leads to the address that stands for every unreadable text.
-/

namespace SealedHttp.Settings

open SocketAddress

theorem bound_of_some {text : String} {a : SocketAddress} (h : parse? text = some a) :
    bound text = { host := a.ip.text, port := a.port } := by
  rw [bound, h]

theorem bound_of_none {text : String} (h : parse? text = none) : bound text = {} := by
  rw [bound, h]

/-- The default address is an address. -/
theorem parse?_default :
    parse? (address {}) = some { ip := .v4 127 0 0 1, port := 3000 } := by
  have htext : address {} = text { ip := .v4 127 0 0 1, port := 3000 } := by decide +kernel
  rw [htext]
  exact parse?_text (.v4 (by decide) (by decide) (by decide) (by decide) (by decide))

/-- What is bound to an IPv4 address gives this address out, and what is bound to no address gives
the default out, so that binding to what is given out changes nothing. What is bound to an IPv6
address gives out a text that is no address, and would be this address within brackets. -/
theorem bound_address (text : String) :
    match parse? text with
    | none => bound text = {} ∧ bound (bound text).address = bound text
    | some { ip := .v4 a b c d, port, zone := _ } =>
      parse? (bound text).address = some { ip := .v4 a b c d, port } ∧
        bound (bound text).address = bound text
    | some { ip := .v6 gs, port, zone := _ } =>
      parse? (bound text).address = none ∧ bound (bound text).address = {} ∧
        parse? s!"[{(bound text).host}]:{(bound text).port}" = some { ip := .v6 gs, port } := by
  rcases hread : parse? text with _ | ⟨⟨a, b, c, d⟩ | ⟨gs⟩, port, zone⟩
  · have hbound := bound_of_none hread
    refine ⟨hbound, ?_⟩
    rw [hbound, bound_of_some parse?_default]
    decide +kernel
  · have hbound := bound_of_some hread
    have hagain : parse? (bound text).address = some { ip := .v4 a b c d, port } := by
      cases isProper_of_parse? hread with
      | v4 ha hb hc hd hport =>
        rw [hbound, address, ← text_v4]
        exact parse?_text (.v4 ha hb hc hd hport)
    refine ⟨hagain, ?_⟩
    rw [bound_of_some hagain, hbound]
  · have hbound := bound_of_some hread
    have hagain : parse? (bound text).address = none := by
      rw [hbound, address, IpAddress.text]
      exact parse?_unbracketed gs port
    refine ⟨hagain, bound_of_none hagain, ?_⟩
    cases isProper_of_parse? hread with
    | v6 hlength hgs hport hzone =>
      rw [hbound, ← text_v6]
      exact parse?_text (.v6 hlength hgs hport (Nat.zero_le _))

example : (bound "0.0.0.0:8088").address = "0.0.0.0:8088" := by decide +kernel

/-- To bind to the text of a server on the loopback address of IPv6 is to bind somewhere else. -/
theorem bound_loopback :
    parse? "[::1]:80" = some { ip := .v6 [0, 0, 0, 0, 0, 0, 0, 1], port := 80 } ∧
      (bound "[::1]:80").address = "::1:80" ∧ parse? "::1:80" = none ∧
      (bound "::1:80").address = "127.0.0.1:3000" := by
  decide +kernel

end SealedHttp.Settings
