import SealedHttp.Text.Basic

/-!
# Network addresses

IPv4 addresses are four decimal numbers without leading zeros. IPv6 addresses are groups of up to
four hexadecimal digits, of which one run of zeros may be left out, and of which the last two may be
an IPv4 address. They are written in lower case, with the first of the longest runs of at least two
zeros left out.
-/

namespace SealedHttp

/-- An IP address: four bytes or eight groups of 16 bits. -/
inductive IpAddress where
  | v4 (a b c d : Nat)
  | v6 (groups : List Nat)
  deriving DecidableEq, Repr, Inhabited

structure SocketAddress where
  ip : IpAddress
  port : Nat
  zone : Nat := 0
  deriving DecidableEq, Repr, Inhabited

namespace Address

/-- A reader of the beginning of a text; gives what it read and what follows. -/
abbrev Reader (α : Type) := List Char → Option (α × List Char)

def char (c : Char) : Reader Unit
  | d :: rest => if c = d then some ((), rest) else none
  | [] => none

def hexValue (c : Char) : Nat :=
  if c.isDigit then c.toNat - 48 else c.toLower.toNat - 87

def isHexDigit (c : Char) : Bool :=
  c.isDigit || (97 ≤ c.toLower.toNat && c.toLower.toNat ≤ 102)

/-- Reads a decimal number of at most `max`, with leading zeros if `zeros` allows. -/
def decimal (max : Nat) (zeros : Bool) : Reader Nat := fun cs =>
  let ds := cs.takeWhile Char.isDigit
  if !zeros && ds.head? = some '0' && 1 < ds.length then none
  else (Decimal.read? max ds).map (·, cs.dropWhile Char.isDigit)

def group : Reader Nat := fun cs =>
  let ds := cs.takeWhile isHexDigit
  if ds.isEmpty || 4 < ds.length then none
  else some (ds.foldl (fun n c => 16 * n + hexValue c) 0, cs.dropWhile isHexDigit)

def ipv4 : Reader (Nat × Nat × Nat × Nat) := fun cs => do
  let (a, cs) ← decimal 255 false cs
  let ((), cs) ← char '.' cs
  let (b, cs) ← decimal 255 false cs
  let ((), cs) ← char '.' cs
  let (c, cs) ← decimal 255 false cs
  let ((), cs) ← char '.' cs
  let (d, cs) ← decimal 255 false cs
  some ((a, b, c, d), cs)

/-- Reads a colon in front of everything but the first group. -/
def separated {α : Type} (first : Bool) (read : Reader α) : Reader α := fun cs =>
  if first then read cs else (char ':' cs).bind fun (_, cs) => read cs

/-- Reads at most `limit` groups; tells whether they end with an IPv4 address. -/
def groups : (limit : Nat) → (first : Bool) → List Char → (List Nat × Bool) × List Char
  | 0, _, cs => (([], false), cs)
  | limit + 1, first, cs =>
    match if limit = 0 then none else separated first ipv4 cs with
    | some ((a, b, c, d), rest) => (([256 * a + b, 256 * c + d], true), rest)
    | none =>
      match separated first group cs with
      | some (g, rest) =>
        let ((gs, mixed), rest) := groups limit false rest
        ((g :: gs, mixed), rest)
      | none => (([], false), cs)

def ipv6 : Reader (List Nat) := fun cs =>
  let ((front, mixed), rest) := groups 8 true cs
  if front.length = 8 then some (front, rest)
  else if mixed then none
  else do
    let ((), rest) ← char ':' rest
    let ((), rest) ← char ':' rest
    let ((back, _), rest) := groups (7 - front.length) true rest
    some (front ++ List.replicate (8 - front.length - back.length) 0 ++ back, rest)

def port : Reader Nat := fun cs => do
  let ((), cs) ← char ':' cs
  decimal 65535 true cs

def socketV4 : Reader SocketAddress := fun cs => do
  let ((a, b, c, d), cs) ← ipv4 cs
  let (p, cs) ← port cs
  some ({ ip := .v4 a b c d, port := p }, cs)

def socketV6 : Reader SocketAddress := fun cs => do
  let ((), cs) ← char '[' cs
  let (gs, cs) ← ipv6 cs
  let (zone, cs) := match (char '%' cs).bind fun (_, cs) => decimal 4294967295 true cs with
    | some p => p
    | none => (0, cs)
  let ((), cs) ← char ']' cs
  let (p, cs) ← port cs
  some ({ ip := .v6 gs, port := p, zone }, cs)

def groupsText (gs : List Nat) : String :=
  ":".intercalate (gs.map fun g => String.ofList (Nat.toDigits 16 g))

def zeros (gs : List Nat) : Nat := (gs.takeWhile (· = 0)).length

/-- Where the first of the longest runs of zeros begins, and its length. -/
def longestZeros : List Nat → Nat × Nat
  | [] => (0, 0)
  | g :: gs =>
    let (start, length) := longestZeros gs
    if zeros (g :: gs) ≠ 0 ∧ length ≤ zeros (g :: gs) then (0, zeros (g :: gs))
    else (start + 1, length)

end Address

namespace IpAddress

def v6Text (gs : List Nat) : String :=
  match gs with
  | [0, 0, 0, 0, 0, 0xFFFF, a, b] => s!"::ffff:{a / 256}.{a % 256}.{b / 256}.{b % 256}"
  | _ =>
    let (start, length) := Address.longestZeros gs
    if length ≤ 1 then Address.groupsText gs
    else Address.groupsText (gs.take start) ++ "::" ++ Address.groupsText (gs.drop (start + length))

def text : IpAddress → String
  | v4 a b c d => s!"{a}.{b}.{c}.{d}"
  | v6 gs => v6Text gs

end IpAddress

namespace SocketAddress

def parse? (s : String) : Option SocketAddress :=
  match (Address.socketV4 s.toList).or (Address.socketV6 s.toList) with
  | some (a, []) => some a
  | _ => none

def text (a : SocketAddress) : String :=
  match a.ip with
  | .v4 _ _ _ _ => s!"{a.ip.text}:{a.port}"
  | .v6 _ => if a.zone = 0 then s!"[{a.ip.text}]:{a.port}" else s!"[{a.ip.text}%{a.zone}]:{a.port}"

end SocketAddress
end SealedHttp
