import SealedHttp.Text.Basic

/-!
# Request targets

A target is a path with an optional query, a star, an authority alone, or everything together behind
a scheme. A fragment is dropped. Nothing is decoded: a character that should have been escaped makes
the target invalid, except for some that clients send nevertheless.
-/

namespace SealedHttp

structure Uri where
  scheme : Option String := none
  authority : String := ""
  /-- The path as it was received, which may be empty. -/
  written : String := ""
  query : Option String := none
  deriving DecidableEq, Repr, Inhabited

namespace Uri

def maxLength : Nat := 65534

def maxScheme : Nat := 64

def between (low high : Nat) (c : Char) : Bool := low ≤ c.toNat && c.toNat ≤ high

/-- Characters of a path; the last three should be escaped, but are let through. -/
def isPathChar (c : Char) : Bool :=
  c = '!' || between 0x24 0x3B c || c = '=' || between 0x40 0x5F c || between 0x61 0x7A c ||
    c = '|' || c = '~' || c = '"' || c.toNat = 0x7B || c.toNat = 0x7D

def isQueryChar (c : Char) : Bool :=
  c = '!' || between 0x24 0x3B c || c = '=' || between 0x3F 0x7E c

def isSchemeChar (c : Char) : Bool := c.isAlphanum || c = '+' || c = '-' || c = '.'

def isAuthorityChar (c : Char) : Bool :=
  c.isAlphanum || c = '!' || c = '$' || between 0x26 0x2E c || c = ':' || c = ';' || c = '=' ||
    c = '@' || c = '[' || c = ']' || c = '_' || c = '~'

def endsAuthority (c : Char) : Bool := c = '/' || c = '?' || c = '#'

structure AuthorityState where
  colons : Nat := 0
  opened : Bool := false
  closed : Bool := false
  /-- Whether there is a percent sign outside of brackets and user. -/
  percent : Bool := false
  afterAt : Bool := false

/-- More colons than an address in brackets has. -/
def maxColons : Nat := 8

def AuthorityState.next (s : AuthorityState) (c : Char) : Option AuthorityState :=
  let t := { s with afterAt := false }
  if c = ':' then if maxColons ≤ s.colons then none else some { t with colons := s.colons + 1 }
  else if c = '[' then if s.percent || s.opened then none else some { t with opened := true }
  else if c = ']' then
    if !s.opened || s.closed then none
    else some { t with closed := true, colons := 0, percent := false }
  else if c = '@' then some { t with colons := 0, percent := false, afterAt := true }
  else if c = '%' then some { t with percent := true }
  else if isAuthorityChar c then some t
  else none

def AuthorityState.isFinal (s : AuthorityState) : Bool :=
  s.opened == s.closed && s.colons ≤ 1 && !s.afterAt && !s.percent

def isAuthority (cs : List Char) : Bool :=
  match cs.foldlM AuthorityState.next {} with
  | some s => s.isFinal
  | none => false

def authority? (cs : List Char) : Option (List Char × List Char) :=
  let name := cs.takeWhile fun c => !endsAuthority c
  if isAuthority name then some (name, cs.dropWhile fun c => !endsAuthority c) else none

def pathAndQuery? (cs : List Char) : Option (String × Option String) :=
  let isEnd (c : Char) : Bool := c = '?' || c = '#'
  let path := cs.takeWhile fun c => !isEnd c
  if !path.all isPathChar then none
  else match cs.dropWhile fun c => !isEnd c with
  | '?' :: rest =>
    let query := rest.takeWhile (· ≠ '#')
    if query.all isQueryChar then some (String.ofList path, some (String.ofList query)) else none
  | _ => some (String.ofList path, none)

inductive Start where
  | scheme (name : String) (rest : List Char)
  | other
  | tooLong

def start (cs : List Char) : Start :=
  let lower := cs.map Char.toLower
  if "http://".toList.isPrefixOf lower then .scheme "http" (cs.drop 7)
  else if "https://".toList.isPrefixOf lower then .scheme "https" (cs.drop 8)
  else
    let name := cs.takeWhile isSchemeChar
    match cs.dropWhile isSchemeChar with
    | ':' :: '/' :: '/' :: rest =>
      if cs.length ≤ 3 then .other
      else if maxScheme < name.length then .tooLong
      else .scheme (String.ofList name) rest
    | _ => .other

def parse? (s : String) : Option Uri :=
  if maxLength < s.utf8ByteSize then none
  else match s.toList with
  | [] => none
  | ['*'] => some { written := "*" }
  | '/' :: rest => do
    let (written, query) ← pathAndQuery? ('/' :: rest)
    some { written, query }
  | cs =>
    match start cs with
    | .tooLong => none
    | .other => do
      let (name, rest) ← authority? cs
      if rest.isEmpty then some { authority := String.ofList name } else none
    | .scheme scheme rest => do
      let (name, rest) ← authority? rest
      if name.isEmpty then none
      else
        let (written, query) ← pathAndQuery? rest
        some { scheme := some scheme, authority := String.ofList name, written, query }

/-- The path of a target: behind a scheme at least a slash, and nothing for an authority alone. -/
def path (u : Uri) : String :=
  if !u.written.isEmpty then u.written
  else if u.scheme.isSome || u.query.isSome then "/"
  else ""

def text (u : Uri) : String :=
  let scheme := match u.scheme with
    | some name => name ++ "://"
    | none => ""
  let query := match u.query with
    | some q => "?" ++ q
    | none => ""
  scheme ++ u.authority ++ u.path ++ query

def root : Uri := { written := "/" }

end Uri
end SealedHttp
