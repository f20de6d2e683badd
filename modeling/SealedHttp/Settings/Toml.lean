import SealedHttp.Settings.Setting

/-!
# Reading TOML

A document is a list of keys with values, in tables. Only the outline of lists and tables is kept,
since no setting is one; they are read in full nevertheless, so that a fault anywhere is noticed.
-/

namespace SealedHttp.Toml

abbrev Reader (α : Type) := List Char → Option (α × List Char)

def isSpace (c : Char) : Bool := c = ' ' || c = '\t'

def skipSpaces (cs : List Char) : List Char := cs.dropWhile isSpace

def skipComment : List Char → List Char
  | '#' :: cs => cs.dropWhile (· ≠ '\n')
  | cs => cs

/-- Drops blanks, comments and line ends, at most `fuel` lines of them. -/
def skipLines : (fuel : Nat) → List Char → List Char
  | 0, cs => cs
  | fuel + 1, cs =>
    match skipComment (skipSpaces cs) with
    | '\n' :: rest => skipLines fuel rest
    | rest => rest

def skipBlanks (cs : List Char) : List Char := skipLines cs.length cs

def isBareChar (c : Char) : Bool := c.isAlphanum || c = '_' || c = '-'

def hexValue? (c : Char) : Option Nat :=
  if c.isDigit then some (c.toNat - 48)
  else if 97 ≤ c.toLower.toNat && c.toLower.toNat ≤ 102 then some (c.toLower.toNat - 87)
  else none

def codePoint (n : Nat) : Reader Char := fun cs => do
  let ds := cs.take n
  if ds.length ≠ n then none
  let code ← ds.foldlM (fun k c => (hexValue? c).map (16 * k + ·)) 0
  if code.isValidChar then some (Char.ofNat code, cs.drop n) else none

def escape : Reader Char
  | 'b' :: cs => some (Char.ofNat 8, cs)
  | 't' :: cs => some ('\t', cs)
  | 'n' :: cs => some ('\n', cs)
  | 'f' :: cs => some (Char.ofNat 12, cs)
  | 'r' :: cs => some ('\r', cs)
  | '"' :: cs => some ('"', cs)
  | '\\' :: cs => some ('\\', cs)
  | 'u' :: cs => codePoint 4 cs
  | 'U' :: cs => codePoint 8 cs
  | _ => none

def isPlain (c : Char) : Bool := c = '\t' || (0x20 ≤ c.toNat && c.toNat ≠ 0x7F)

def apostrophe : Char := Char.ofNat 0x27

/-- The quotes around texts. Double quotes allow for escapes, threefold ones for several lines. -/
structure Quotes where
  mark : Char
  threefold : Bool

def Quotes.closes? (q : Quotes) (cs : List Char) : Option (List Char) :=
  let marks := if q.threefold then [q.mark, q.mark, q.mark] else [q.mark]
  if marks.isPrefixOf cs then some (cs.drop marks.length) else none

def continued? (cs : List Char) : Option (List Char) :=
  match skipSpaces cs with
  | '\n' :: rest => some (rest.dropWhile fun c => isSpace c || c = '\n')
  | _ => none

/-- Reads a text up to its closing quotes; `done` holds the characters so far, last first. -/
def quotedFrom (q : Quotes) : (fuel : Nat) → (done : List Char) → Reader String
  | 0, _, _ => none
  | fuel + 1, done, cs =>
    match q.closes? cs with
    | some rest => some (String.ofList done.reverse, rest)
    | none =>
      match cs with
      | [] => none
      | c :: rest =>
        if c = '\\' && q.mark = '"' then
          match if q.threefold then continued? rest else none with
          | some rest => quotedFrom q fuel done rest
          | none =>
            match escape rest with
            | some (c, rest) => quotedFrom q fuel (c :: done) rest
            | none => none
        else if isPlain c || (c = '\n' && q.threefold) then quotedFrom q fuel (c :: done) rest
        else none

def lineQuoted (mark : Char) : Reader String := fun cs =>
  quotedFrom ⟨mark, false⟩ (cs.length + 1) [] cs

def quoted : Reader String
  | c :: cs =>
    if c ≠ '"' && c ≠ apostrophe then none
    else if [c, c].isPrefixOf cs then
      let cs := cs.drop 2
      let cs := match cs with
        | '\n' :: rest => rest
        | _ => cs
      quotedFrom ⟨c, true⟩ (cs.length + 1) [] cs
    else lineQuoted c cs
  | [] => none

def keyPart : Reader String
  | c :: cs =>
    if c = '"' || c = apostrophe then lineQuoted c cs
    else
      let name := (c :: cs).takeWhile isBareChar
      if name.isEmpty then none else some (String.ofList name, (c :: cs).dropWhile isBareChar)
  | [] => none

def keyParts : (fuel : Nat) → Reader (List String)
  | 0, _ => none
  | fuel + 1, cs => do
    let (part, rest) ← keyPart cs
    match skipSpaces rest with
    | '.' :: rest => do
      let (parts, rest) ← keyParts fuel (skipSpaces rest)
      some (part :: parts, rest)
    | rest => some ([part], rest)

def key : Reader (List String) := fun cs => keyParts (cs.length + 1) cs

/-- Digits with underscores between them, less the underscores. -/
def plainDigits? (isDigit : Char → Bool) (cs : List Char) : Option (List Char) :=
  let groups := Text.splitOn '_' cs
  if groups.all fun g => !g.isEmpty && g.all isDigit then some groups.flatten else none

def digitsValue (base : Nat) (ds : List Char) : Nat :=
  ds.foldl (fun n c => base * n + (hexValue? c).getD 0) 0

def decimal? (cs : List Char) : Option (List Char) := do
  let ds ← plainDigits? Char.isDigit cs
  if ds.head? = some '0' && 1 < ds.length then none else some ds

def whole? (n : Int) : Option Setting :=
  if -Decimal.halfWord ≤ n ∧ n < Decimal.halfWord then some (.whole n) else none

def sign : List Char → Bool × List Char
  | '-' :: cs => (true, cs)
  | '+' :: cs => (false, cs)
  | cs => (false, cs)

def integer? (cs : List Char) : Option Setting :=
  let based (base : Nat) (ds : List Char) : Option Setting := do
    let isDigit (c : Char) : Bool := ((hexValue? c).map (decide <| · < base)).getD false
    whole? (digitsValue base (← plainDigits? isDigit ds))
  match cs with
  | '0' :: 'x' :: ds => based 16 ds
  | '0' :: 'o' :: ds => based 8 ds
  | '0' :: 'b' :: ds => based 2 ds
  | _ => do
    let (negative, ds) := sign cs
    let n : Int := digitsValue 10 (← decimal? ds)
    whole? (if negative then -n else n)

/-- An exponent of this size makes every number zero or too large. -/
def hugeExponent : Nat := 100000

def double? (negative : Bool) (n : Nat) (e : Int) : Option Setting :=
  let d :=
    if n = 0 then Double.ofRatio negative 0 1
    else if hugeExponent < e then Double.ofMagnitude negative Double.infinityBits
    else if e < -hugeExponent then Double.ofRatio negative 0 1
    else if 0 ≤ e then Double.ofRatio negative (n * Nat.pow 10 e.toNat) 1
    else Double.ofRatio negative n (Nat.pow 10 (-e).toNat)
  if d.isFinite then some (.fraction d) else none

def fraction? (cs : List Char) : Option Setting :=
  let (negative, cs) := sign cs
  if cs = "inf".toList then
    some (.fraction (Double.ofMagnitude negative Double.infinityBits))
  else if cs = "nan".toList then
    some (.fraction (Double.ofMagnitude negative (Double.infinityBits + 1)))
  else do
    let isE (c : Char) : Bool := c = 'e' || c = 'E'
    let mantissa := cs.takeWhile (!isE ·)
    let behind := cs.dropWhile (!isE ·)
    let front ← decimal? (mantissa.takeWhile (· ≠ '.'))
    let places ← match mantissa.dropWhile (· ≠ '.') with
      | [] => some []
      | _ :: ds => plainDigits? Char.isDigit ds
    let e : Int ← match behind with
      | [] => some 0
      | _ :: ds =>
        let (down, ds) := sign ds
        (plainDigits? Char.isDigit ds).map fun ds =>
          let e : Int := digitsValue 10 ds
          if down then -e else e
    double? negative (digitsValue 10 (front ++ places)) (e - places.length)

def isMoment (cs : List Char) : Bool :=
  let (front, rest) := (cs.takeWhile Char.isDigit, cs.dropWhile Char.isDigit)
  (front.length = 4 && rest.head? = some '-' && 6 ≤ rest.length) ||
    (front.length = 2 && rest.head? = some ':' && 6 ≤ rest.length)

def isWordChar (c : Char) : Bool := isBareChar c || c = '+' || c = '.' || c = ':'

def word : Reader Setting := fun cs =>
  let w := cs.takeWhile isWordChar
  let rest := cs.dropWhile isWordChar
  let v :=
    if w = "true".toList then some (.flag true)
    else if w = "false".toList then some (.flag false)
    else if isMoment w then some (.text (String.ofList w))
    else (integer? w).or (fraction? w)
  v.map (·, rest)

mutual

def value : (fuel : Nat) → Reader Setting
  | 0, _ => none
  | fuel + 1, cs =>
    match cs with
    | [] => none
    | '[' :: rest => (items fuel rest).map (.compound, ·)
    | c :: rest =>
      if c.toNat = 0x7B then (fields fuel true [] rest).map (.compound, ·)
      else if c = '"' || c = apostrophe then
        (quoted (c :: rest)).map fun (s, rest) => (.text s, rest)
      else word (c :: rest)

def items : (fuel : Nat) → List Char → Option (List Char)
  | 0, _ => none
  | fuel + 1, cs =>
    match skipBlanks cs with
    | ']' :: rest => some rest
    | cs =>
      match value fuel cs with
      | none => none
      | some (_, rest) =>
        match skipBlanks rest with
        | ',' :: rest => items fuel rest
        | ']' :: rest => some rest
        | _ => none

def fields : (fuel : Nat) → (first : Bool) → (keys : List (List String)) → List Char →
    Option (List Char)
  | 0, _, _, _ => none
  | fuel + 1, first, keys, cs =>
    match skipSpaces cs with
    | [] => none
    | c :: rest =>
      if first && c.toNat = 0x7D then some rest
      else
        match key (c :: rest) with
        | none => none
        | some (k, rest) =>
          match skipSpaces rest with
          | '=' :: rest =>
            match value fuel (skipSpaces rest) with
            | none => none
            | some (_, rest) =>
              if keys.contains k then none
              else match skipSpaces rest with
              | ',' :: rest => fields fuel false (k :: keys) rest
              | c :: rest => if c.toNat = 0x7D then some rest else none
              | [] => none
          | _ => none

end

inductive Binding where
  | value (v : Setting)
  | table
  /-- A table that comes about by keys with several parts. -/
  | dotted
  | tables
  deriving DecidableEq

/-- A document as far as it was read: what its paths lead to, and the path of the current table. -/
structure Document where
  bindings : List (List String × Binding) := []
  current : List String := []

def Document.find? (d : Document) (path : List String) : Option Binding := d.bindings.lookup path

def beginnings (path : List String) : List (List String) :=
  (List.range path.length).filterMap fun n => if n = 0 then none else some (path.take n)

def Document.addValue (d : Document) (k : List String) (v : Setting) : Option Document :=
  let path := d.current ++ k
  let between := (beginnings k).map (d.current ++ ·)
  if (d.find? path).isSome then none
  else if between.any fun p => (d.find? p).any (· ≠ .dotted) then none
  else
    let fresh := between.filter fun p => (d.find? p).isNone
    some { d with bindings := d.bindings ++ fresh.map (·, .dotted) ++ [(path, .value v)] }

def Document.isValue (d : Document) (path : List String) : Bool :=
  match d.find? path with
  | some (.value _) => true
  | _ => false

def Document.beginTable (d : Document) (path : List String) : Option Document :=
  if (beginnings path).any d.isValue then none
  else match d.find? path with
  | none => some { bindings := d.bindings ++ [(path, .table)], current := path }
  | some _ => none

/-- Begins a further table of a list; what was said of the one before no longer counts. -/
def Document.beginItem (d : Document) (path : List String) : Option Document :=
  if (beginnings path).any d.isValue then none
  else match d.find? path with
  | none => some { bindings := d.bindings ++ [(path, .tables)], current := path }
  | some .tables =>
    let kept := d.bindings.filter fun (p, _) => p = path || !path.isPrefixOf p
    some { bindings := kept, current := path }
  | some _ => none

def lineEnd? (cs : List Char) : Option (List Char) :=
  match skipComment (skipSpaces cs) with
  | [] => some []
  | '\n' :: rest => some rest
  | _ => none

def statement (d : Document) (cs : List Char) : Option (Document × List Char) :=
  match cs with
  | '[' :: '[' :: rest => do
    let (path, rest) ← key (skipSpaces rest)
    match skipSpaces rest with
    | ']' :: ']' :: rest => some (← d.beginItem path, ← lineEnd? rest)
    | _ => none
  | '[' :: rest => do
    let (path, rest) ← key (skipSpaces rest)
    match skipSpaces rest with
    | ']' :: rest => some (← d.beginTable path, ← lineEnd? rest)
    | _ => none
  | _ => do
    let (k, rest) ← key cs
    match skipSpaces rest with
    | '=' :: rest => do
      let (v, rest) ← value (2 * rest.length + 2) (skipSpaces rest)
      some (← d.addValue k v, ← lineEnd? rest)
    | _ => none

def statements : (fuel : Nat) → Document → List Char → Option Document
  | 0, _, _ => none
  | fuel + 1, d, cs =>
    match skipBlanks cs with
    | [] => some d
    | cs =>
      match statement d cs with
      | none => none
      | some (d, rest) => statements fuel d rest

def unifyLineEnds : List Char → List Char
  | '\r' :: '\n' :: cs => '\n' :: unifyLineEnds cs
  | c :: cs => c :: unifyLineEnds cs
  | [] => []

def Document.settings (d : Document) : List (String × Setting) :=
  d.bindings.filterMap fun
    | ([k], .value v) => some (k, v)
    | ([k], _) => some (k, .compound)
    | (k :: _, .table) => some (k, .compound)
    | (k :: _, .tables) => some (k, .compound)
    | _ => none

def dropOrderMark : List Char → List Char
  | c :: cs => if c.toNat = 0xFEFF then cs else c :: cs
  | [] => []

def settings? (text : String) : Option (List (String × Setting)) :=
  let cs := unifyLineEnds (dropOrderMark text.toList)
  (statements (cs.length + 1) {} cs).map Document.settings

end SealedHttp.Toml
