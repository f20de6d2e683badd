import SealedHttp.Bytes

/-!
# Blanks, letter case and decimals

Two different notions of "blank" occur in header processing: the Unicode property `White_Space`,
used wherever a text is trimmed, and the visible characters that a header text may consist of.

Unsigned decimals are digits with an optional plus sign and leading zeros, and nothing else, below a
bound that is part of the question.
-/

namespace SealedHttp.Text

/-- The Unicode property `White_Space`. -/
def isBlank (c : Char) : Bool :=
  let n := c.toNat
  (9 ≤ n && n ≤ 13) || n == 0x20 || n == 0x85 || n == 0xA0 || n == 0x1680 ||
    (0x2000 ≤ n && n ≤ 0x200A) || n == 0x2028 || n == 0x2029 || n == 0x202F || n == 0x205F ||
    n == 0x3000

def trimList (cs : List Char) : List Char :=
  ((cs.dropWhile isBlank).reverse.dropWhile isBlank).reverse

def trim (s : String) : String :=
  String.ofList (trimList s.toList)

def lowerAscii (s : String) : String :=
  String.ofList (s.toList.map Char.toLower)

def eqIgnoreCase (s t : String) : Bool :=
  s.toList.map Char.toLower == t.toList.map Char.toLower

def isVisible (b : UInt8) : Bool :=
  (0x20 ≤ b && b < 0x7F) || b == 9

/-- The pieces of a text between the separators `sep`; there is always at least one. -/
def splitOn (sep : Char) : List Char → List (List Char)
  | [] => [[]]
  | c :: cs =>
    match splitOn sep cs with
    | [] => [[c]]
    | piece :: pieces => if c = sep then [] :: piece :: pieces else (c :: piece) :: pieces

/-- Whether `pat` occurs in `cs` as a run of consecutive characters, and what follows the first
such run. -/
def after? (pat : List Char) : List Char → Option (List Char)
  | [] => if pat.isEmpty then some [] else none
  | c :: cs =>
    if pat.isPrefixOf (c :: cs) then some ((c :: cs).drop pat.length) else after? pat cs

end SealedHttp.Text

namespace SealedHttp.Decimal

/-- The value of a run of ASCII digits, `none` when another character occurs. -/
def digits? (cs : List Char) : Option Nat :=
  cs.foldlM (fun n c => if c.isDigit then some (10 * n + (c.toNat - 48)) else none) 0

/-- Reads a number of at most `max`: at least one digit, at most one leading plus sign. -/
def read? (max : Nat) (cs : List Char) : Option Nat :=
  let ds := match cs with
    | '+' :: rest => rest
    | _ => cs
  if ds.isEmpty then none else (digits? ds).filter (· ≤ max)

def maxWord : Nat := 0xFFFFFFFFFFFFFFFF

def halfWord : Nat := 0x8000000000000000

end SealedHttp.Decimal
