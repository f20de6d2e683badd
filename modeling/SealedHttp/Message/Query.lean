import SealedHttp.Text.Hex
import SealedHttp.Text.Utf8

/-!
# Query parameters

The form encoding of names and values: pairs are separated by ampersands, a plus sign is a space,
and two hexadecimal digits behind a percent sign are a byte. What is not well formed stays as it is.
-/

namespace SealedHttp.Query

def escaped? (a b : UInt8) : Option UInt8 := do
  some (UInt8.ofNat (16 * (← Hex.value? a) + (← Hex.value? b)))

def unescape : Bytes → Bytes
  | [] => []
  | 37 :: a :: b :: rest =>
    match escaped? a b with
    | some byte => byte :: unescape rest
    | none => 37 :: unescape (a :: b :: rest)
  | c :: rest => (if c = 43 then 32 else c) :: unescape rest

def splitOn (sep : UInt8) : Bytes → List Bytes
  | [] => [[]]
  | b :: bs =>
    match splitOn sep bs with
    | [] => [[b]]
    | piece :: pieces => if b = sep then [] :: piece :: pieces else (b :: piece) :: pieces

def pair (piece : Bytes) : String × String :=
  let name := piece.takeWhile (· ≠ 61)
  let value := (piece.dropWhile (· ≠ 61)).drop 1
  (Utf8.decodeLossy (unescape name), Utf8.decodeLossy (unescape value))

def pairs (query : String) : List (String × String) :=
  ((splitOn 38 (Bytes.ofText query)).filter (!·.isEmpty)).map pair

/-- Adds a value to the list of its name; a new name comes last. -/
def addValue (name value : String) : List (String × List String) → List (String × List String)
  | [] => [(name, [value])]
  | (n, values) :: rest =>
    if n = name then (n, values ++ [value]) :: rest else (n, values) :: addValue name value rest

def grouped (query : String) : List (String × List String) :=
  (pairs query).foldl (fun out (name, value) => addValue name value out) []

end SealedHttp.Query
