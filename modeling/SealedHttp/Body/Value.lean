import SealedHttp.Number.Double
import SealedHttp.Text.Utf8

/-!
# Structured values

The values that JSON and CBOR bodies have in common. The fields of an object are in the order of
their names, and a name occurs once.
-/

namespace SealedHttp

/-- A structured value. Integers reach from `-2 ^ 63` to `2 ^ 64 - 1`; doubles are finite. -/
inductive Value where
  | null
  | bool (b : Bool)
  | int (n : Int)
  | double (d : Double)
  | text (s : String)
  | array (items : List Value)
  | object (fields : List (String × Value))
  deriving Inhabited, Repr

/-- Puts a field where its name belongs; an earlier field of that name gives way. -/
def Value.insertField (name : String) (v : Value) : List (String × Value) → List (String × Value)
  | [] => [(name, v)]
  | (n, w) :: rest =>
    if name < n then (name, v) :: (n, w) :: rest
    else if name = n then (name, v) :: rest
    else (n, w) :: insertField name v rest

/-- The object with the given fields, of which the last one of each name counts. -/
def Value.ofFields (fields : List (String × Value)) : Value :=
  .object (fields.foldl (fun out (name, v) => insertField name v out) [])

inductive Shape where
  | any
  | smallIntegers
  deriving DecidableEq, Repr

def isSmallInteger (n : Int) : Bool := -2147483648 ≤ n && n ≤ 2147483647

end SealedHttp
