import SealedHttp.Body.CborHead

/-!
# Writing CBOR

Lengths are definite, integers and doubles take the shortest form that is exact, and the fields of
an object come in the order of their names.
-/

namespace SealedHttp.Value

/-- The shortest exact form of a double. -/
def cborDouble (d : Double) : Bytes :=
  match Double.half.narrow? d, Double.single.narrow? d with
  | some n, _ => 0xF9 :: Bytes.ofNat n 2
  | none, some n => 0xFA :: Bytes.ofNat n 4
  | none, none => 0xFB :: Bytes.ofNat d.bits.toNat 8

def cborInt : Int → Bytes
  | .ofNat n => Cbor.write 0 n
  | .negSucc n => Cbor.write 1 n

def cborString (s : String) : Bytes :=
  let bs := Bytes.ofText s
  Cbor.write 3 bs.length ++ bs

mutual

def toCbor : Value → Bytes
  | null => [0xF6]
  | bool false => [0xF4]
  | bool true => [0xF5]
  | int n => cborInt n
  | double d => cborDouble d
  | text s => cborString s
  | array items => Cbor.write 4 items.length ++ cborItems items
  | object fields => Cbor.write 5 fields.length ++ cborFields fields

def cborItems : List Value → Bytes
  | [] => []
  | v :: rest => toCbor v ++ cborItems rest

def cborFields : List (String × Value) → Bytes
  | [] => []
  | (name, v) :: rest => cborString name ++ toCbor v ++ cborFields rest

end

end SealedHttp.Value
