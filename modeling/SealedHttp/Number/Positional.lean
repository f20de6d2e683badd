import SealedHttp.Number.Shortest

/-!
# Doubles without exponents

The shortest digits of a double, with as many zeros as it takes to do without an exponent, and the
nearest natural number.
-/

namespace SealedHttp.Double

def Decimal.positional (d : Decimal) : String :=
  let digits := (toString d.digits).toList
  let e := d.exponent + digits.length
  let zeros (n : Int) : List Char := List.replicate n.toNat '0'
  String.ofList <|
    if 0 ≤ d.exponent then digits ++ zeros d.exponent
    else if 0 < e then digits.take e.toNat ++ '.' :: digits.drop e.toNat
    else '0' :: '.' :: zeros (-e) ++ digits

def positional (d : Double) : String :=
  if infinityBits < d.magnitude then "NaN"
  else
    let sign := if d.isNegative then "-" else ""
    sign ++
      if d.magnitude = infinityBits then "inf"
      else if d.isZero then "0"
      else (shortest d).positional

/-- The nearest natural number of at most `max`; a half goes up, and what is no number is zero. -/
def toNatWithin (max : Nat) (d : Double) : Nat :=
  if d.isNegative || infinityBits < d.magnitude then 0
  else if d.magnitude = infinityBits then max
  else
    let (num, den) := d.toRatio
    min max ((2 * num + den) / (2 * den))

end SealedHttp.Double
