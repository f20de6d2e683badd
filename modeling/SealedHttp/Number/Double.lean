/-!
# Double precision

A double is its 64 bits: sign, eleven bits of exponent, 52 bits of fraction. Rounding is done once,
from an exact ratio of naturals, to the nearest double and to the even one of two.
-/

namespace SealedHttp

structure Double where
  bits : UInt64
  deriving DecidableEq, Repr, Inhabited

namespace Double

def fractionSpan : Nat := 0x10000000000000

def signBit : Nat := 0x8000000000000000

def ofMagnitude (negative : Bool) (magnitude : Nat) : Double :=
  ⟨UInt64.ofNat (magnitude + if negative then signBit else 0)⟩

def magnitude (d : Double) : Nat := d.bits.toNat % signBit

def isNegative (d : Double) : Bool := signBit ≤ d.bits.toNat

def infinityBits : Nat := 2047 * fractionSpan

def isFinite (d : Double) : Bool := d.magnitude < infinityBits

def isZero (d : Double) : Bool := d.magnitude = 0

/-- The magnitude of a finite double is `m * 2 ^ (e - 1074)` for the pair `(m, e)`. -/
def parts (d : Double) : Nat × Nat :=
  let fraction := d.magnitude % fractionSpan
  let exponent := d.magnitude / fractionSpan
  if exponent = 0 then (fraction, 0) else (fraction + fractionSpan, exponent - 1)

def toRatio (d : Double) : Nat × Nat :=
  let (m, e) := d.parts
  (m <<< e, 1 <<< 1074)

/-- The quotient rounded to the nearest integer, a tie to the even one. -/
def roundDiv (num den : Nat) : Nat :=
  let q := num / den
  let r := num % den
  if 2 * r < den then q
  else if den < 2 * r then q + 1
  else if q % 2 = 0 then q
  else q + 1

/-- The double nearest to `num / den`, infinity when that is too large. -/
def ofRatio (negative : Bool) (num den : Nat) : Double :=
  if num = 0 then ofMagnitude negative 0
  else
    let num := num <<< 1074
    -- the ratio lies between `2 ^ (k - 1)` and `2 ^ (k + 1)`
    let k := num.log2 - den.log2
    let guess := k - 52
    let e := if num / den < 1 <<< (guess + 52) then guess - 1 else guess
    let m := roundDiv num (den <<< e)
    ofMagnitude negative (min infinityBits (e * fractionSpan + m))

def ofNat (n : Nat) : Double := ofRatio false n 1

def neg (d : Double) : Double := ofMagnitude (!d.isNegative) d.magnitude

def mulMagnitude (a b : Double) : Double :=
  let (n₁, d₁) := a.toRatio
  let (n₂, d₂) := b.toRatio
  ofRatio false (n₁ * n₂) (d₁ * d₂)

def divMagnitude (a b : Double) : Double :=
  let (n₁, d₁) := a.toRatio
  let (n₂, d₂) := b.toRatio
  ofRatio false (n₁ * d₂) (d₁ * n₂)

def powTen (n : Nat) : Double := ofNat (Nat.pow 10 n)

/-- A shorter format with `eb` bits of exponent and `fb` bits of fraction. -/
structure Short where
  eb : Nat
  fb : Nat

def half : Short := ⟨5, 10⟩

def single : Short := ⟨8, 23⟩

namespace Short

def bias (f : Short) : Nat := (1 <<< (f.eb - 1)) - 1

/-- Reads a number of a shorter format; numbers of the format are doubles, too. -/
def widen (f : Short) (bits : Nat) : Double :=
  let fraction := bits % (1 <<< f.fb)
  let exponent := (bits >>> f.fb) % (1 <<< f.eb)
  let negative := (bits >>> (f.fb + f.eb)) % 2 = 1
  if exponent = (1 <<< f.eb) - 1 then
    ofMagnitude negative (infinityBits + if fraction = 0 then 0 else 1)
  else
    let (m, e) := if exponent = 0 then (fraction, 1) else (fraction + (1 <<< f.fb), exponent)
    ofRatio negative (m <<< e) (1 <<< (f.bias + f.fb))

def narrow? (f : Short) (d : Double) : Option Nat :=
  let (num, den) := d.toRatio
  -- in units of the least positive number of the format
  let scaled := num <<< (f.bias + f.fb - 1)
  if scaled % den ≠ 0 then none
  else
    let n := scaled / den
    let e := n.log2 - f.fb
    if n % (1 <<< e) ≠ 0 then none
    else
      let bits := (e <<< f.fb) + (n >>> e)
      if ((1 <<< f.eb) - 1) <<< f.fb ≤ bits then none
      else some (bits + if d.isNegative then 1 <<< (f.fb + f.eb) else 0)

end Short
end Double
end SealedHttp
