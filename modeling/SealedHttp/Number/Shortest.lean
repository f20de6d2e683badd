import SealedHttp.Number.Double

/-!
# The shortest decimal text of a double

Among the decimals that are read back as the given double, one with the fewest digits is written,
and of those the nearest. Both neighbours of the double on each decimal grid are tried, in exact
arithmetic, for one digit, two digits and so on.
-/

namespace SealedHttp.Double

/-- The numbers that round to a double: four times its magnitude with the bounds of the interval,
all over `den`, and whether the bounds belong to it. -/
structure Interval where
  low : Nat
  value : Nat
  high : Nat
  den : Nat
  closed : Bool

def interval (d : Double) : Interval :=
  let (m, e) := d.parts
  let unit := 1 <<< e
  let below := if m = fractionSpan ∧ 0 < e then 1 else 2
  ⟨(4 * m - below) * unit, 4 * m * unit, (4 * m + 2) * unit, 4 <<< 1074, m % 2 = 0⟩

structure Decimal where
  digits : Nat
  exponent : Int
  deriving DecidableEq, Repr

/-- Numerator of `n / den` over the grid of multiples of `10 ^ k`, and its denominator. -/
def onGrid (n den : Nat) (k : Int) : Nat × Nat :=
  if 0 ≤ k then (n, den * Nat.pow 10 k.toNat) else (n * Nat.pow 10 (-k).toNat, den)

def Interval.holds (i : Interval) (c : Nat) (k : Int) : Bool :=
  let (low, den) := onGrid i.low i.den k
  let (high, _) := onGrid i.high i.den k
  if i.closed then low ≤ c * den && c * den ≤ high else low < c * den && c * den < high

/-- The nearest point of the grid that rounds to the double, if any does. -/
def Interval.onGrid? (i : Interval) (k : Int) : Option Nat :=
  let (value, den) := onGrid i.value i.den k
  let c := value / den
  let r := value % den
  let nearUp := den < 2 * r || (den = 2 * r && c % 2 = 1)
  let first := if nearUp then c + 1 else c
  let second := if nearUp then c else c + 1
  if i.holds first k then some first else if i.holds second k then some second else none

def leading (n den : Nat) : Int :=
  let guess : Int := ((n.log2 : Int) - den.log2 - 1) * 30103 / 100000 - 1
  let reaches (p : Int) : Bool :=
    let (n, den) := onGrid n den p
    den ≤ n
  if reaches (guess + 2) then guess + 2 else if reaches (guess + 1) then guess + 1 else guess

/-- Tries grids of more and more digits below the power `p`. -/
def Interval.search (i : Interval) (p : Int) (tried : Nat) : (left : Nat) → Decimal
  | 0 => ⟨0, 0⟩
  | left + 1 =>
    let k := p - tried
    match i.onGrid? k with
    | some c => ⟨c, k⟩
    | none => i.search p (tried + 1) left

def Decimal.trimmed : (fuel : Nat) → Decimal → Decimal
  | 0, d => d
  | fuel + 1, d =>
    if d.digits ≠ 0 ∧ d.digits % 10 = 0 then Decimal.trimmed fuel ⟨d.digits / 10, d.exponent + 1⟩
    else d

/-- The shortest decimal of a finite double other than zero. Seventeen digits always suffice. -/
def shortest (d : Double) : Decimal :=
  let i := d.interval
  (i.search (leading i.value i.den) 0 18).trimmed 18

/-- How decimals are laid out: positional between two powers of ten, with an exponent elsewhere. -/
structure Layout where
  leastPositional : Int
  greatestPositional : Int

def layout : Layout := ⟨-5, 15⟩

def Decimal.text (l : Layout) (d : Decimal) : String :=
  let digits := (toString d.digits).toList
  let count : Int := digits.length
  let e := d.exponent + count - 1
  let zeros (n : Int) : List Char := List.replicate n.toNat '0'
  String.ofList <|
    if l.leastPositional ≤ e ∧ e ≤ l.greatestPositional then
      if 0 ≤ d.exponent then digits ++ zeros d.exponent ++ ['.', '0']
      else if 0 ≤ e then digits.take (e + 1).toNat ++ ['.'] ++ digits.drop (e + 1).toNat
      else ['0', '.'] ++ zeros (-e - 1) ++ digits
    else
      let mantissa := match digits with
        | [c] => [c]
        | c :: cs => c :: '.' :: cs
        | [] => []
      mantissa ++ ['e', if e < 0 then '-' else '+'] ++ (toString e.natAbs).toList

def text (d : Double) : String :=
  let sign := if d.isNegative then "-" else ""
  sign ++ if d.isZero then "0.0" else (shortest d).text layout

end SealedHttp.Double
