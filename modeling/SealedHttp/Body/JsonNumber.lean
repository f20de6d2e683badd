import SealedHttp.Body.JsonError
import SealedHttp.Body.Value

/-!
# Reading JSON numbers

Integers that fit 64 bits stay integers; everything else, minus zero included, becomes a double. The
digits that fit 64 bits are scaled by one power of ten, with one rounding for each of the two; the
digits behind them only count as zeros.
-/

namespace SealedHttp.Json

def digit? (b : UInt8) : Option Nat := if 48 ≤ b ∧ b ≤ 57 then some (b.toNat - 48) else none

def maxSignificand : Nat := 0xFFFFFFFFFFFFFFFF

def dropDigits (bs : Bytes) : Bytes := bs.dropWhile fun b => (digit? b).isSome

/-- Appends digits to a significand as long as they fit; gives what is left. -/
def digits (significand : Nat) : Bytes → Nat × Bytes
  | [] => (significand, [])
  | b :: rest =>
    match digit? b with
    | none => (significand, b :: rest)
    | some d =>
      if 10 * significand + d ≤ maxSignificand then digits (10 * significand + d) rest
      else (significand, b :: rest)

/-- The double `significand * 10 ^ exponent`; `none` when that is too large. -/
def scaled? (negative : Bool) (f : Double) (exponent : Int) : Option Double :=
  let sign (d : Double) : Double := if negative then d.neg else d
  if h : exponent < -308 then
    if f.isZero then some (sign f)
    else scaled? negative (f.divMagnitude (Double.powTen 308)) (exponent + 308)
  else if exponent < 0 then some (sign (f.divMagnitude (Double.powTen (-exponent).toNat)))
  else if exponent ≤ 308 then
    let product := f.mulMagnitude (Double.powTen exponent.toNat)
    if product.isFinite then some (sign product) else none
  else if f.isZero then some (sign f)
  else none
termination_by exponent.natAbs
decreasing_by omega

def finish (negative : Bool) (significand : Nat) (exponent : Int) (rest : Bytes) :
    Except Fault (Value × Bytes) :=
  match scaled? negative (Double.ofNat significand) exponent with
  | some d => .ok (.double d, rest)
  | none => .error (.here .numberOutOfRange rest)

def maxExponent : Nat := 0x7FFFFFFF

def exponentValue (e : Nat) : List UInt8 → Option Nat
  | [] => some e
  | b :: rest =>
    let e := 10 * e + (b.toNat - 48)
    if maxExponent < e then none else exponentValue e rest

def exponent (negative : Bool) (significand : Nat) (start : Int) (bs : Bytes) :
    Except Fault (Value × Bytes) :=
  let (down, bs) := match bs with
    | 43 :: rest => (false, rest)
    | 45 :: rest => (true, rest)
    | _ => (false, bs)
  match bs with
  | [] => .error (.here .eofInValue [])
  | b :: behind =>
    if (digit? b).isNone then .error (.here .invalidNumber behind)
    else
      let digits := bs.takeWhile fun b => (digit? b).isSome
      let rest := bs.drop digits.length
      match exponentValue 0 digits with
      | some e => finish negative significand (if down then start - e else start + e) rest
      | none =>
        if significand ≠ 0 ∧ !down then .error (.here .numberOutOfRange (overflowRest 0 bs))
        else .ok (.double (Double.ofMagnitude negative 0), rest)
where
  /-- What is unread when the exponent becomes too large. -/
  overflowRest (e : Nat) : Bytes → Bytes
    | [] => []
    | b :: rest =>
      let e := 10 * e + (b.toNat - 48)
      if maxExponent < e then rest else overflowRest e rest

def fraction (negative : Bool) (significand : Nat) (start : Int) (bs : Bytes) :
    Except Fault (Value × Bytes) :=
  let (significand, behind) := digits significand bs
  let rest := dropDigits behind
  let scale := start - (bs.length - behind.length : Nat)
  if rest.length = bs.length then
    match bs with
    | [] => .error (.here .eofInValue [])
    | _ => .error (.ahead .invalidNumber bs)
  else match rest with
  | 69 :: rest => exponent negative significand scale rest
  | 101 :: rest => exponent negative significand scale rest
  | _ => finish negative significand scale rest

/-- What follows the integral digits of a number; `dropped` of them did not fit. -/
def tail (negative : Bool) (significand dropped : Nat) (bs : Bytes) :
    Except Fault (Value × Bytes) :=
  match bs with
  | 46 :: rest => fraction negative significand dropped rest
  | 69 :: rest => exponent negative significand dropped rest
  | 101 :: rest => exponent negative significand dropped rest
  | _ =>
    if dropped ≠ 0 then finish negative significand dropped bs
    else if !negative then .ok (.int significand, bs)
    else if significand = 0 ∨ 0x8000000000000000 < significand then
      .ok (.double (Double.ofNat significand).neg, bs)
    else .ok (.int (-significand), bs)

def number (negative : Bool) (bs : Bytes) : Except Fault (Value × Bytes) :=
  match bs with
  | [] => .error (.here .eofInValue [])
  | b :: rest =>
    match digit? b with
    | none => .error (.here .invalidNumber rest)
    | some 0 =>
      match rest with
      | c :: _ =>
        if (digit? c).isSome then .error (.ahead .invalidNumber rest)
        else tail negative 0 0 rest
      | [] => tail negative 0 0 rest
    | some d =>
      let (significand, behind) := digits d rest
      let rest := dropDigits behind
      tail negative significand (behind.length - rest.length) rest

end SealedHttp.Json
