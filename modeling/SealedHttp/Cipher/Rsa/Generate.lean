import SealedHttp.Cipher.Rsa.Key

/-!
# Generating RSA keys

Two primes of half the length are searched upwards from random odd numbers whose two top bits are
set, so that the modulus has exactly the wanted number of bits.
-/

namespace SealedHttp.RsaKeys

/-- The product of the odd primes below 100, which sorts out most candidates at once. -/
def smallPrimes : Nat :=
  3 * 5 * 7 * 11 * 13 * 17 * 19 * 23 * 29 * 31 * 37 * 41 * 43 * 47 * 53 * 59 * 61 * 67 * 71 * 73 *
    79 * 83 * 89 * 97

/-- Whether `x`, squared at most `n` times, meets `m - 1`. -/
def meetsMinusOne (m : Nat) : (n : Nat) → (x : Nat) → Bool
  | 0, _ => false
  | n + 1, x => x = m - 1 || meetsMinusOne m n (x * x % m)

def twos : (fuel : Nat) → (n : Nat) → Nat
  | 0, _ => 0
  | fuel + 1, n => if n % 2 = 0 then twos fuel (n / 2) + 1 else 0

def passes (m base : Nat) : Bool :=
  let s := twos m.log2 (m - 1)
  let x := powMod base ((m - 1) >>> s) m
  x = 1 || meetsMinusOne m s x

def bases : List Nat := [2, 3, 5, 7, 11, 13, 17, 19, 23, 29, 31, 37]

/-- Whether an odd number above 1 is taken for a prime. -/
def isProbablePrime (m : Nat) : Bool :=
  if m < 100 then (List.range m).all fun k => k < 2 || m % k ≠ 0
  else m.gcd smallPrimes = 1 && bases.all (passes m)

def nextPrime? : (fuel : Nat) → (m : Nat) → Option Nat
  | 0, _ => none
  | fuel + 1, m => if isProbablePrime m then some m else nextPrime? fuel (m + 2)

/-- An odd number of `bits` bits, the two top ones set, from random bytes. -/
def oddNumber (bits : Nat) (random : Bytes) : Nat :=
  let top := 3 <<< (bits - 2)
  let n := top + Bytes.toNat random % (1 <<< (bits - 2))
  if n % 2 = 0 then n + 1 else n

def usualExponent : Nat := 65537

def inverse? (phi : Nat) : Option Nat :=
  ((List.range usualExponent).find? fun k => (1 + k * phi) % usualExponent = 0).map fun k =>
    (1 + k * phi) / usualExponent

def ofPrimes? (bits p q : Nat) : Option RsaKeys :=
  let n := p * q
  if p = q ∨ n.log2 + 1 ≠ bits then none
  else (inverse? ((p - 1) * (q - 1))).map fun d => ⟨⟨n, usualExponent⟩, some d⟩

def attempt (bits : Nat) : StateM Draws (Option RsaKeys) := do
  let low := bits / 2
  let high := bits - low
  let a ← Draws.take (fun n => UInt8.ofNat (n % 256)) (low / 8 + 1)
  let b ← Draws.take (fun n => UInt8.ofNat (n % 256)) (high / 8 + 1)
  pure do
    let p ← nextPrime? 20000 (oddNumber low a)
    let q ← nextPrime? 20000 (oddNumber high b)
    ofPrimes? bits p q

def attempts (bits : Nat) : (fuel : Nat) → StateM Draws (Except CipherError RsaKeys)
  | 0 => pure (.error (.rsa .tooFewPrimes))
  | fuel + 1 => do
    match ← attempt bits with
    | some k => pure (.ok k)
    | none => attempts bits fuel

/-- Below this many bits there are not enough primes to choose from. -/
def minBits : Nat := 12

/-- Generates keys of exactly this many bits, within the bounds of the supported ones. -/
def generate (bits : Nat) : StateM Draws (Except CipherError RsaKeys) :=
  if bits < minBits then pure (.error (.rsa .tooFewPrimes))
  else if RsaPublic.maxBits < bits then pure (.error (.rsa .modulusTooLarge))
  else attempts bits 100

end SealedHttp.RsaKeys
