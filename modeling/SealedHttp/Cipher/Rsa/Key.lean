import SealedHttp.Cipher.Draws
import SealedHttp.Cipher.Failure
import SealedHttp.Cipher.Rsa.Der
import SealedHttp.Cipher.Rsa.Pem

/-!
# RSA keys

A public key is a modulus and an exponent. A server also holds the private exponent, a client does
not. Keys are read from labelled armor or generated from random draws.
-/

namespace SealedHttp

inductive KeyRole where
  | server
  | client
  deriving DecidableEq, Repr

def KeyRole.name : KeyRole → String
  | .server => "server"
  | .client => "client"

def KeyRole.title : KeyRole → String
  | .server => "Server"
  | .client => "Client"

structure RsaPublic where
  modulus : Nat
  exponent : Nat
  deriving DecidableEq, Repr

structure RsaKeys where
  shared : RsaPublic
  /-- The private exponent, on the server only. -/
  secret : Option Nat
  deriving DecidableEq, Repr

/-- `b ^ e % m` by repeated squaring. -/
def powMod (b e m : Nat) : Nat :=
  if e = 0 then 1 % m
  else
    let h := powMod b (e / 2) m
    if e % 2 = 1 then h * h % m * b % m else h * h % m
termination_by e

namespace RsaPublic

def size (k : RsaPublic) : Nat := Bytes.sizeOfNat k.modulus

/-- The longest modulus that is supported. -/
def maxBits : Nat := 4096

/-- Whether modulus and exponent lie within the supported bounds: at most `maxBits` bits, and an
exponent from 2 to `2 ^ 33 - 1`. -/
def isSupported (k : RsaPublic) : Bool :=
  k.modulus < 1 <<< maxBits && 2 ≤ k.exponent && k.exponent < 0x200000000

def raise (k : RsaPublic) (m : Nat) : Nat := powMod m k.exponent k.modulus

def ofNaturals? : List Nat → Option RsaPublic
  | [n, e] => let k : RsaPublic := ⟨n, e⟩; if k.isSupported then some k else none
  | _ => none

def ofSequence? (bs : Bytes) : Option RsaPublic := do
  let body ← Der.whole? Der.sequenceTag bs
  match ← Der.naturals? 2 body with
  | (ns, []) => ofNaturals? ns
  | _ => none

end RsaPublic

namespace RsaKeys

def role (k : RsaKeys) : KeyRole := if k.secret.isSome then .server else .client

def size (k : RsaKeys) : Nat := k.shared.size

def toPublic (k : RsaKeys) : RsaKeys := { k with secret := none }

def summary (k : RsaKeys) : String :=
  let role := k.role.title
  let bits := k.size * 8
  s!"RsaKeys \x7b role: {role}, bits: {bits}, .. \x7d"

/-- Private keys whose parts belong together: the primes give the modulus, and the exponents are
inverse to each other for each prime. -/
def ofParts? (n e d p q : Nat) : Option RsaKeys :=
  let shared : RsaPublic := ⟨n, e⟩
  if shared.isSupported && 1 ≤ p && 1 ≤ q && p * q = n && d * e % (p - 1) = 1 &&
      d * e % (q - 1) = 1 then
    some ⟨shared, some d⟩
  else none

def ofSequence? (bs : Bytes) : Option RsaKeys := do
  let body ← Der.whole? Der.sequenceTag bs
  match ← Der.naturals? 9 body with
  | ([0, n, e, d, p, q, _, _, _], []) => ofParts? n e d p q
  | _ => none

def algorithm : Bytes :=
  [0x06, 0x09, 0x2A, 0x86, 0x48, 0x86, 0xF7, 0x0D, 0x01, 0x01, 0x01, 0x05, 0x00]

/-- The elements that follow a private key in its envelope must all be tagged by context; `fuel`
bounds their number. -/
def isTaggedList : (fuel : Nat) → Bytes → Bool
  | _, [] => true
  | 0, _ => false
  | fuel + 1, bs =>
    match Der.element? bs with
    | some e => 0x80 ≤ e.tag && e.tag < 0xC0 && isTaggedList fuel e.rest
    | none => false

def ofEnvelope? (bs : Bytes) : Option RsaKeys := do
  let body ← Der.whole? Der.sequenceTag bs
  let (version, body) ← Der.naturals? 1 body
  let (algorithm', body) ← Der.expect? Der.sequenceTag body
  let (key, rest) ← Der.expect? Der.octetStringTag body
  if version = [0] ∧ algorithm' = algorithm ∧ isTaggedList rest.length rest then ofSequence? key
  else none

def publicOfEnvelope? (bs : Bytes) : Option RsaPublic := do
  let body ← Der.whole? Der.sequenceTag bs
  let (algorithm', body) ← Der.expect? Der.sequenceTag body
  match ← Der.whole? Der.bitStringTag body with
  | 0 :: key => if algorithm' = algorithm then RsaPublic.ofSequence? key else none
  | _ => none

/-- Reads private keys, in their envelope or bare. -/
def ofPem (text : String) : Except CipherError RsaKeys :=
  let enveloped := (Pem.content? "PRIVATE KEY" text).bind ofEnvelope?
  let bare := (Pem.content? "RSA PRIVATE KEY" text).bind ofSequence?
  match enveloped.or bare with
  | some k => .ok k
  | none => .error (.keyEncoding "no private key")

def ofPublicPem (text : String) : Except CipherError RsaKeys :=
  let enveloped := (Pem.content? "PUBLIC KEY" text).bind publicOfEnvelope?
  let bare := (Pem.content? "RSA PUBLIC KEY" text).bind RsaPublic.ofSequence?
  match enveloped.or bare with
  | some k => .ok ⟨k, none⟩
  | none => .error (.keyEncoding "no public key")

def legacy : RsaKeys where
  shared := {
    modulus := 6912060769967909665747229577748486878584118041454730994790740440917251733833292356102546466418655717490140587808347980414374545347276788402037864864794123
    exponent := 65537 }
  secret := some 6364259624977853318891390732106702224917244228077312547395481185075144138039461420260483980363741724467902776024236460630716647921826962535465529587263233

end RsaKeys
end SealedHttp
