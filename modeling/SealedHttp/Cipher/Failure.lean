import SealedHttp.Text.Base64
import SealedHttp.Text.Hex

/-!
# Failures of the ciphers

One cause each for what keys, blocks, padding and armor can get wrong.
-/

namespace SealedHttp

inductive RsaFailure where
  | decryption
  | messageTooLong
  /-- The private exponent does not undo the public one. -/
  | inconsistent
  | tooFewPrimes
  | modulusTooLarge
  deriving DecidableEq, Repr

def RsaFailure.message : RsaFailure → String
  | .decryption => "decryption error"
  | .messageTooLong => "message too long"
  | .inconsistent => "internal error"
  | .tooFewPrimes => "too few primes of given length to generate an RSA key"
  | .modulusTooLarge => "modulus too large"

inductive CipherError where
  | keyLength (length : Nat)
  /-- A ciphertext is a positive number of whole blocks. -/
  | blockLength (length : Nat)
  | padding
  | rsa (cause : RsaFailure)
  /-- A block has another length than the modulus, or is not below it. -/
  | rsaBlock (length : Nat)
  | rsaPadding
  | keyEncoding (reason : String)
  | base64 (cause : Base64Error)
  | hex (cause : HexError)
  | missingWrappedKey
  | file (reason : String)
  /-- The modulus is exactly as long as the padding, so that payloads would have to be cut into
  pieces of no bytes. -/
  | noRoom
  deriving DecidableEq, Repr

def CipherError.message : CipherError → String
  | .keyLength length => s!"invalid aes key length: {length} bytes"
  | .blockLength length => s!"aes ciphertext length {length} is not a multiple of the block size"
  | .padding => "aes padding is invalid"
  | .rsa cause => s!"rsa: {cause.message}"
  | .rsaBlock length => s!"rsa block of {length} bytes does not fit the key"
  | .rsaPadding => "rsa block padding is invalid"
  | .keyEncoding reason => s!"rsa key encoding: {reason}"
  | .base64 cause => s!"base64: {cause.message}"
  | .hex cause => s!"hex: {cause.message}"
  | .missingWrappedKey => "hybrid step without a wrapped key"
  | .file reason => s!"io error: {reason}"
  | .noRoom => "attempt to divide by zero"

end SealedHttp
