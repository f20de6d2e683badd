import SealedHttp.Cipher.Aes.Block
import SealedHttp.Cipher.Failure

/-!
# AES over payloads

Blocks are enciphered one by one. The payload is first filled up to whole blocks by bytes that each
say how many there are, at least one; removal checks every one of them.
-/

namespace SealedHttp.Aes

def blockSize : Nat := 16

def isKeyLength (n : Nat) : Bool := n = 16 || n = 24 || n = 32

/-- Fills up to whole blocks. -/
def fill (data : Bytes) : Bytes :=
  let n := blockSize - data.length % blockSize
  data ++ List.replicate n (UInt8.ofNat n)

def unfill? (filled : Bytes) : Option Bytes :=
  let n := (filled.getLastD 0).toNat
  let kept := filled.length - n
  if 1 ≤ n ∧ n ≤ blockSize ∧ filled.drop kept = List.replicate n (UInt8.ofNat n) then
    some (filled.take kept)
  else none

def mapBlocks (f : State → State) (bs : Bytes) : Bytes :=
  (State.ofBytes bs).flatMap fun s => (f s).toBytes

def encrypt (key data : Bytes) : Except CipherError Bytes :=
  if isKeyLength key.length then .ok (mapBlocks (Schedule.ofKey key).encipher (fill data))
  else .error (.keyLength key.length)

/-- Opens a payload. A length that is no positive number of whole blocks is reported before an
unusable key. -/
def decrypt (key data : Bytes) : Except CipherError Bytes :=
  if data.isEmpty ∨ data.length % blockSize ≠ 0 then .error (.blockLength data.length)
  else if isKeyLength key.length then
    match unfill? (mapBlocks (Schedule.ofKey key).decipher data) with
    | some out => .ok out
    | none => .error .padding
  else .error (.keyLength key.length)

end SealedHttp.Aes
