import SealedHttp.Cipher.Rsa.Key

/-!
# Sealing with RSA

A block is filled up to the length of the modulus: `00 01 FF … FF 00` in front of the data when the
server seals, `00 02`, random bytes other than zero and `00` when a client seals. The other party
opens it. Payloads of any length are cut into blocks.
-/

namespace SealedHttp.RsaKeys

/-- Bytes of a block that are not data. -/
def overhead : Nat := 11

def signBlock (size : Nat) (data : Bytes) : Bytes :=
  0 :: 1 :: List.replicate (size - data.length - 3) 0xFF ++ 0 :: data

def encryptBlock (filler data : Bytes) : Bytes := 0 :: 2 :: filler ++ 0 :: data

def unsignBlock? : Bytes → Option Bytes
  | 0 :: 1 :: rest =>
    let filling := rest.takeWhile (· = 0xFF)
    match rest.drop filling.length with
    | 0 :: data => if 8 ≤ filling.length then some data else none
    | _ => none
  | _ => none

def unencryptBlock? : Bytes → Option Bytes
  | 0 :: 2 :: rest =>
    let filling := rest.takeWhile (· ≠ 0)
    match rest.drop filling.length with
    | _ :: data => if 8 ≤ filling.length then some data else none
    | [] => none
  | _ => none

/-- The private operation, whose result must lead back to its argument. -/
def lower (k : RsaPublic) (d c : Nat) : Except CipherError Nat :=
  let m := powMod c d k.modulus
  if k.raise m = c then .ok m else .error (.rsa .inconsistent)

def sealBlock (k : RsaKeys) (data : Bytes) : StateM Draws (Except CipherError Bytes) :=
  if k.size < data.length + overhead then pure (.error (.rsa .messageTooLong))
  else match k.secret with
  | some d => pure do
      let c ← lower k.shared d (Bytes.toNat (signBlock k.size data))
      .ok (Bytes.ofNat c k.size)
  | none => do
      let filler ← Draws.filler (k.size - data.length - 3)
      pure (.ok (Bytes.ofNat (k.shared.raise (Bytes.toNat (encryptBlock filler data))) k.size))

/-- Opens a block with the private exponent. Its length is free, its value must be below the
modulus. -/
def openPrivate (k : RsaPublic) (d : Nat) (block : Bytes) : Except CipherError Bytes :=
  let c := Bytes.toNat block
  if k.modulus ≤ c then .error (.rsa .decryption)
  else do
    let m ← lower k d c
    match unencryptBlock? (Bytes.ofNat m k.size) with
    | some data => if k.size < overhead then .error (.rsa .decryption) else .ok data
    | none => .error (.rsa .decryption)

/-- Opens a block with the public exponent. Its length must be that of the modulus. -/
def openPublic (k : RsaPublic) (block : Bytes) : Except CipherError Bytes :=
  let c := Bytes.toNat block
  if block.length ≠ k.size ∨ k.modulus ≤ c then .error (.rsaBlock block.length)
  else match unsignBlock? (Bytes.ofNat (k.raise c) k.size) with
  | some data => .ok data
  | none => .error .rsaPadding

def openBlock (k : RsaKeys) (block : Bytes) : Except CipherError Bytes :=
  match k.secret with
  | some d => openPrivate k.shared d block
  | none => openPublic k.shared block

/-- Data bytes of a sealed block. With a modulus shorter than the overhead the difference wraps
around, so that all data goes into one block. -/
def pieceLength (k : RsaKeys) : Nat :=
  if overhead ≤ k.size then k.size - overhead else 0x10000000000000000 + k.size - overhead

def sealPieces (k : RsaKeys) : List Bytes → StateM Draws (Except CipherError Bytes)
  | [] => pure (.ok [])
  | piece :: pieces =>
    Draws.andThen (k.sealBlock piece) fun block =>
      Draws.andThen (sealPieces k pieces) fun blocks => pure (.ok (block ++ blocks))

def encrypt (k : RsaKeys) (data : Bytes) : StateM Draws (Except CipherError Bytes) :=
  if k.pieceLength = 0 then pure (.error .noRoom)
  else k.sealPieces (Bytes.chunks k.pieceLength data)

def openBlocks (k : RsaKeys) : List Bytes → Except CipherError Bytes
  | [] => .ok []
  | block :: blocks => do
    let data ← k.openBlock block
    let rest ← openBlocks k blocks
    .ok (data ++ rest)

def decrypt (k : RsaKeys) (data : Bytes) : Except CipherError Bytes :=
  if k.size = 0 then .error .noRoom else k.openBlocks (Bytes.chunks k.size data)

end SealedHttp.RsaKeys
