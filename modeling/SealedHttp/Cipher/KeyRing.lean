import SealedHttp.Cipher.Aes.Ecb
import SealedHttp.Cipher.Rsa.Block
import SealedHttp.Text.Basic

/-!
# Key rings

What one party holds: the shared passphrase and its half of an RSA pair. The hybrid step seals a
message with a fresh key and sends that key sealed with RSA, as base64 text.
-/

namespace SealedHttp

/-- The key material of one party. -/
structure KeyRing where
  passphrase : Bytes
  rsa : RsaKeys
  deriving DecidableEq, Repr

namespace KeyRing

/-- The passphrase that deployed clients know. -/
def legacyPassphrase : String := "xyzG7FBook9OverZ"

def legacy : KeyRing := ⟨Bytes.ofText legacyPassphrase, RsaKeys.legacy⟩

/-- What a client of the holder has: the same passphrase, the public key alone. -/
def clientRing (ring : KeyRing) : KeyRing := { ring with rsa := ring.rsa.toPublic }

def summary (ring : KeyRing) : String :=
  let rsa := ring.rsa.summary
  s!"KeyRing \x7b aes_passphrase: \"<redacted>\", rsa: {rsa} \x7d"

def hybridEncrypt (ring : KeyRing) (data : Bytes) :
    StateM Draws (Except CipherError (Bytes × String)) := do
  let key ← Draws.messageKey
  Draws.andThen (pure (Aes.encrypt key data)) fun out =>
    Draws.andThen (ring.rsa.sealBlock key) fun wrapped => pure (.ok (out, Base64.text wrapped))

/-- Opens data whose key comes wrapped; blanks around the text of the key do not matter. -/
def hybridDecrypt (ring : KeyRing) (data : Bytes) (wrappedKey : String) :
    Except CipherError Bytes := do
  let wrapped ← (Base64.decode (Bytes.ofText (Text.trim wrappedKey))).mapError .base64
  let key ← ring.rsa.openBlock wrapped
  Aes.decrypt key data

end KeyRing
end SealedHttp
