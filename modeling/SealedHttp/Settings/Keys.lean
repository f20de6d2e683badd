import SealedHttp.Cipher.Rsa.Generate
import SealedHttp.Cipher.Rsa.Pem
import SealedHttp.Message.Address
import SealedHttp.Routing.Table
import SealedHttp.Settings.Basic

/-!
# What settings lead to

The key material that settings ask for, the settings of a server that is bound to an address, and
what keeps a server from starting.
-/

namespace SealedHttp

/-- Why a server does not start. -/
inductive StartupError where
  | settings (cause : SettingsError)
  | keys (cause : CipherError)
  | route (cause : RoutingError)
  | io (reason : String)
  deriving DecidableEq, Repr

def StartupError.message : StartupError → String
  | settings cause => "config error: " ++ cause.message
  | keys cause => "key material: " ++ cause.message
  | route cause => "route table: " ++ cause.message
  | io reason => "io error: " ++ reason

namespace Settings

def isUsablePassphrase (passphrase : Bytes) : Bool :=
  passphrase.length = 16 || passphrase.length = 24 || passphrase.length = 32

/-- The key material of a server: the passphrase, and the pair of the key file or else a fresh one.
The passphrase is looked at first. -/
def keyRing (files : Files) (s : Settings) : StateM Draws (Except CipherError KeyRing) := do
  let passphrase := Bytes.ofText s.aesPassphrase
  if isUsablePassphrase passphrase then
    let rsa ← match s.rsaPrivateKeyPath with
      | some path =>
        match files.find? path with
        | some pem => pure (RsaKeys.ofPem pem)
        | none => pure (.error (.file "No such file or directory (os error 2)"))
      | none => RsaKeys.generate s.rsaKeyBits
    pure (rsa.map (⟨passphrase, ·⟩))
  else pure (.error (.keyLength passphrase.length))

def bound (text : String) : Settings :=
  match SocketAddress.parse? text with
  | some a => { host := a.ip.text, port := a.port }
  | none => {}

end Settings
end SealedHttp
