import SealedHttp.Body.CborReader
import SealedHttp.Body.CborText
import SealedHttp.Body.JsonReader
import SealedHttp.Body.JsonText
import SealedHttp.Body.Kind

/-!
# Values in bodies

CBOR bodies carry CBOR, all other kinds carry JSON.
-/

namespace SealedHttp

inductive BodyError where
  | json (e : JsonError)
  | cbor (reason : String)
  | utf8 (e : Utf8Error)
  deriving DecidableEq, Repr

def BodyError.message : BodyError → String
  | .json e => "json: " ++ e.message
  | .cbor reason => "cbor: " ++ reason
  | .utf8 e => "body is not valid utf-8: " ++ e.message

namespace BodyKind

def encodeValue (k : BodyKind) (v : Value) : Bytes :=
  if k = cbor then v.toCbor else v.toJson

def decodeValue (k : BodyKind) (shape : Shape) (bs : Bytes) : Except BodyError Value :=
  if k = cbor then (Cbor.read shape bs).mapError fun e => .cbor e.message
  else (Json.read shape bs).mapError .json

end BodyKind
end SealedHttp
