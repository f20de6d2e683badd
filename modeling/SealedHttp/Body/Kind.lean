import SealedHttp.Text.Basic

/-!
# Content kinds

What a body holds, as a `Content-Type` announces it. The kind is found by looking for the media
types in a fixed order; the charset is whatever follows the first `charset=`, less separators.
-/

namespace SealedHttp

inductive BodyKind where
  | plain
  | binary
  | json
  | cbor
  deriving DecidableEq, Repr, Inhabited

namespace BodyKind

def mime : BodyKind → String
  | plain => "text/plain"
  | binary => "application/binary"
  | json => "application/json"
  | cbor => "application/cbor"

def defaultCharset : BodyKind → String
  | binary => "ISO-8859-1"
  | _ => "UTF-8"

def charsetMark : List Char := "charset=".toList

def isSeparator (c : Char) : Bool :=
  c = '=' || c = '/' || c = '"' || c = ';' || c = Char.ofNat 0x27 || c = ' '

/-- The kind of a lower-case `Content-Type`; anything unknown is plain text. -/
def classify (lower : List Char) : BodyKind :=
  let names (k : BodyKind) : Bool := (Text.after? k.mime.toList lower).isSome
  if names cbor then cbor else if names json then json else if names binary then binary else plain

/-- Kind and charset of a `Content-Type`. Letter case matters for neither mark, but the charset is
taken over as it is written. -/
def parse (contentType : String) : BodyKind × Option String :=
  let cs := contentType.toList
  let lower := cs.map Char.toLower
  let charset := (Text.after? charsetMark lower).map fun behind =>
    (cs.drop (cs.length - behind.length)).filter (!isSeparator ·)
  (classify lower, (charset.filter (!·.isEmpty)).map String.ofList)

def headerValue (k : BodyKind) (charset : String) : String := k.mime ++ "; charset=" ++ charset

end BodyKind
end SealedHttp
