import SealedHttp.Header.Map

/-!
# Responses

A response as it is handed to the transport. The connection stays open behind it if `keepAlive` says
so; otherwise the response announces that.
-/

namespace SealedHttp

structure Response where
  status : Nat
  headers : Headers := .empty
  body : Bytes := []
  keepAlive : Bool := true
  deriving DecidableEq, Repr

namespace Response

def announceClose (h : Headers) : Headers := h.insert HeaderName.connection (Bytes.ofText "close")

def close (r : Response) : Response :=
  { r with keepAlive := false, headers := announceClose r.headers }

/-- The empty response that tells of a failure within the server. -/
def internalError : Response := close { status := 500 }

def transmitted (r : Response) : Nat × Headers × Bytes :=
  (r.status, if r.keepAlive then r.headers else announceClose r.headers, r.body)

end Response
end SealedHttp
