import SealedHttp.Body.Form
import SealedHttp.Envelope.Basic
import SealedHttp.Message.Query
import SealedHttp.Message.Request

/-!
# Exchanges

An exchange holds the request that is being served and the response that is being built for it. All
of that is forgotten by a reset; what stays is which instance the exchange belongs to.
-/

namespace SealedHttp

structure ServerInfo where
  notFoundInfo : String := "HTTP STATUS 404 Not Found"
  port : Nat := 0
  deriving DecidableEq, Repr

structure RequestContext where
  request : Request
  params : List (String × String)
  tag : String
  server : ServerInfo
  deriving Repr

/-- A request and its response. -/
structure Exchange where
  instanceId : Nat
  typeName : String
  context : Option RequestContext := none
  /-- The body of the request, its transforms undone if that was possible. -/
  body : Bytes := []
  envelope : Envelope := .plain []
  requestKind : BodyKind := .plain
  requestCharset : Option String := none
  contentKind : BodyKind := .plain
  ownCharset : Option String := none
  status : Nat := 200
  response : Bytes := []
  written : Bool := false
  deriving Repr

namespace Exchange

/-- Attaches a request. The kind of its body becomes the kind of the response. -/
def configure (context : RequestContext) (e : Exchange) : Exchange :=
  let (kind, charset) :=
    match context.request.header HeaderName.contentType with
    | some value => BodyKind.parse value
    | none => (.plain, none)
  { e with
    requestKind := kind, requestCharset := charset, contentKind := kind
    body := context.request.body, context := some context }

def reset (e : Exchange) : Exchange := { instanceId := e.instanceId, typeName := e.typeName }

def isConfigured (e : Exchange) : Bool := e.context.isSome

def request (e : Exchange) : Option Request := e.context.map (·.request)

def verb (e : Exchange) : Verb := (e.request.map Request.verb).getD .get

def path (e : Exchange) : String := (e.request.map Request.path).getD ""

def header (name : String) (e : Exchange) : Option String := e.request.bind (·.header name)

def tag (e : Exchange) : Option String := e.context.map (·.tag)

def bodyText (e : Exchange) : Except BodyError String := (Utf8.decode e.body).mapError .utf8

def bodyValue (e : Exchange) : Except BodyError Value := e.requestKind.decodeValue .any e.body

def parameter (name : String) (e : Exchange) : Option String :=
  (e.request.bind Request.query).bind fun query =>
    ((Query.pairs query).find? (·.1 = name)).map fun (_, value) => Text.trim value

def parameters (e : Exchange) : List (String × List String) :=
  ((e.request.bind Request.query).map Query.grouped).getD []

def param (name : String) (e : Exchange) : Option String := e.context.bind (·.params.lookup name)

/-- The first entry of `X-Forwarded-For` that is not blank. -/
def forwardedFor (e : Exchange) : Option String :=
  (e.header HeaderName.forwardedFor).bind fun line =>
    (((Text.splitOn ',' line.toList).map Text.trimList).find? (!·.isEmpty)).map String.ofList

def clientIp (e : Exchange) : Option String :=
  e.forwardedFor.or ((e.request.bind (·.peer)).map (·.ip.text))

def userAgent (e : Exchange) : Option String := e.header HeaderName.userAgent

/-- The charset of the response: its own, else the one of the request, else the usual one. -/
def charset (e : Exchange) : String :=
  (e.ownCharset.or e.requestCharset).getD e.contentKind.defaultCharset

def write (data : Bytes) (e : Exchange) : Exchange :=
  { e with response := e.response ++ data, written := true }

def writeValue (v : Value) (e : Exchange) : Exchange := e.write (e.contentKind.encodeValue v)

def setStatus (status : Nat) (e : Exchange) : Exchange := { e with status, written := true }

def setContentKind (kind : BodyKind) (e : Exchange) : Exchange := { e with contentKind := kind }

def setCharset (charset : String) (e : Exchange) : Exchange := { e with ownCharset := some charset }

def notFoundText (verb : Verb) (e : Exchange) : String :=
  let server := (e.context.map (·.server)).getD {}
  let uri := (e.request.map (·.uri.text)).getD ""
  s!"{server.notFoundInfo}, Request Url:{uri} \nMethod: {verb.name} , Port: {server.port} " ++
    s!", ClassName: {e.typeName}"

/-- The status for unknown resources: `GET` gets a page all the same. -/
def notFoundStatus : Verb → Nat
  | .get => 200
  | .post => 404

def notFound (verb : Verb) (e : Exchange) : Exchange :=
  { e with
    response := Bytes.ofText (e.notFoundText verb), written := true
    contentKind := .plain, status := notFoundStatus verb }

def summary (e : Exchange) : String :=
  let (name, path) := (Text.quoted e.typeName, Text.quoted e.path)
  s!"Exchange \x7b instance_id: {e.instanceId}, type_name: {name}, path: {path}, " ++
    s!"status: {e.status}, response_len: {e.response.length} \x7d"

end Exchange
end SealedHttp
