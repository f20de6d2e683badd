import SealedHttp.Envelope.Headers
import SealedHttp.Site.Basic

/-!
# Serving a request

A request is counted, gets an instance, has its transforms undone, is handed to the handler and has
its response transformed. Whatever fails or crashes on the way, there is a response, and the
instance is given back.
-/

namespace SealedHttp

/-- What is known about a request before its handler runs. -/
structure Arrival where
  path : String
  verb : Verb
  /-- What the client announced, nothing if that makes no sense. -/
  client : Envelope
  keepAlive : Bool

namespace Arrival

def line (a : Arrival) (level : LogLevel) (text : String) : LogLine := ⟨level, s!"{a.path} {text}"⟩

def verbLine (a : Arrival) (text : String) : LogLine := a.line .error s!"{a.verb.label} {text}"

def aborted (a : Arrival) (reason : String) : Served :=
  { response := .internalError, log := [a.line .error s!"dispatch aborted: {reason}"] }

end Arrival

namespace Site

variable {σ : Type}

/-- Looks at a request. -/
def arrive (site : Site σ) (r : Request) : Arrival × List LogLine :=
  let arrival (client : Envelope) : Arrival :=
    ⟨r.path, r.verb, client, site.keepAlive && r.wantsKeepAlive⟩
  match Envelope.ofHeaders r.headers with
  | .ok client => (arrival client, [])
  | .error e =>
    let a := arrival (.plain [])
    (a, [a.line .warn s!"negotiation headers ignored: {e.message}"])

/-- Undoes the transforms of a body. Only bodies of `POST` requests are transformed. -/
def received (site : Site σ) (a : Arrival) (body : Bytes) : Transformed Bytes :=
  if a.verb = .post && a.client.isTransformed then (a.client.withPayload body).decode site.ring
  else .done body

/-- Transforms a response as it was negotiated. -/
def sealedResponse (site : Site σ) (policy : Policy) (a : Arrival) (body : Bytes) :
    StateM Draws (Transformed Envelope) :=
  let (chain, compression) := policy.negotiate a.verb a.client
  if chain.isEmpty && compression.isNone then pure (.done (.plain body))
  else Envelope.encode site.ring body chain compression policy.minCompressSize

def reply (a : Arrival) (e : Exchange) (envelope : Envelope) : Response :=
  let headers := (envelope.writeHeaders .empty).insertLegal HeaderName.contentType
    (Bytes.ofText (e.contentKind.headerValue e.charset))
  let response : Response := { status := e.status, headers, body := envelope.payload }
  if a.keepAlive then response else response.close

def respond (site : Site σ) (policy : Policy) (a : Arrival) (e : Exchange) :
    StateM Draws Served := do
  match ← site.sealedResponse policy a e.response with
  | .crashed reason => pure (a.aborted reason)
  | .done envelope => pure { response := reply a e envelope }
  | .degraded g =>
    pure { response := reply a e (.plain g.payload)
           log := [a.line .warn s!"response sent untransformed: {g.message}"] }

def endingLog (a : Arrival) : Ending → List LogLine
  | .completed => []
  | .failed message => [a.verbLine s!"failed: {message}"]
  | .crashed message => [a.verbLine s!"panicked: {message}"]

/-- Answers with what a handler left behind. A handler that failed before it wrote anything has no
answer. -/
def conclude (site : Site σ) (policy : Policy) (a : Arrival) (o : Outcome σ) :
    StateM Draws Served := do
  let served ←
    if !o.ending.isCompleted && !o.exchange.written then pure { response := .internalError }
    else site.respond policy a o.exchange
  pure { served with log := endingLog a o.ending ++ served.log, notes := o.notes }

def meet (a : Arrival) (body : Bytes) (i : Instance σ) : Instance σ :=
  { i with exchange := { i.exchange with body, envelope := a.client } }

/-- An instance with its body opened as far as that is possible, and the log lines about that. There
is neither if opening crashes. -/
def opened (site : Site σ) (a : Arrival) (i : Instance σ) :
    Except String (Instance σ × List LogLine) :=
  match site.received a i.exchange.body with
  | .crashed reason => .error reason
  | .done body => .ok (meet a body i, [])
  | .degraded g =>
    .ok (meet a i.exchange.body i, [a.line .warn s!"request body left as sent: {g.message}"])

def process (site : Site σ) (t : HandlerType σ) (a : Arrival) (i : Instance σ) :
    StateM Draws (Served × Instance σ) :=
  match site.opened a i with
  | .error reason => pure (a.aborted reason, i)
  | .ok (i, log) => do
    let o := Instance.invoke t.behaviour a.verb i
    let served ← site.conclude t.policy a o
    pure ({ served with log := log ++ served.log }, o.handler)

def attach (site : Site σ) (t : Target σ) (r : Request) (tag : String) (i : Instance σ) :
    Instance σ :=
  { i with exchange := i.exchange.configure ⟨r, t.params, tag, site.server⟩ }

def requestLine (r : Request) (e : Exchange) : LogLine :=
  let ip := e.clientIp.getD ""
  ⟨.info, s!"{ip} {r.method} {r.path}"⟩

def serve (site : Site σ) (t : Target σ) (r : Request) (worker : Nat) (i : Instance σ) :
    StateM (State σ) Served := fun s =>
  let (a, warnings) := site.arrive r
  let (tag, s) := s.drawTag worker
  let attached := site.attach t r tag i
  let ((served, i), draws) := (site.process t.handlerType a attached).run s.draws
  ({ served with log := warnings ++ requestLine r attached.exchange :: served.log },
    { s with draws }.giveBack site t i)

def handle (site : Site σ) (r : Request) (worker : Nat) : StateM (State σ) Served := fun s =>
  let t := site.target r.path
  match (s.count t.key).obtain? site t with
  | (.error e, s) =>
    ({ response := .internalError
       log := [⟨.error, s!"{r.path} cannot be served: {e.message}"⟩] }, s)
  | (.ok i, s) => site.serve t r worker i s

end Site
end SealedHttp
