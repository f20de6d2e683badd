import SealedHttp.Header.Map
import SealedHttp.Message.Address
import SealedHttp.Message.Uri

/-!
# Requests

A request as it was received, its body read in full. A handler knows two verbs: every method other
than `POST` is served as a `GET`.
-/

namespace SealedHttp

inductive Verb where
  | get
  | post
  deriving DecidableEq, Repr, Inhabited

namespace Verb

/-- The verb that serves a method; methods are told apart by letter case. -/
def ofMethod (method : String) : Verb := if method = "POST" then post else get

def name : Verb → String
  | get => "get"
  | post => "post"

def label : Verb → String
  | get => "GET"
  | post => "POST"

end Verb

inductive Version where
  | http09
  | http10
  | http11
  | http2
  | http3
  deriving DecidableEq, Repr, Inhabited

def Version.text : Version → String
  | .http09 => "HTTP/0.9"
  | .http10 => "HTTP/1.0"
  | .http11 => "HTTP/1.1"
  | .http2 => "HTTP/2.0"
  | .http3 => "HTTP/3.0"

/-- Whether connections of this version are closed unless they are asked to stay open. -/
def Version.closesByDefault : Version → Bool
  | .http09 | .http10 => true
  | _ => false

structure Request where
  method : String := "GET"
  uri : Uri := .root
  version : Version := .http11
  headers : Headers := .empty
  body : Bytes := []
  peer : Option SocketAddress := none
  deriving Repr

namespace Request

def isMethodChar (c : Char) : Bool :=
  c.isAlphanum || c = '!' || c = '#' || c = '$' || c = '%' || c = '&' || c.toNat = 0x27 ||
    c = '*' || c = '+' || c = '-' || c = '.' || c = '^' || c = '_' || c.toNat = 0x60 ||
    c = '|' || c = '~'

/-- A target that cannot be read stands for the root. -/
def target (uri : String) : Uri := (Uri.parse? uri).getD .root

def verb (r : Request) : Verb := .ofMethod r.method

def path (r : Request) : String := r.uri.path

def query (r : Request) : Option String := r.uri.query

def header (r : Request) (name : String) : Option String := r.headers.getText? name

/-- The entries of all `Connection` lines that are text. -/
def connectionOptions (r : Request) : List (List Char) :=
  ((r.headers.values HeaderName.connection).filterMap Headers.text?).flatMap fun line =>
    (Text.splitOn ',' line.toList).map Text.trimList

def hasOption (r : Request) (name : String) : Bool :=
  r.connectionOptions.any fun entry => Text.eqIgnoreCase (String.ofList entry) name

def wantsKeepAlive (r : Request) : Bool :=
  if r.version.closesByDefault then r.hasOption "keep-alive" else !r.hasOption "close"

end Request
end SealedHttp
