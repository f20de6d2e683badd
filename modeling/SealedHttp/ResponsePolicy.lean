import SealedHttp.Envelope.Basic
import SealedHttp.Message.Request

/-!
# Response policies

How the responses of a handler type are transformed, given what the client announced. When a
transform is forced, following the client means that the client's choice wins if it made one. When
it is not forced, following the client copies its choice, and not following it means no transform.
-/

namespace SealedHttp

/-- The settings of a handler type for its responses. -/
structure Policy where
  forceCompress : Bool := false
  followClientCompress : Bool := true
  serverCompression : Compression := .gzip
  /-- Payloads shorter than this are never compressed. -/
  minCompressSize : Nat := 256
  forceEncrypt : Bool := false
  followClientEncrypt : Bool := true
  getChain : Option String := none
  postChain : Option String := some "a"
  deriving DecidableEq, Repr, Inhabited

namespace Policy

def passThrough : Policy := { followClientCompress := false, followClientEncrypt := false }

def forceCompression (kind : Compression) (p : Policy) : Policy :=
  { p with forceCompress := true, serverCompression := kind }

def forceEncryption (getChain postChain : Option String) (p : Policy) : Policy :=
  { p with forceEncrypt := true, getChain, postChain }

/-- Says which choices of the client are followed. -/
def followClient (compress encrypt : Bool) (p : Policy) : Policy :=
  { p with followClientCompress := compress, followClientEncrypt := encrypt }

def serverChain (p : Policy) : Verb → Option String
  | .get => p.getChain
  | .post => p.postChain

/-- The compression of a response to a client that sent `client`. -/
def compressionFor (p : Policy) (client : Envelope) : Compression :=
  match p.forceCompress, p.followClientCompress with
  | true, true => if client.compression.isNone then p.serverCompression else client.compression
  | true, false => p.serverCompression
  | false, true => client.compression
  | false, false => .none

def chainFor (p : Policy) (verb : Verb) (client : Envelope) : String :=
  match p.forceEncrypt, p.followClientEncrypt with
  | true, true =>
    if client.chain.isEmpty then (p.serverChain verb).getD "" else client.chain
  | true, false => (p.serverChain verb).getD ""
  | false, true => client.chain
  | false, false => ""

def negotiate (p : Policy) (verb : Verb) (client : Envelope) : String × Compression :=
  (p.chainFor verb client, p.compressionFor client)

def chainSummary : Option String → String
  | none => "None"
  | some chain => let shown := Text.quoted chain; s!"Some({shown})"

def compressionSummary : Compression → String
  | .none => "None"
  | .gzip => "Gzip"
  | .deflate => "Deflate"
  | .snappy => "Snappy"
  | .lz4 => "Lz4"

def summary (p : Policy) : String :=
  let entries := [("force_compress", toString p.forceCompress),
    ("follow_client_compress", toString p.followClientCompress),
    ("server_compression", compressionSummary p.serverCompression),
    ("min_compress_size", toString p.minCompressSize),
    ("force_encrypt", toString p.forceEncrypt),
    ("follow_client_encrypt", toString p.followClientEncrypt),
    ("get_chain", chainSummary p.getChain),
    ("post_chain", chainSummary p.postChain)]
  let shown := ", ".intercalate (entries.map fun (name, value) => name ++ ": " ++ value)
  s!"TransformPolicy \x7b {shown} \x7d"

end Policy
end SealedHttp
