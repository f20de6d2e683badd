import SealedHttp.Handling.Script
import SealedHttp.Settings.Keys
import SealedHttp.Site.Serving
import SealedHttp.Workers.Run
import SealedHttp.Proofs.Results
import SealedHttp.Proofs.ByteStrings
import SealedHttp.Proofs.Accounting.Tags
import SealedHttp.Proofs.Accounting.Tallies
import SealedHttp.Proofs.Text.Armor
import SealedHttp.Proofs.Body.RoundTrip
import SealedHttp.Proofs.Cipher.Aes
import SealedHttp.Proofs.Cipher.Draws
import SealedHttp.Proofs.Cipher.Rsa
import SealedHttp.Proofs.Cipher.RsaPair
import SealedHttp.Proofs.Cipher.RsaOpenings
import SealedHttp.Proofs.Cipher.RsaPayloads
import SealedHttp.Proofs.Compression.Deflate
import SealedHttp.Proofs.Compression.Lz4
import SealedHttp.Proofs.Compression.Limits
import SealedHttp.Proofs.Compression.Packing
import SealedHttp.Proofs.Compression.Bounds
import SealedHttp.Proofs.Compression.Announcements
import SealedHttp.Proofs.Envelope.Bounds
import SealedHttp.Proofs.Envelope.Crashes
import SealedHttp.Proofs.Envelope.FailOpen
import SealedHttp.Proofs.Envelope.Headers
import SealedHttp.Proofs.Envelope.Relevance
import SealedHttp.Proofs.Envelope.Repeated
import SealedHttp.Proofs.Envelope.Reports
import SealedHttp.Proofs.Handling.Negotiation
import SealedHttp.Proofs.Handling.Numbers
import SealedHttp.Proofs.Handling.Writings
import SealedHttp.Proofs.Reuse.Ownership
import SealedHttp.Proofs.Routing.Resolution
import SealedHttp.Proofs.Site.Accounts
import SealedHttp.Proofs.Site.Bodies
import SealedHttp.Proofs.Site.Indifference
import SealedHttp.Proofs.Site.Lifecycle
import SealedHttp.Proofs.Site.Persistence
import SealedHttp.Proofs.Site.Pooling
import SealedHttp.Proofs.Site.Responses
import SealedHttp.Proofs.Site.Sharing
import SealedHttp.Proofs.Workers.Consistency
import SealedHttp.Proofs.Workers.Refusals
import SealedHttp.Proofs.Cipher.AesOpenings
import SealedHttp.Proofs.Text.ArmorReadings
import SealedHttp.Proofs.Envelope.Canonical
import SealedHttp.Proofs.Envelope.Strictness
import SealedHttp.Proofs.Envelope.Stages
import SealedHttp.Proofs.Envelope.Writing
import SealedHttp.Proofs.Reuse.Resizing
import SealedHttp.Proofs.Body.ContentTypes
import SealedHttp.Proofs.Site.ContentTypes
import SealedHttp.Proofs.Envelope.Lengths
import SealedHttp.Proofs.Handling.Parameters
import SealedHttp.Proofs.Settings.Binding
