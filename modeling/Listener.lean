import Listener.Request.Reset
import Listener.Request.Schedule
import Listener.Proofs.Directive.Canonical
import Listener.Proofs.Directive.Definition
import Listener.Proofs.Directive.Names
import Listener.Proofs.Directive.Reloading
import Listener.Proofs.Json.Encoding
import Listener.Proofs.Options.Known
import Listener.Proofs.Reader.Agreement
import Listener.Proofs.Reader.Composition
import Listener.Proofs.Reader.Conditionals
import Listener.Proofs.Reader.Continuation
import Listener.Proofs.Reader.Discards
import Listener.Proofs.Reader.Escapes
import Listener.Proofs.Reader.Integers
import Listener.Proofs.Reader.Locality
import Listener.Proofs.Reader.Marks
import Listener.Proofs.Reader.Places
import Listener.Proofs.Reader.Qualifiers
import Listener.Proofs.Reader.Reprint
import Listener.Proofs.Reader.Slices
import Listener.Proofs.Reader.Unclosed
import Listener.Proofs.Request.Alone
import Listener.Proofs.Request.Destination
import Listener.Proofs.Request.Discovery
import Listener.Proofs.Request.Initialization
import Listener.Proofs.Request.Memory
import Listener.Proofs.Request.Overlap
import Listener.Proofs.Request.Refusals
import Listener.Proofs.Request.Requiring
import Listener.Proofs.Request.ResetFrame
import Listener.Proofs.Request.Resets
import Listener.Proofs.Request.Strictness
import Listener.Proofs.Request.Switching
import Listener.Proofs.Request.Traces
import Listener.Proofs.Session.Forcing
import Listener.Proofs.Source.Manifest
