import Relay.Connector.OpenAi.Commands
import Relay.Connector.Rest
import Relay.Credential.Outline
import Relay.Dispatcher
import Relay.Proofs.Binding
import Relay.Proofs.PreFlight
import Relay.Proofs.History
import Relay.Proofs.Renewal
import Relay.Proofs.Percent
import Relay.Proofs.Url
import Relay.Proofs.Masking
import Relay.Proofs.Carrying
import Relay.Proofs.Mirroring
import Relay.Proofs.Endings
import Relay.Proofs.HandingBack
import Relay.Proofs.Timeliness
import Relay.Proofs.Versions
import Relay.Proofs.Alone
import Relay.Proofs.Isolation
import Relay.Proofs.Validity
import Relay.Proofs.Auditing
import Relay.Proofs.Agreement
import Relay.Proofs.Utf8
import Relay.Proofs.Classification
import Relay.Proofs.Discovery
import Relay.Proofs.Host
import Relay.Proofs.Joining
import Relay.Proofs.JsonText
import Relay.Proofs.Storing
import Relay.Proofs.Persisting
import Relay.Proofs.Substitution
import Relay.Proofs.Ordering
import Relay.Proofs.RoundTrip
import Relay.Proofs.Layering
import Relay.Proofs.Testing
import Relay.Proofs.Framing
import Relay.Proofs.Redacting
import Relay.Proofs.Query
import Relay.Proofs.Verbatim
import Relay.Proofs.Landing
import Relay.Proofs.Registering
import Relay.Proofs.Invalidation
import Relay.Proofs.Containment
import Relay.Proofs.Sanitizing
import Relay.Proofs.FormAudit
import Relay.Proofs.Numeral
import Relay.Proofs.Shortest
import Relay.Proofs.SnapshotText
import Relay.Proofs.Rounding
import Relay.Proofs.Spelling
import Relay.Proofs.Messages
import Relay.Proofs.Sections
import Relay.Proofs.ChatSettings
import Relay.Proofs.Usability
import Relay.Proofs.Paging
import Relay.Proofs.Receiving
