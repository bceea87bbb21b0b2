import SecureWs.Lib.AeadStream
import SecureWs.Framing
import SecureWs.Replay
import SecureWs.Rekey
import SecureWs.Cipher
import SecureWs.Delivery
import SecureWs.Trace
import SecureWs.Ca
import SecureWs.Identity
import SecureWs.Transport
import SecureWs.Attempts
import SecureWs.Connection
import SecureWs.Tasks
import SecureWs.Cancellation
import SecureWs.Failures
import SecureWs.Races
import SecureWs.Lib.JsonText
import SecureWs.Lib.JsonDumps
import SecureWs.Certificates
import SecureWs.Handshake
import SecureWs.HandshakeErrors
import SecureWs.Establishment
import SecureWs.StaticIdentity
import SecureWs.Leakage
import SecureWs.Lib.Decimal
import SecureWs.SafetyNumber
import SecureWs.Lib.JsonIndent
import SecureWs.Lib.TextFile
import SecureWs.Persistence
import SecureWs.ChannelBinding
import SecureWs.Lifecycle
import SecureWs.Meeting
import SecureWs.Provisioning
import SecureWs.Conversation
import SecureWs.Lib.JsonTorn
import SecureWs.Lib.Durable
import SecureWs.Durability
import SecureWs.Revocation
import SecureWs.Lib.RegexSearch
import SecureWs.LoggingPolicy
import SecureWs.EndToEnd
