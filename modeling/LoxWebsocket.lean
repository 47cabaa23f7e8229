import LoxWebsocket.Crypto.SaltChain
import LoxWebsocket.Client.Correlation
import LoxWebsocket.Client.Authenticate
import LoxWebsocket.Client.Framing
import LoxWebsocket.Client.Session
import LoxWebsocket.Client.Refresh
import LoxWebsocket.Client.ClosePolicy
import LoxWebsocket.Client.Lifetime
import LoxWebsocket.Client.VisuAnswer
import LoxWebsocket.Client.Secured
import LoxWebsocket.Client.WriteHalf
import LoxWebsocket.Client.Waiters
import LoxWebsocket.Client.Ceiling
import LoxWebsocket.Client.HandshakeAnswers
import LoxWebsocket.Client.Losses
import LoxWebsocket.Client.Budget
import LoxWebsocket.Proto.Texts
import LoxWebsocket.Auth.StoreCrash
import LoxWebsocket.Client.Mirror
import LoxWebsocket.Client.Tls
import LoxWebsocket.Client.Metrics
import LoxWebsocket.Client.Panic
import LoxWebsocket.Client.Refusals
import LoxWebsocket.Client.KilledTokens
import LoxWebsocket.Proto.Counted
import LoxWebsocket.Uuid
import LoxWebsocket.Collect
import LoxWebsocket.Client.Echo
import LoxWebsocket.Client.Envelope
import LoxWebsocket.Client.Interleaved
import LoxWebsocket.Client.Keepalive
import LoxWebsocket.Client.Expiry
import LoxWebsocket.MapHash
import LoxWebsocket.Auth.Binding
import LoxWebsocket.Client.Kinds
import LoxWebsocket.Crypto.RsaKey
import LoxWebsocket.Client.Transport
import LoxWebsocket.Client.Delivery
import LoxWebsocket.Client.Channel
import LoxWebsocket.Client.Setup
import LoxWebsocket.Client.Pace
