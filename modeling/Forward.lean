import Forward.Secrets.LockFence
import Forward.Secrets.FinalStates
import Forward.Secrets.Exhaustion
import Forward.Secrets.Staleness
import Forward.Secrets.Signals
import Forward.Secrets.Daemon
import Forward.Browser.Pipes
import Forward.Browser.Ceremony
import Forward.Browser.Relay
import Forward.Bridge.Holders
import Forward.Callback.Accounting
import Forward.Daemon.Origin
import Forward.Secrets.LateCompletion
import Forward.Secrets.RoundTrip
import Forward.Edit.Snapshots
import Forward.Harness.Revocation
import Forward.Harness.Rekey
import Forward.Secrets.Tokens
import Forward.Secrets.Framing
import Forward.Browser.GrantSocket
import Forward.Browser.EventLine
import Forward.Secretsd.Exchange
import Forward.Secrets.Listing
import Forward.Containment.Ancestry
import Forward.Daemon.OpenLoop
import Forward.Browser.RelayToken
import Forward.Browser.FeedLine
import Forward.Daemon.UrlChannel
import Forward.Serve.Respond
import Forward.Serve.PreviewHost
import Forward.Secrets.Audit
import Forward.Containment.StatLine
import Forward.Daemon.Policy
import Forward.Proto.SocketPath
import Forward.Edit.AgentStore
import Forward.Secrets.StatusLine
import Forward.Browser.Locking
