import Scm.Drift.Reconcile
import Scm.Drift.Sync
import Scm.Store.CustodyAudit
import Scm.Transport.Dispatch
import Scm.Core.Maintenance
import Scm.Store.CustodyPurge
import Scm.Transport.Convergence
import Scm.Transport.DeviceQueues
import Scm.Store.DeviceIds
import Scm.Transport.Registration
import Scm.Transport.Discovery
import Scm.Crypto.OutOfOrder
import Scm.Crypto.ForcedStep
import Scm.Core.Visibility
import Scm.Drift.StorePersist
import Scm.Drift.RelayChain
import Scm.Drift.RelayRate
import Scm.Core.Resolve
import Scm.Store.OutboxPersistent
import Scm.Store.InboxPersistent
import Scm.Core.OnionMessage
import Scm.Relay.Server
import Scm.Relay.FindMy
import Scm.Abuse.AutoBlock
import Scm.Crypto.SkippedKeys
import Scm.Core.RoutedSend
import Scm.Drift.FrameStream
import Scm.Core.SignedFields
import Scm.Transport.Ble.Interleaving
import Scm.Core.AuditLog
import Scm.Privacy.Padding
import Scm.Drift.SyncRate
import Scm.Transport.RelayGuardrails
import Scm.Transport.OutgoingQueue
import Scm.Transport.Manager
import Scm.Store.ContactMigration
import Scm.Core.ContactExchange
import Scm.Routing.Hops
import Scm.Routing.RouteTable
import Scm.Routing.Unreachable
import Scm.Store.Logs
