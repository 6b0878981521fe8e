import Coordin8.Lease.Sweep
import Coordin8.Lease.Terms
import Coordin8.Sdk.KeepAlive
import Coordin8.Sdk.DiscoveryCache
import Coordin8.Txn.Ranges
import Coordin8.Txn.Cascade
import Coordin8.Space.Isolation
import Coordin8.Space.Notify
import Coordin8.Space.Sighting
import Coordin8.Space.FailedWrite
import Coordin8.Space.Leases
import Coordin8.Space.Watch
import Coordin8.Event.Sequence
import Coordin8.Event.Removal
import Coordin8.Dynamo.LeaseExpiry
import Coordin8.Dynamo.SpaceClaim
import Coordin8.Dynamo.Records
import Coordin8.Dynamo.Mailbox
import Coordin8.Djinn.Outcome
import Coordin8.Djinn.OrphanSweep
import Coordin8.Djinn.Duplicates
import Coordin8.Registry.Removal
import Coordin8.Registry.Holder
import Coordin8.Auth.Tokens
import Coordin8.Bootstrap.SelfRegister
import Coordin8.Proxy.Ports
import Coordin8.Proxy.Lifetime
