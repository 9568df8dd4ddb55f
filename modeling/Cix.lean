import Cix.Json.Strings
import Cix.Json.Reported
import Cix.Init.Forks
import Cix.Init.Deadlines
import Cix.Init.CompileSound
import Cix.Pkg.Budget
import Cix.Pkg.Producers
import Cix.Pkg.Failures
import Cix.Pkg.Drain
import Cix.Net.Refusals
import Cix.Net.Addresses
import Cix.Net.Leases
import Cix.Auth.Identity
import Cix.Auth.Rollback
import Cix.Auth.Endings
import Cix.Log.Retention
import Cix.Log.Search
import Cix.Container.Replay
import Cix.Container.BootOrder
import Cix.Ldap.Collisions
import Cix.Handover.Required
import Cix.Volume.Durable
import Cix.Sources.Ownership
import Cix.Kmod.Blacklist
import Cix.Device.Granted
import Cix.Disk.Follow
import Cix.Throttle.Causes
import Cix.Storage.Copies
import Cix.Pkg.ArtifactCache
import Cix.Pkg.BuildOutput
import Cix.Image.Retention
import Cix.Quota.Projects
import Cix.Http.Arrival
import Cix.Ws.Console
import Cix.Procfuse.Counters
import Cix.Backup.Kept
import Cix.Release.Signatures
import Cix.Scheduler.Occurrences
import Cix.Ldap.Rerendered
import Cix.LdapClient.Bind
import Cix.Boot.Listings
import Cix.Boot.Settings
import Cix.Net.OwnAddress
import Cix.Dns.Records
import Cix.Auth.Mapping
import Cix.Ldap.ConfigPut
import Cix.Ldap.Tables
import Cix.Http.Query
import Cix.Pgp.Packets
import Cix.Pgp.Canonical
import Cix.Disk.Resize
import Cix.Cbs.Progress
import Cix.Sources.Depth
import Cix.Log.Backward
import Cix.Pkg.VersionOrder
import Cix.Pkg.Strays
import Cix.Pkg.Chains
import Cix.Log.Held
import Cix.Pkg.Catalogue
import Cix.Pkg.Headers
