import NorthgateRmm.Server.Grants
import NorthgateRmm.Server.Enrollment
import NorthgateRmm.Agent.Spool.Refusal
import NorthgateRmm.Agent.Sequence.Runs
import NorthgateRmm.Server.Audit
import NorthgateRmm.Server.Isolation
import NorthgateRmm.Server.OperatorAccess
import NorthgateRmm.Agent.Runtime.Stop
import NorthgateRmm.Server.Connections
import NorthgateRmm.Server.Requests
import NorthgateRmm.Server.Handshakes
import NorthgateRmm.Server.Lineage
import NorthgateRmm.Server.Migrations
import NorthgateRmm.Agent.Identity.CreateOnce
import NorthgateRmm.Agent.Transport.Backoff
import NorthgateRmm.Agent.Eventlog
import NorthgateRmm.Server.Paging
import NorthgateRmm.Wire.Acknowledgement
import NorthgateRmm.Agent.Spool.Codec
import NorthgateRmm.Agent.Spool.Atomic
import NorthgateRmm.Server.PayloadDigest
import NorthgateRmm.Agent.Spool.Eviction
import NorthgateRmm.Agent.Config
import NorthgateRmm.Agent.Collector.OsRelease
import NorthgateRmm.Agent.Snapshot
import NorthgateRmm.Lib.History
import NorthgateRmm.Agent.Runtime.System
import NorthgateRmm.Wire.Delivery
