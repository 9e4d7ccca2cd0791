import TinyLb.Machine
import TinyLb.Arena
import TinyLb.Config
import TinyLb.Hosts
import TinyLb.Backends
import TinyLb.Merge
import TinyLb.Reload
import TinyLb.HostRouting
import TinyLb.UnchangedReload
import TinyLb.Slots
import TinyLb.Traffic
import TinyLb.ConnectionLedger
import TinyLb.Admission
import TinyLb.RouteSnapshot
import TinyLb.Tls
import TinyLb.LiveConfig
import TinyLb.ReloadLoop
import TinyLb.Tally
import TinyLb.Meters
import TinyLb.Throttle
import TinyLb.Http
import TinyLb.Forwarding
import TinyLb.Files
import TinyLb.LogFile
import TinyLb.Json
import TinyLb.StatsStore
import TinyLb.Greedy
import TinyLb.Balancing
import TinyLb.Rounds
import TinyLb.Sampling
import TinyLb.ErrorLedger
import TinyLb.SampleTicks
import TinyLb.HealthChecks
import TinyLb.Cooldown
import TinyLb.Pumps
import TinyLb.Relay
import TinyLb.Selection
import TinyLb.Unwraps
import TinyLb.SuppressedCounts
import TinyLb.Outages
import TinyLb.LogSize
import TinyLb.DiskUse
import TinyLb.FailedRenames
import TinyLb.Staleness
import TinyLb.ReachableRoutes
import TinyLb.RouteOrder
import TinyLb.ListFields
import TinyLb.Upgrade
import TinyLb.HopByHop
import TinyLb.BackendUrls
import TinyLb.SecureHash
import TinyLb.Sha1
import TinyLb.Base64
import TinyLb.AcceptKey
import TinyLb.Handshake
import TinyLb.Chains
import TinyLb.HealthDeadlines
import TinyLb.AtomicReload
import TinyLb.Tasks
import TinyLb.Completion
import TinyLb.Renewal
import TinyLb.Spacing
import TinyLb.LogVolume
import TinyLb.Rolling
import TinyLb.RollingUpdate
import TinyLb.UpdateRuns
import TinyLb.Tables
import TinyLb.Decoding
import TinyLb.Documents
import TinyLb.RestartScripts
import TinyLb.RestartRuns
import TinyLb.Convergence
import TinyLb.LoadSteps
import TinyLb.Overshoot
import TinyLb.Imbalance
import TinyLb.Steady
