import IpReputation.Library.BitMask
import IpReputation.Library.CounterVec
import IpReputation.Library.DistinctDraws
import IpReputation.Library.FileStore
import IpReputation.Library.Grouping
import IpReputation.Library.Marker
import IpReputation.Library.OffsetNumeral
import IpReputation.Library.RegionMap
import IpReputation.Library.ScatterGather
import IpReputation.Library.Transition
import IpReputation.Library.WordMixing
import IpReputation.Verdict
import IpReputation.DropSets
import IpReputation.ReloadMetrics
import IpReputation.ReloadVersions
import IpReputation.Convergence
import IpReputation.Publication
import IpReputation.Startup
import IpReputation.RemoteTip
import IpReputation.ParseReference
import IpReputation.Selection
import IpReputation.Attribution
import IpReputation.RequestAccounting
import IpReputation.Spelling
import IpReputation.CacheSoundness
import IpReputation.FailOpen
import IpReputation.AckMatching
import IpReputation.AckCodec
import IpReputation.VarintAcceptance
import IpReputation.Display
import IpReputation.Lifetimes
import IpReputation.EntryLifetime
import IpReputation.CompliantAgent
import IpReputation.NotifyCodec
import IpReputation.Workload
import IpReputation.LoadGenerator
import IpReputation.Workers
import IpReputation.BatchProgress
import IpReputation.Percentiles
import IpReputation.ListText
import IpReputation.Fixture
import IpReputation.HotReload
import IpReputation.AckBoundaries
import IpReputation.AgentCounters
