import Cidrella.Lib.Text
import Cidrella.Lib.Table
import Cidrella.Lib.Alternation
import Cidrella.Lib.Fallible
import Cidrella.Address
import Cidrella.AddressGrammar
import Cidrella.SortKeys
import Cidrella.Network
import Cidrella.DnsNames
import Cidrella.Ownership
import Cidrella.Liveness
import Cidrella.Retirement
import Cidrella.DnsHolds
import Cidrella.Cidr
import Cidrella.NetworkCarve
import Cidrella.Lib.Forest
import Cidrella.PlannedGateways
import Cidrella.SubnetRoutes
import Cidrella.SubnetDepth
import Cidrella.RecordNames
import Cidrella.DotConnection
import Cidrella.DnsProxy
import Cidrella.Auth
import Cidrella.ScopeOptions
import Cidrella.ReverseDns
import Cidrella.LeaseRetention
import Cidrella.UniqueNames
import Cidrella.DhcpDns
import Cidrella.Lib.Versioned
import Cidrella.ZoneSerials
import Cidrella.SerialsTrack
import Cidrella.PtrOverrides
import Cidrella.StickyNames
import Cidrella.DefaultPools
import Cidrella.MergePlans
import Cidrella.Sessions
import Cidrella.AfterCommit
import Cidrella.LeaseSync
import Cidrella.Lib.Pages
import Cidrella.Blocklist
import Cidrella.Lib.Register
import Cidrella.Lib.Contest
import Cidrella.Lib.SettlingLoop
import Cidrella.SwitchLeases
import Cidrella.RangeRoundTrip
import Cidrella.TopologyProjection
import Cidrella.BulkOptions
import Cidrella.Reservations
import Cidrella.RangeTypes
import Cidrella.ReverseNames
import Cidrella.PdnsAcceptable
import Cidrella.StaticDnsAdoption
import Cidrella.PublishingSettles
import Cidrella.TcpClients
import Cidrella.PoolSegments
import Cidrella.CidrMatch
import Cidrella.DnsmasqZones
import Cidrella.LeaseLines
import Cidrella.TxtContent
import Cidrella.UpstreamLine
import Cidrella.DhcpProbe
import Cidrella.GeoCodec
import Cidrella.Lib.Ring
import Cidrella.Lib.Trim
import Cidrella.ResolutionFeed
import Cidrella.ScanInterval
import Cidrella.Lib.CodeUnits
import Cidrella.Lib.Rounding
import Cidrella.SlotsSemver
import Cidrella.ReleasesManifest
import Cidrella.QueryLogLine
import Cidrella.UnifiedDhcp
import Cidrella.UrlGuard
import Cidrella.FilteringExemption
import Cidrella.Base32
import Cidrella.NetworkNames
import Cidrella.IpToLong
import Cidrella.TcpConnectionCap
import Cidrella.DhcpCounters
import Cidrella.BackupSizes
import Cidrella.LogFollower
import Cidrella.Lib.Runs
import Cidrella.CityTableBuilder
import Cidrella.ReverseZoneBlocks
import Cidrella.DnsPolicy
import Cidrella.ScanRuns
