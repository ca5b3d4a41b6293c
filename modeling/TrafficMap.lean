import TrafficMap.Lib.BigEndian
import TrafficMap.Lib.Cursor
import TrafficMap.Lib.Pull
import TrafficMap.Net
import TrafficMap.FlowdParse.Format
import TrafficMap.FlowdParse.Encode
import TrafficMap.FlowdParse.Acceptance
import TrafficMap.FlowdParse.Stream
import TrafficMap.FlowdParse.Log
import TrafficMap.Lib.Checked
import TrafficMap.SniSniff.Packet
import TrafficMap.SniSniff.Frame
import TrafficMap.SniSniff.Segments
import TrafficMap.Lib.Layout
import TrafficMap.SniSniff.ClientHello
import TrafficMap.SniSniff.HelloWalk
import TrafficMap.SniSniff.HelloHead
import TrafficMap.SniSniff.Extract
import TrafficMap.SniSniff.Declared
import TrafficMap.SniSniff.Truncation
import TrafficMap.SniSniff.Classify
import TrafficMap.SniSniff.Pcap
import TrafficMap.SniSniff.Apps
import TrafficMap.SniSniff.AppCategory
import TrafficMap.Lib.Table
import TrafficMap.Lib.Aggregate
import TrafficMap.LocalRanges
import TrafficMap.Inet
import TrafficMap.GeoDoctor.Schema
import TrafficMap.GeoDoctor.Pass
import TrafficMap.GeoDoctor.Observed
import TrafficMap.GeoDoctor.Relocate
import TrafficMap.Bogon
import TrafficMap.GeoDoctor.Haversine
import TrafficMap.GeoDoctor.Runs
import TrafficMap.GeoDoctor.Audit
import TrafficMap.GeoDoctor.Converge
import TrafficMap.MtrWorker.Trace
import TrafficMap.GeoDoctor.Physics
import TrafficMap.Lib.Tally
import TrafficMap.Lib.RingWindow
import TrafficMap.Json
import TrafficMap.Api.Aggregator
import TrafficMap.Api.Reference
import TrafficMap.Api.Window
import TrafficMap.Api.Overrides
import TrafficMap.Api.History
import TrafficMap.Lib.Buckets
import TrafficMap.Api.Timeline
import TrafficMap.Api.Apps
import TrafficMap.Web.Timeline
import TrafficMap.Web.FlowStream
import TrafficMap.Web.App
import TrafficMap.Web.Replay
import TrafficMap.Lib.Heap
import TrafficMap.Lib.Links
import TrafficMap.Lib.Search
import TrafficMap.Lib.Shortest
import TrafficMap.Lib.UnionFind
import TrafficMap.Lib.Memo
import TrafficMap.Web.Hubs
import TrafficMap.Web.Cables
import TrafficMap.Web.Joint
import TrafficMap.Web.Geo
import TrafficMap.Web.Landmass
import TrafficMap.Web.Polyline
import TrafficMap.Web.Backbone
import TrafficMap.Web.CableNet
import TrafficMap.Web.Connected
import TrafficMap.Web.Transit
import TrafficMap.Web.CableRoute
import TrafficMap.Web.Segment
import TrafficMap.Web.PathCache
import TrafficMap.Refresh
import TrafficMap.NetText
import TrafficMap.Geo
import TrafficMap.Ingestor.Row
import TrafficMap.Ingestor.Telegraf
import TrafficMap.Ingestor.Numbers
import TrafficMap.Ingestor.Drain
import TrafficMap.Ingestor.Flowd
import TrafficMap.Ingestor.Resume
import TrafficMap.Ingestor.CleanRuns
import TrafficMap.Ingestor.Duplicates
import TrafficMap.Ingestor.Live
import TrafficMap.GeoDoctor.LocalRows
import TrafficMap.GeoDoctor.Standing
import TrafficMap.Web.CableBuild
import TrafficMap.Web.Branches
import TrafficMap.Web.ShortestRoutes
import TrafficMap.Lib.Pieces
import TrafficMap.Web.LandComponents
import TrafficMap.Lib.Greedy
import TrafficMap.Web.Bridging
import TrafficMap.Lib.Labels
import TrafficMap.Web.CableTrip
import TrafficMap.Web.Stitch
import TrafficMap.Web.Winding
import TrafficMap.Api.Gauge
import TrafficMap.Api.TimelineBytes
import TrafficMap.Api.Cardinality
import TrafficMap.Api.Overflow
import TrafficMap.Web.Clusters
import TrafficMap.Web.Chords
import TrafficMap.Web.HubLoad
import TrafficMap.Web.Nearest
import TrafficMap.Api.Corrections
import TrafficMap.Ingestor.FlowTimes
import TrafficMap.Lib.Recent
import TrafficMap.Web.FanIn
import TrafficMap.Web.Pushes
import TrafficMap.Web.ReplayAlarms
import TrafficMap.Web.Dashboard
import TrafficMap.Web.Playback
import TrafficMap.Web.AutoRefresh
import TrafficMap.Services.Build
import TrafficMap.Services.Lookup
import TrafficMap.Web.ZoneFilter
import TrafficMap.Lib.Loop
import TrafficMap.Web.DistHeap
import TrafficMap.Lib.Int32
import TrafficMap.Web.HomeHosts
import TrafficMap.Lib.Broadcast
import TrafficMap.Api.LiveFeed
import TrafficMap.Api.LiveClients
import TrafficMap.Api.LiveBridge
import TrafficMap.Api.Recent
import TrafficMap.MtrWorker.Worker
import TrafficMap.MtrWorker.Spacing
import TrafficMap.Api.Conservation
import TrafficMap.Api.LiveTotals
import TrafficMap.Web.Meter
import TrafficMap.SniSniff.Sniffer
import TrafficMap.GeoDoctor.Moves
import TrafficMap.Api.Backed
import TrafficMap.Api.Stores
import TrafficMap.Api.LabelSource
import TrafficMap.Api.CorrectionSource
import TrafficMap.Lib.Journal
import TrafficMap.GeoDoctor.Journal
import TrafficMap.SniSniff.Sessions
import TrafficMap.Api.Unmatched
import TrafficMap.Web.Legs
import TrafficMap.Web.Lines
import TrafficMap.Web.Routes
import TrafficMap.Api.Routes
