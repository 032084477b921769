import Dtlsr.Lib.Checked
import Dtlsr.Lib.HeapOrder
import Dtlsr.Lib.Register
import Dtlsr.Lib.Walks
import Dtlsr.LinkHist
import Dtlsr.Lib.Ring
import Dtlsr.History
import Dtlsr.Node
import Dtlsr.LsGraph
import Dtlsr.MergeOrder
import Dtlsr.Heap
import Dtlsr.Pathfind
import Dtlsr.ShortestPaths
import Dtlsr.Routes
import Dtlsr.Backtrace
import Dtlsr.HopSources
import Dtlsr.LinkCosts
import Dtlsr.TableBounds
import Dtlsr.RouteControl
import Dtlsr.Lib.Memory
import Dtlsr.KernelRoutes
import Dtlsr.Gateways
import Dtlsr.Forwarding
import Dtlsr.Lib.Trace
import Dtlsr.Lib.PriorityQueue
import Dtlsr.HeapRuns
import Dtlsr.Lib.Slots
import Dtlsr.Capture
import Dtlsr.LocalGraph
import Dtlsr.Driver
import Dtlsr.DriverSteps
import Dtlsr.Reached
import Dtlsr.LinkAgree
import Dtlsr.LsrRoutes
import Dtlsr.InOrder
import Dtlsr.DownIfaces
import Dtlsr.DownLinks
import Dtlsr.NullSlots
import Dtlsr.Buffer
import Dtlsr.Drains
import Dtlsr.Replays
import Dtlsr.Database
import Dtlsr.Flooding
import Dtlsr.Exchange
import Dtlsr.OwnRecord
import Dtlsr.Closure
import Dtlsr.RouteSources
import Dtlsr.Lib.Relate
import Dtlsr.Visible
import Dtlsr.UnsetMemory
import Dtlsr.Lib.Tokens
import Dtlsr.ConfigFile
import Dtlsr.Lib.PcapFilter
import Dtlsr.FilterText
import Dtlsr.Stranded
import Dtlsr.Commands
import Dtlsr.Provenance
import Dtlsr.Lib.Flood
import Dtlsr.Convergence
import Dtlsr.Lib.Timed
import Dtlsr.EventLoop
import Dtlsr.Timely
import Dtlsr.NoFaults
import Dtlsr.Delivery
import Dtlsr.Ledger
import Dtlsr.ConfigFormat
import Dtlsr.Heartbeat
