import Pingweave.Common
import Pingweave.Library.Runs
import Pingweave.Library.ExpiryTable
import Pingweave.Address
import Pingweave.RdmaPingInfo
import Pingweave.RdmaAccounting
import Pingweave.RdmaEventOrder
import Pingweave.RdmaClient
import Pingweave.RdmaSoftwareStamps
import Pingweave.AddressHandle
import Pingweave.RdmaPingMsg
import Pingweave.RdmaServer
import Pingweave.RdmaServerTrace
import Pingweave.RdmaClientTrace
import Pingweave.RdmaProtocol
import Pingweave.RdmaBuffers
import Pingweave.CqEvents
import Pingweave.IpcRing
import Pingweave.Collector
import Pingweave.CollectorWorkers
import Pingweave.AddressPublication
import Pingweave.HeatmapPlotter
import Pingweave.Ingestion
import Pingweave.IpcRestart
import Pingweave.Library.ExpiryOrder
import Pingweave.MalformedLines
import Pingweave.PingTables
import Pingweave.PinglistServers
import Pingweave.RdmaExpiry
import Pingweave.RdmaReports
import Pingweave.SchedulerCache
import Pingweave.TcpUdpAccounting
import Pingweave.AgentSender
import Pingweave.IpcDelivery
import Pingweave.PinglistReader
import Pingweave.PinglistSections
import Pingweave.PlotEntries
import Pingweave.RecvRequests
import Pingweave.SchedulerPacing
import Pingweave.Supervisor
import Pingweave.HostProcesses
import Pingweave.ClockReadings
import Pingweave.ResultStats
import Pingweave.AddressHandleCache
import Pingweave.AddressFreshness
import Pingweave.ReportInterval
import Pingweave.RdmaContexts
import Pingweave.IniRoundTrip
import Pingweave.ReaderWriterQueue
import Pingweave.ReaderWriterQueueBlock
import Pingweave.ReaderWriterQueueLayout
import Pingweave.ReaderWriterQueueFifo
import Pingweave.BlockingQueue
import Pingweave.BlockingQueueSound
import Pingweave.TcpUdpQueue
import Pingweave.Library.LittleEndian
import Pingweave.UdpMessage
import Pingweave.UdpProtocol
import Pingweave.StreamConsumer
import Pingweave.SenderThreads
import Pingweave.Library.Pattern
import Pingweave.PlotDirectory
import Pingweave.PlotNames
import Pingweave.Dashboard
import Pingweave.DashboardShown
import Pingweave.DashboardIndex
import Pingweave.Library.Pivot
import Pingweave.PlotHeatmap
import Pingweave.PinglistSync
import Pingweave.ReportedHeatmaps
