import SynchroTrace.Base.ChunkGenerator
import SynchroTrace.Base.CircleBuf
import SynchroTrace.Cpu.StoreSet
import SynchroTrace.Garnet.Credits
import SynchroTrace.Garnet.InjectionOrder
import SynchroTrace.Garnet.OrderedArbitration
import SynchroTrace.Garnet.Routing
import SynchroTrace.Mem.BridgeReservations
import SynchroTrace.Mem.BusRanges
import SynchroTrace.Mem.BusRetries
import SynchroTrace.Mem.FunctionalReads
import SynchroTrace.Mem.LruTags
import SynchroTrace.Mem.PacketQueue
import SynchroTrace.Mem.TagHash
import SynchroTrace.Replay.Dependencies
import SynchroTrace.Replay.Expansion
import SynchroTrace.Replay.MutexMarks
import SynchroTrace.Replay.PthreadFile
import SynchroTrace.Replay.RoundTrips
import SynchroTrace.Replay.Swapping
import SynchroTrace.Replay.Totals
import SynchroTrace.Replay.Workers
import SynchroTrace.Ruby.CacheMemory
import SynchroTrace.Ruby.Completions
import SynchroTrace.Ruby.DirectoryMemory
import SynchroTrace.Ruby.Histogram
import SynchroTrace.Ruby.MemoryRequests
import SynchroTrace.Ruby.NetDest
import SynchroTrace.Ruby.PathWitnesses
import SynchroTrace.Ruby.PerfectSwitch
import SynchroTrace.Ruby.SparseMemory
import SynchroTrace.Ruby.StallOrder
import SynchroTrace.Ruby.Throttle
import SynchroTrace.Ruby.VisibleSize
import SynchroTrace.Sim.DebugVerify
