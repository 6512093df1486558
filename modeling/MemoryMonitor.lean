import MemoryMonitor.BreakOwnership
import MemoryMonitor.Coexistence
import MemoryMonitor.PreloadContract
import MemoryMonitor.IntegrityCheck
import MemoryMonitor.FailedCalls
import MemoryMonitor.ReallocContents
import MemoryMonitor.FreeOrder
import MemoryMonitor.DoubleFree
import MemoryMonitor.SignalContract
import MemoryMonitor.PidReuse
import MemoryMonitor.Tui
import MemoryMonitor.WorkerProgress
import MemoryMonitor.ShimRealloc
import MemoryMonitor.AlignedGeometry
import MemoryMonitor.MetricsJson
import MemoryMonitor.StatFormat
import MemoryMonitor.CpuShares
import MemoryMonitor.SendAll
import MemoryMonitor.ArenaThreads
import MemoryMonitor.UnlinkSafety
import MemoryMonitor.Publication
import MemoryMonitor.Startup
import MemoryMonitor.Sampling
import MemoryMonitor.Dashboard
