import Theos.Base.Buffer
import Theos.Base.Crc
import Theos.Base.DeficitRoundRobin
import Theos.Base.Endian
import Theos.Base.Footprint
import Theos.Base.Fuelled
import Theos.Base.IdCounter
import Theos.Base.Memory
import Theos.Base.Method
import Theos.Base.PrefixCode
import Theos.Base.Recursion
import Theos.Base.Run
import Theos.Base.Rust
import Theos.Base.SlotTable
import Theos.Base.StampedSlot
import Theos.Base.Storage
import Theos.Base.Text
import Theos.Base.UnixPath
import Theos.Base.Utf8
import Theos.Base.Writers
import Theos.Base.Writes
import Theos.Crabfs.Checksum
import Theos.Crabfs.ChecksumFields
import Theos.Crabfs.Directories
import Theos.Crabfs.Endian
import Theos.Crabfs.Extents
import Theos.Crabfs.OnDisk
import Theos.Crabfs.Pack
import Theos.Crabfs.Payloads
import Theos.Crabfs.Reader
import Theos.Crabfs.RoundTrips
import Theos.Kernel.ActiveProcess
import Theos.Kernel.BlockDevices
import Theos.Kernel.CpuTopology
import Theos.Kernel.Descriptors
import Theos.Kernel.DirectoryListing
import Theos.Kernel.EnvironmentObjects
import Theos.Kernel.EventSignals
import Theos.Kernel.FirmwareMemory
import Theos.Kernel.Forwarders
import Theos.Kernel.FrameAllocator
import Theos.Kernel.GsBases
import Theos.Kernel.Handles
import Theos.Kernel.IdReuse
import Theos.Kernel.ImageStores
import Theos.Kernel.InformationQueries
import Theos.Kernel.MemoryQuery
import Theos.Kernel.ModuleLoader
import Theos.Kernel.ModuleLoads
import Theos.Kernel.NamespaceShadowing
import Theos.Kernel.Nt
import Theos.Kernel.NtPaths
import Theos.Kernel.ObjectRequests
import Theos.Kernel.ObjectTable
import Theos.Kernel.PathLookup
import Theos.Kernel.PathPrefixes
import Theos.Kernel.PathSpellings
import Theos.Kernel.Pipes
import Theos.Kernel.PollMask
import Theos.Kernel.ProcessEnvironment
import Theos.Kernel.Relocations
import Theos.Kernel.Scheduler
import Theos.Kernel.SchedulerContext
import Theos.Kernel.SchedulerFairness
import Theos.Kernel.SchedulerPick
import Theos.Kernel.SchedulerPlacement
import Theos.Kernel.SchedulerQueues
import Theos.Kernel.SchedulerWork
import Theos.Kernel.SectionOpens
import Theos.Kernel.SectionViews
import Theos.Kernel.SyscallStores
import Theos.Kernel.Terminal
import Theos.Kernel.TickContexts
import Theos.Kernel.UserMemory
import Theos.Kernel.Vfs
import Theos.Kernel.ViewUnmapping
import Theos.Kernel.VirtioQueue
import Theos.Kernel.Waiting
import Theos.Kernel.WaitingWakeups
import Theos.Lzx.BitStream
import Theos.Lzx.CallTranslation
import Theos.Lzx.Decoder
import Theos.Lzx.Huffman
import Theos.Lzx.Termination
import Theos.Lzx.Tokens
import Theos.Lzx.WindowBounds
import Theos.Regf.Bounds
import Theos.Regf.Hive
import Theos.Regf.Termination
import Theos.Regf.Walk
import Theos.Tools.RootfsCache
import Theos.Udf.Cursor
import Theos.Udf.DirectoryEntries
import Theos.Udf.Reader
import Theos.Wim.Containment
import Theos.Wim.IncludePaths
import Theos.Wim.Metadata
import Theos.Wim.Pruning
import Theos.Wim.ResourceLayout
import Theos.Wim.Resources
import Theos.Wim.Tasks
import Theos.Wim.Termination
import Theos.Wim.Unpack
