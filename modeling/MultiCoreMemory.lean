import MultiCoreMemory.Translation.MigrationDecision
import MultiCoreMemory.AddrMapper.LinearBijection
import MultiCoreMemory.Translation.ReservedPages
import MultiCoreMemory.Translation.RandomSearch
import MultiCoreMemory.Dram.PowerAccounting
import MultiCoreMemory.Controller.ReadTiming
import MultiCoreMemory.Controller.RawOrder
import MultiCoreMemory.Frontend.TraceOrder
import MultiCoreMemory.Frontend.PageHotness
import MultiCoreMemory.Frontend.CustomTrace2
import MultiCoreMemory.Frontend.BHO3LLCWriteBack
import MultiCoreMemory.MemorySystem.TopCache
import MultiCoreMemory.MemorySystem.RequestCounts
import MultiCoreMemory.Plugin.Graphene
import MultiCoreMemory.Plugin.RFMManager
import MultiCoreMemory.Plugin.TWiCe
import MultiCoreMemory.Plugin.RRSTable
import MultiCoreMemory.Plugin.AQUA
import MultiCoreMemory.Plugin.HydraCounts
import MultiCoreMemory.MemorySystem.TimingSafety
import MultiCoreMemory.Translation.AddressPath
import MultiCoreMemory.Sniper.BroadcastTree
import MultiCoreMemory.Sniper.DramCache
import MultiCoreMemory.Sniper.NucaCache
import MultiCoreMemory.Sniper.DirectoryData
import MultiCoreMemory.Sift.Replay
import MultiCoreMemory.Plugin.RowHistory
import MultiCoreMemory.Plugin.BloomFilters
import MultiCoreMemory.Sniper.SyncWakeups
import MultiCoreMemory.Sniper.PinnedOneToOne
import MultiCoreMemory.Sift.AccessMemory
import MultiCoreMemory.Controller.PRACPrecedence
import MultiCoreMemory.Controller.Schedulers
import MultiCoreMemory.Frontend.WindowRefinement
import MultiCoreMemory.Frontend.MemoryTime
import MultiCoreMemory.Frontend.BHO3LLCIndex
import MultiCoreMemory.Frontend.BHO3LLCMshrs
import MultiCoreMemory.Sift.PageLoop
import MultiCoreMemory.Sniper.CacheSetNRU
import MultiCoreMemory.Sniper.CacheSetSRRIP
import MultiCoreMemory.Sniper.SyscallServer
import MultiCoreMemory.Sniper.QueueModelWindowedMG1
import MultiCoreMemory.Sniper.ContentionModel
import MultiCoreMemory.Sniper.TLB
import MultiCoreMemory.Sniper.QueueModelHistoryList
import MultiCoreMemory.Sniper.RegisterDependencies
import MultiCoreMemory.Sniper.DirectoryEntryLimitless
import MultiCoreMemory.Sniper.MemoryControllers
