import Kfs.Lib.Word
import Kfs.Lib.Mem
import Kfs.Lib.Run
import Kfs.Lib.Chain
import Kfs.Lib.Circle
import Kfs.Lib.Bitmap
import Kfs.Lib.Ring
import Kfs.Lib.Cells
import Kfs.Pmm
import Kfs.PmmFrames
import Kfs.PmmRuns
import Kfs.PmmSets
import Kfs.PmmAccounting
import Kfs.PmmUndo
import Kfs.PmmFirstFit
import Kfs.PmmStretches
import Kfs.Kmalloc
import Kfs.KmallocBlocks
import Kfs.KmallocRep
import Kfs.KmallocOps
import Kfs.KmallocHeap
import Kfs.KmallocRuns
import Kfs.KmallocSizes
import Kfs.KmallocFirstFit
import Kfs.KmallocUndo
import Kfs.KmallocStats
import Kfs.KmallocDoubleFree
import Kfs.Paging
import Kfs.ProcessMemory
import Kfs.Process
import Kfs.ProcessEvents
import Kfs.ProcessCore
import Kfs.ProcessEffects
import Kfs.ProcessShape
import Kfs.ProcessLinks
import Kfs.ProcessTable
import Kfs.ProcessWalks
import Kfs.ProcessKin
import Kfs.ProcessZombies
import Kfs.ProcessWaits
import Kfs.ProcessSockets
import Kfs.Lib.Ledger
import Kfs.PagingEntries
import Kfs.ProcessSpaces
import Kfs.ProcessRegions
import Kfs.ProcessIsolation
import Kfs.PmmDeclared
import Kfs.PmmExact
import Kfs.Signals
import Kfs.IrqRings
import Kfs.PagingFlat
import Kfs.PagingRuns
import Kfs.PageRights
import Kfs.Vmalloc
import Kfs.VmallocPages
import Kfs.VmallocRegions
import Kfs.Boot
import Kfs.VmallocRuns
import Kfs.VmallocSizes
import Kfs.VmallocBreak
import Kfs.BreakBounds
import Kfs.System
import Kfs.LowFrames
import Kfs.LowMemory
import Kfs.PagingStable
import Kfs.FrameSupply
import Kfs.ProcessUndo
import Kfs.SystemStable
import Kfs.CreationFailure
import Kfs.MemoryExhaustion
import Kfs.SystemFrames
import Kfs.ExecFn
import Kfs.UserEvents
import Kfs.ProcessHeap
import Kfs.HeapReservations
import Kfs.ProcessFork
import Kfs.SharedMaps
import Kfs.TerminationAuthority
import Kfs.Terminal
import Kfs.TerminalScreen
import Kfs.TerminalBounds
import Kfs.TerminalTape
import Kfs.ProcessMoves
import Kfs.ProcessContext
import Kfs.ProcessSignals
import Kfs.Syscalls
import Kfs.Scheduler
import Kfs.SchedulerContext
import Kfs.SchedulerRotation
import Kfs.SignalSteps
import Kfs.SignalDelivery
import Kfs.Keyboard
import Kfs.Scancodes
import Kfs.LineInput
import Kfs.ShellNumbers
import Kfs.Hexdump
import Kfs.KmallocAligned
import Kfs.ExitCodes
import Kfs.Demos
import Kfs.Undisturbed
import Kfs.ShellCalls
import Kfs.DemoThreads
import Kfs.DemoTasks
import Kfs.MachineRuns
import Kfs.DemoCounters
import Kfs.MachineProgress
import Kfs.DemoSockets
import Kfs.CountersEnd
import Kfs.ContextSwitch
import Kfs.InterruptRuns
import Kfs.KmallocHistory
import Kfs.ShellCommands
