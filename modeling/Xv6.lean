import Xv6.Lib.Bytes
import Xv6.Lib.Chain
import Xv6.Lib.Ledger
import Xv6.Lib.Ring
import Xv6.Lib.Sim
import Xv6.Lib.Symbols
import Xv6.Lib.Tally
import Xv6.Lib.Transition
import Xv6.Lib.Wp
import Xv6.Lib.Writes
import Xv6.Lib.Zoom
import Xv6.Kernel.Bio
import Xv6.Kernel.Console
import Xv6.Kernel.ConsoleLine
import Xv6.Kernel.Cprintf
import Xv6.Kernel.Dir
import Xv6.Kernel.FsLoad
import Xv6.Kernel.Icache
import Xv6.Kernel.Ide
import Xv6.Kernel.IdeError
import Xv6.Kernel.Inode
import Xv6.Kernel.Log
import Xv6.Kernel.LogOps
import Xv6.Kernel.Mp
import Xv6.Kernel.Param
import Xv6.Kernel.Path
import Xv6.Kernel.Pipe
import Xv6.Kernel.ProcVm
import Xv6.Kernel.Sched
import Xv6.Kernel.Signal
import Xv6.Kernel.Sleep
import Xv6.Kernel.Sleeplock
import Xv6.Kernel.Strings
import Xv6.Kernel.SysFile
import Xv6.Kernel.Syscall
import Xv6.Kernel.Ticks
import Xv6.Kernel.Vm
import Xv6.Spec.AddressSpace
import Xv6.Spec.Blocks
import Xv6.Spec.FileArray
import Xv6.Spec.FileTree
import Xv6.Spec.Files
import Xv6.Spec.LineEditor
import Xv6.Spec.OpenFile
import Xv6.Spec.Pages
import Xv6.Spec.Pattern
import Xv6.Verif.ArgCheck
import Xv6.Verif.BlockAccount
import Xv6.Verif.BlockAlloc
import Xv6.Verif.BlockFree
import Xv6.Verif.BufferCache
import Xv6.Verif.CacheRoom
import Xv6.Verif.ConsoleEdit
import Xv6.Verif.DirEntries
import Xv6.Verif.DirMap
import Xv6.Verif.DirRead
import Xv6.Verif.ExecOverrun
import Xv6.Verif.ExecSpace
import Xv6.Verif.FileBlocks
import Xv6.Verif.FileBytes
import Xv6.Verif.FileCalls
import Xv6.Verif.FileState
import Xv6.Verif.FileStore
import Xv6.Verif.FileWrite
import Xv6.Verif.FirstProcess
import Xv6.Verif.ForkBooks
import Xv6.Verif.FsCheck
import Xv6.Verif.FsRoom
import Xv6.Verif.GrepLines
import Xv6.Verif.GrepMatch
import Xv6.Verif.GroupCommit
import Xv6.Verif.GrowProc
import Xv6.Verif.IcacheLeak
import Xv6.Verif.IcacheSync
import Xv6.Verif.IdeErrors
import Xv6.Verif.IdeQueue
import Xv6.Verif.KillWindow
import Xv6.Verif.LoadLog
import Xv6.Verif.LogCrash
import Xv6.Verif.MkfsFiles
import Xv6.Verif.MkfsGeometry
import Xv6.Verif.MkfsImage
import Xv6.Verif.MkfsKernel
import Xv6.Verif.MkfsLayout
import Xv6.Verif.MpScan
import Xv6.Verif.Numbers
import Xv6.Verif.PageBooks
import Xv6.Verif.PageEntries
import Xv6.Verif.PageLedger
import Xv6.Verif.PageOwnership
import Xv6.Verif.PathWalk
import Xv6.Verif.PipeFifo
import Xv6.Verif.PipeSleep
import Xv6.Verif.ProcLedger
import Xv6.Verif.Reservation
import Xv6.Verif.SchedCpus
import Xv6.Verif.SchedFamily
import Xv6.Verif.SchedKill
import Xv6.Verif.SchedMemory
import Xv6.Verif.SchedRecord
import Xv6.Verif.SchedSafety
import Xv6.Verif.SchedSteps
import Xv6.Verif.SchedTable
import Xv6.Verif.ShExit
import Xv6.Verif.ShWords
import Xv6.Verif.SharedWrites
import Xv6.Verif.SignalWakeup
import Xv6.Verif.SleepFlow
import Xv6.Verif.SleepKill
import Xv6.Verif.SleepLocks
import Xv6.Verif.SleepOutline
import Xv6.Verif.SleepOwner
import Xv6.Verif.SleepSteps
import Xv6.Verif.SleepWakeup
import Xv6.Verif.SpaceBuild
import Xv6.Verif.SpaceCopy
import Xv6.Verif.SpaceOps
import Xv6.Verif.SpaceUser
import Xv6.Verif.StringOps
import Xv6.Verif.TicksSleep
import Xv6.Verif.Volume
import Xv6.Verif.Weekday
import Xv6.Host.Mkfs
import Xv6.User.Date
import Xv6.User.Grep
import Xv6.User.Sh
import Xv6.User.ShMain
import Xv6.User.Ulib
