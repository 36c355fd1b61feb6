import MyOs.Theory.Word
import MyOs.Theory.Run
import MyOs.Theory.Paging
import MyOs.Theory.Places
import MyOs.Theory.Ring
import MyOs.Theory.Links
import MyOs.Theory.Stack
import MyOs.Theory.Ledger
import MyOs.Theory.Bytes
import MyOs.Theory.Reach
import MyOs.Theory.Writes
import MyOs.Theory.Positions
import MyOs.Theory.Comparison
import MyOs.Theory.Held
import MyOs.Theory.Terminal
import MyOs.Theory.RoundRobin
import MyOs.Theory.Message
import MyOs.Theory.Waiting
import MyOs.Kernel.Debug
import MyOs.Lib.Bitmap
import MyOs.Lib.LinkedList
import MyOs.Lib.Print
import MyOs.Lib.PutInt
import MyOs.Lib.CString
import MyOs.Lib.CharSearch
import MyOs.Lib.StrCompare
import MyOs.Device.Timer
import MyOs.Thread.Lock
import MyOs.Kernel.AddressSpace
import MyOs.Boot.Loader
import MyOs.Boot.MemProbe
import MyOs.Boot.ArdsBuf
import MyOs.Boot.LoaderCpu
import MyOs.Boot.KernelInit
import MyOs.Kernel.Memory
import MyOs.Userprog.Process
import MyOs.Kernel.MemPool
import MyOs.Kernel.PageTable
import MyOs.Kernel.PageWindow
import MyOs.Kernel.MemoryInv
import MyOs.Kernel.MemoryCalls
import MyOs.Userprog.PageDir
import MyOs.Kernel.Allocator
import MyOs.Kernel.Failure
import MyOs.Kernel.Preemption
import MyOs.Kernel.PreemptionFrames
import MyOs.Kernel.PreemptionPages
import MyOs.Kernel.PreemptionSafe
import MyOs.Kernel.Interrupt
import MyOs.Thread.InitThread
import MyOs.Thread.Switch
import MyOs.Kernel.IntrEntry
import MyOs.Kernel.Idt
import MyOs.Userprog.StartProcess
import MyOs.Userprog.Tss
import MyOs.Userprog.Syscall
import MyOs.Thread.State
import MyOs.Thread.Sync
import MyOs.Device.Ioqueue
import MyOs.Thread.Machine
import MyOs.Thread.Queues
import MyOs.Thread.Creation
import MyOs.Thread.Scheduler
import MyOs.Thread.TimeSlices
import MyOs.Thread.LockProtocol
import MyOs.Thread.LockMoves
import MyOs.Thread.Mutex
import MyOs.Thread.Waiters
import MyOs.Thread.Pid
import MyOs.Thread.Asserts
import MyOs.Thread.KernelLock
import MyOs.Device.Fifo
import MyOs.Device.Sleep
import MyOs.Device.Keyboard
import MyOs.Device.Scancodes
import MyOs.Device.Modifiers
import MyOs.Device.ConsoleMoves
import MyOs.Device.Console
import MyOs.Theory.Masking
import MyOs.Thread.IntrFlag
import MyOs.Thread.SeenFlag
import MyOs.Thread.ReadyWait
import MyOs.Userprog.KernelStack
import MyOs.Userprog.Getpid
import MyOs.Boot.Disk
import MyOs.Boot.KernelLoad
import MyOs.Thread.CallLocks
import MyOs.Thread.TagLists
import MyOs.Thread.ListCalls
import MyOs.Thread.QueueMemory
import MyOs.Device.Records
import MyOs.Theory.WaitFor
