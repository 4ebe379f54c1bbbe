import Ukernel.Arch.Paging
import Ukernel.Arch.PagingDirs
import Ukernel.Arch.PagingExact
import Ukernel.Arch.PagingInit
import Ukernel.Arch.PagingOps
import Ukernel.Arch.PagingPool
import Ukernel.Arch.PagingSupply
import Ukernel.Arch.PagingWf
import Ukernel.Arch.UserRange
import Ukernel.Ipc.Broadcast
import Ukernel.Ipc.Mailbox
import Ukernel.Ipc.MailboxBoxes
import Ukernel.Ipc.MailboxHandlers
import Ukernel.Ipc.MailboxOps
import Ukernel.Ipc.MailboxRuns
import Ukernel.Ipc.MailboxSystem
import Ukernel.Ipc.MailboxWait
import Ukernel.Ipc.MailboxWf
import Ukernel.Ipc.Portal
import Ukernel.Ipc.PortalHandles
import Ukernel.Ipc.PortalIds
import Ukernel.Ipc.PortalOrder
import Ukernel.Ipc.PortalRpc
import Ukernel.Ipc.PortalRuns
import Ukernel.Ipc.PortalWakeups
import Ukernel.Ipc.Shm
import Ukernel.Ipc.ShmMany
import Ukernel.Ipc.ShmUndo
import Ukernel.Ipc.Subscriptions
import Ukernel.Ipc.WaitLinks
import Ukernel.Kernel.Capability
import Ukernel.Kernel.CapabilitySets
import Ukernel.Kernel.Elf
import Ukernel.Kernel.ElfContents
import Ukernel.Kernel.ElfReads
import Ukernel.Kernel.Errno
import Ukernel.Kernel.Io
import Ukernel.Kernel.Irq
import Ukernel.Kernel.IrqHandles
import Ukernel.Kernel.IrqOps
import Ukernel.Kernel.IrqOwners
import Ukernel.Kernel.IrqRuns
import Ukernel.Kernel.Process
import Ukernel.Kernel.ProcessFails
import Ukernel.Kernel.ProcessFrame
import Ukernel.Kernel.ProcessHeap
import Ukernel.Kernel.ProcessLife
import Ukernel.Kernel.ProcessLinks
import Ukernel.Kernel.ProcessLoans
import Ukernel.Kernel.ProcessReady
import Ukernel.Kernel.ProcessRuns
import Ukernel.Kernel.ProcessSwitch
import Ukernel.Kernel.Spaces
import Ukernel.Kernel.State
import Ukernel.Kernel.Syscall
import Ukernel.Lib.BlockPool
import Ukernel.Lib.Buffer
import Ukernel.Lib.Links
import Ukernel.Lib.List
import Ukernel.Lib.Number
import Ukernel.Lib.Pool
import Ukernel.Lib.Rbtree
import Ukernel.Lib.RbtreeDelete
import Ukernel.Lib.RbtreeInsert
import Ukernel.Lib.RbtreeIter
import Ukernel.Lib.RbtreeLayout
import Ukernel.Lib.RbtreeRuns
import Ukernel.Lib.RbtreeWalk
import Ukernel.Lib.RedBlack
import Ukernel.Lib.Slots
import Ukernel.Machine.Memory
import Ukernel.Machine.System
import Ukernel.Mm.Effect
import Ukernel.Mm.Heap
import Ukernel.Mm.HeapDoubleFree
import Ukernel.Mm.HeapPools
import Ukernel.Mm.HeapReuse
import Ukernel.Mm.HeapRuns
import Ukernel.Mm.Pmm
import Ukernel.Mm.PmmOps
import Ukernel.Mm.PmmRuns
import Ukernel.Mm.Region
import Ukernel.Mm.Resources
import Ukernel.Mm.Vmm
import Ukernel.Mm.VmmApi
import Ukernel.Mm.VmmBlocks
import Ukernel.Mm.VmmBooks
import Ukernel.Mm.VmmConserve
import Ukernel.Mm.VmmLife
import Ukernel.Mm.VmmLoans
import Ukernel.Mm.VmmLookup
import Ukernel.Mm.VmmRollback
import Ukernel.Mm.VmmSpec
import Ukernel.Sync.RoundRobin
import Ukernel.Sync.Sched
import Ukernel.Sync.Semaphore
import Ukernel.Sync.SemaphoreRuns
import Ukernel.Sync.Threads
import Ukernel.Sync.WaitLinks
import Ukernel.User.NsServer
import Ukernel.User.Terminal
