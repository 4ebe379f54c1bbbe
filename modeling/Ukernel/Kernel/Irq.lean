import Ukernel.Arch.Paging
import Ukernel.Ipc.MailboxSystem
import Ukernel.Lib.BlockPool
import Ukernel.Machine.Memory

/-!
# Interrupts

`kernel/irq.c`. Requests for an interrupt line are kept in a list; when the line fires, the function
of every enabled request is called, or, for a request of a user process, a mail is sent to the
thread that made it.

## What lies in memory

The gate hands the address of a request to its caller and later takes any address back. What the
kernel then reads and writes through it is modelled byte by byte: the fields of requests lie in
`mem`, next to the memory of users, and a lock is released at whatever address the field for it
holds. The lists are kept as lists; they are the same as the links in memory as long as the
addresses that come back are those of requests. Mailboxes, threads and the table of locks are those
of `MailState`.

## Main definitions

* `Irq.isUserIrq` and the other fields
* `IrqState`, with `irqRequestInternal`, `irqReleaseInternal`, `irqMaskInternal`,
  `irqUnmaskInternal`, `irqlineHandler`
* `irqExec`, `irqSyscallIsr`: the gate
* `IrqOp`, `IrqOp.exec`: everything that can happen
-/

namespace Ukernel.Kernel

open Arch Ipc Lib Machine Mm Sync

/-! ## The fields of a request -/

namespace Irq

variable (m : Memory) (p : Nat)

/-- `name`. -/
def name : Nat := load32 m p

/-- `context`. -/
def context : Nat := load32 m (p + 4)

/-- `major`. -/
def major : Nat := load32 m (p + 8)

/-- `minor`. -/
def minor : Nat := load32 m (p + 12)

/-- `enabled`. -/
def enabled : Nat := load32 m (p + 16)

/-- `is_user_irq`. -/
def isUserIrq : Nat := load32 m (p + 20)

/-- `tid`. -/
def tid : Nat := load32 m (p + 24)

/-- `owner`. -/
def owner : Nat := load32 m (p + 28)

/-- `sp_lock`. -/
def spLock : Nat := load32 m (p + 32)

/-- `handler`, behind the two nodes. -/
def handler : Nat := load32 m (p + 52)

/-- `sizeof(irq)`. -/
def size : Nat := 56

end Irq

/-- The word of a signed number. -/
def wordOf (v : Int) : Nat := (v % 2 ^ 32).toNat

/-- `irqline`: the block it lies in, its lock and the requests, the last one in front. -/
structure IrqLine where
  addr : Nat
  spLock : Nat
  irqs : List Nat

/-- The requests for interrupts. `spinlocks` is the address of the table of locks, `tcb` gives the
address of the `tcb` of a thread, and `threadIrqs` the requests in the list of a `tcb`. The last
three fields are for the record: the functions that `irqline_handler` has called, those that have
been registered by the kernel, and whether a `tcb` has been used that is gone. -/
structure IrqState where
  mail : MailState
  mem : Memory
  kheap : BlockPool
  spinlocks : Nat
  tcb : Nat → Nat
  lines : Nat → Option IrqLine
  threadIrqs : Nat → List Nat
  masked : Nat → Bool
  invoked : List Nat
  registered : List Nat
  faulted : Bool

/-- `IDT_ENTRIES`. -/
def idtEntries : Nat := 256

/-- `IRQ_ANY_MINOR`. -/
def irqAnyMinor : Nat := 0xFFFFFFFF

/-- `ARCH_IRQ_BEGIN`. -/
def archIrqBegin : Nat := 0x20

/-- `ARCH_IRQ_END`. -/
def archIrqEnd : Nat := 0x35

namespace IrqState

/-- Replace the mailboxes. -/
def withMail (s : IrqState) (mail : MailState) : IrqState := { s with mail }

/-- Replace the memory. -/
def withMem (s : IrqState) (mem : Memory) : IrqState := { s with mem }

/-- Store a word. -/
def store (s : IrqState) (a v : Nat) : IrqState := s.withMem (store32 s.mem a v)

/-- `kmalloc`. -/
def kmalloc (s : IrqState) (size : Nat) : Nat × IrqState :=
  let (a, kheap) := s.kheap.alloc size
  (a, { s with kheap })

/-- `kfree`; a block that is not in use stays as it is. -/
def kfree (s : IrqState) (a : Nat) : IrqState := { s with kheap := s.kheap.free a }

/-! ## Locks -/

/-- The index of the lock at an address. -/
def lockAt (s : IrqState) (a : Nat) : Option Nat :=
  if s.spinlocks ≤ a ∧ a < s.spinlocks + 4 * Resources.spinLockMaxCount ∧
    (a - s.spinlocks) % 4 = 0 then some ((a - s.spinlocks) / 4)
  else none

/-- Set the word of a lock: `LOCK_INVALID` is 0. What is not in the table is memory. -/
def setLock (s : IrqState) (a v : Nat) : IrqState :=
  match s.lockAt a with
  | some i => s.withMail { s.mail with locks := Function.update s.mail.locks i (v ≠ 0) }
  | none => s.store a v

/-- `spinlock_alloc`: the address of a lock, or 0. -/
def spinlockAlloc (s : IrqState) : Nat × IrqState :=
  match s.mail.spinlockAlloc with
  | (some i, mail) => (s.spinlocks + 4 * i, s.withMail mail)
  | (none, mail) => (0, s.withMail mail)

/-- `spinlock_release`. -/
def spinlockRelease (s : IrqState) (lock : Nat) : IrqState :=
  if lock = 0 then s else s.setLock lock 0

/-- `spinlock_lock`, for a lock that nobody holds. -/
def spinlockLock (s : IrqState) (lock : Nat) : IrqState :=
  if lock = 0 then s else s.setLock lock 2

/-- `spinlock_unlock`. -/
def spinlockUnlock (s : IrqState) (lock : Nat) : IrqState :=
  if lock = 0 then s else s.setLock lock 1

/-! ## Lines -/

/-- Replace a line. -/
def setLine (s : IrqState) (major : Nat) (line : IrqLine) : IrqState :=
  { s with lines := Function.update s.lines major (some line) }

/-- Replace the requests in the list of a `tcb`. -/
def setThreadIrqs (s : IrqState) (t : Nat) (irqs : List Nat) : IrqState :=
  { s with threadIrqs := Function.update s.threadIrqs t irqs }

/-- `arch_mask_irq` and `arch_unmask_irq`. -/
def archSetMask (s : IrqState) (major : Nat) (mask : Bool) : IrqState :=
  if major < archIrqBegin ∨ major > archIrqEnd then s
  else { s with masked := Function.update s.masked major mask }

/-- `irqline_mask`: a line without enabled requests is masked. -/
def irqlineMask (s : IrqState) (major : Nat) (line : IrqLine) : IrqState :=
  if line.irqs.any fun p => Irq.enabled s.mem p ≠ 0 then s else s.archSetMask major true

/-- `irqline_unmask`: a line with an enabled request is unmasked. -/
def irqlineUnmask (s : IrqState) (major : Nat) (line : IrqLine) : IrqState :=
  if line.irqs.any fun p => Irq.enabled s.mem p ≠ 0 then s.archSetMask major false else s

/-- `irqline_init` with `irqline_alloc`: the answer; a line may be without a lock. -/
def irqlineInit (s : IrqState) (major : Nat) : Int × IrqState :=
  if major ≥ idtEntries then (eInval, s)
  else
    let (a, s) := s.kmalloc 20
    if a = 0 then (eNomem, s)
    else
      let (lock, s) := s.spinlockAlloc
      (0, s.setLine major ⟨a, lock, []⟩)

/-- A minor is taken. -/
def minorUsed (s : IrqState) (line : IrqLine) (minor : Nat) : Bool :=
  line.irqs.any fun p => Irq.minor s.mem p == minor

/-- `irqline_find_free_minor`. -/
def irqlineFindFreeMinor (s : IrqState) (line : IrqLine) : Nat :=
  (firstFree (s.minorUsed line) (2 ^ 32 - 1) 0).getD irqAnyMinor

/-! ## Requests -/

/-- The fields of a new request, without its lock. -/
def initIrq (m : Memory) (p major minor isUserIrq : Nat) (tid : Int) (name context handler : Nat) :
    Memory :=
  let m := memset m p 0 Irq.size
  let m := store32 m p name
  let m := store32 m (p + 4) context
  let m := store32 m (p + 8) major
  let m := store32 m (p + 12) minor
  let m := store32 m (p + 52) handler
  let m := store32 m (p + 16) 0
  let m := store32 m (p + 20) isUserIrq
  let m := store32 m (p + 24) (wordOf tid)
  store32 m (p + 28) 0

/-- `irq_alloc`: the answer, and what `*out` becomes if it is written. -/
def irqAlloc (s : IrqState) (major minor isUserIrq : Nat) (tid : Int)
    (name context handler : Nat) : Int × Option Nat × IrqState :=
  let (p, s) := s.kmalloc Irq.size
  if p = 0 then (eNomem, none, s)
  else
    let s := s.withMem (initIrq s.mem p major minor isUserIrq tid name context handler)
    let (lock, s) := s.spinlockAlloc
    let s := s.store (p + 32) lock
    if lock = 0 then (eLimit, some 0, s.kfree p) else (0, some p, s)

/-- `irq_free`. -/
def irqFree (s : IrqState) (p : Nat) : IrqState :=
  if p = 0 then s else (s.spinlockRelease (Irq.spLock s.mem p)).kfree p

/-- The first part of `irq_release_internal`: the line forgets a request. -/
def leaveLine (s : IrqState) (p : Nat) : IrqState :=
  let major := Irq.major s.mem p
  match s.lines major with
  | none => s
  | some line =>
    let line := { line with irqs := line.irqs.erase p }
    (s.setLine major line).irqlineMask major line

/-- The second part: its thread forgets it. -/
def leaveThread (s : IrqState) (p : Nat) : IrqState :=
  let owner := Irq.owner s.mem p
  if owner = 0 then s else s.setThreadIrqs owner ((s.threadIrqs owner).erase p)

/-- `irq_release_internal`. -/
def irqReleaseInternal (s : IrqState) (p : Nat) : IrqState :=
  if p = 0 ∨ Irq.major s.mem p ≥ idtEntries then s
  else ((s.leaveLine p).leaveThread p).irqFree p

/-- The end of `irq_request_internal`: a request enters the list of its thread and its line. -/
def enterLine (s : IrqState) (major : Nat) (line : IrqLine) (p isUserIrq : Nat) (tid : Int) :
    IrqState :=
  let s :=
    match if isUserIrq ≠ 0 then s.mail.threadGetByTid tid else none with
    | some t =>
      (s.store (p + 28) (s.tcb t)).setThreadIrqs (s.tcb t) (p :: s.threadIrqs (s.tcb t))
    | none => s
  s.setLine major { line with irqs := p :: line.irqs }

/-- The part of `irq_request_internal` that begins with the new request. -/
def irqRequestNew (s : IrqState) (out name major minor handler context isUserIrq : Nat)
    (tid : Int) : Int × Nat × IrqState :=
  match s.irqAlloc major minor isUserIrq tid name context handler with
  | (ret, some p, s) =>
    if ret ≠ 0 ∨ p = 0 then (ret, p, s)
    else
      let (ret, s) := if s.lines major = none then s.irqlineInit major else (0, s)
      if ret ≠ 0 then (eInternal, 0, s.irqReleaseInternal p)
      else
        match s.lines major with
        | none => (0, p, s)
        | some line =>
          if s.minorUsed line minor then (eIrqInuse, 0, s.irqReleaseInternal p)
          else (0, p, s.enterLine major line p isUserIrq tid)
  | (ret, none, s) => (ret, out, s)

/-- The gate of `irq_request_internal` and of `irq_syscall_isr`. -/
def irqPermitted (proc : Option Pcb) (major : Nat) : Bool :=
  match proc with
  | none => true
  | some p => p.priv = .kernel ∨ capCheck p.capabilities (.ownIrq major) = 0

/-- `irq_request_internal`, with the current process: the answer and the handle. -/
def irqRequestInternal (proc : Option Pcb) (s : IrqState)
    (out name major minor handler context isUserIrq : Nat) (tid : Int) : Int × Nat × IrqState :=
  if major ≥ idtEntries then (eInval, out, s)
  else if ¬irqPermitted proc major then (ePerm, out, s)
  else if minor ≠ irqAnyMinor then
    s.irqRequestNew out name major minor handler context isUserIrq tid
  else
    let (ret, s) := if s.lines major = none then s.irqlineInit major else (0, s)
    if ret ≠ 0 then (eInternal, out, s)
    else
      match s.lines major with
      | none => (eInternal, out, s)
      | some line =>
        let minor := s.irqlineFindFreeMinor line
        if minor = irqAnyMinor then (eIrqNotavail, out, s)
        else s.irqRequestNew out name major minor handler context isUserIrq tid

/-- `irq_mask_internal` and `irq_unmask_internal`, up to the line. -/
def irqSetEnabled (s : IrqState) (p enabled : Nat) : IrqState :=
  let s := s.spinlockLock (Irq.spLock s.mem p)
  let s := s.store (p + 16) enabled
  s.spinlockUnlock (Irq.spLock s.mem p)

/-- `irq_mask_internal`. -/
def irqMaskInternal (s : IrqState) (p : Nat) : Int × IrqState :=
  if p = 0 ∨ Irq.major s.mem p ≥ idtEntries then (eInval, s)
  else
    let s := s.irqSetEnabled p 0
    match s.lines (Irq.major s.mem p) with
    | none => (0, s)
    | some line => (0, s.irqlineMask (Irq.major s.mem p) line)

/-- `irq_unmask_internal`. -/
def irqUnmaskInternal (s : IrqState) (p : Nat) : Int × IrqState :=
  if p = 0 ∨ Irq.major s.mem p ≥ idtEntries then (eInval, s)
  else
    let s := s.irqSetEnabled p 1
    match s.lines (Irq.major s.mem p) with
    | none => (0, s)
    | some line => (0, s.irqlineUnmask (Irq.major s.mem p) line)

/-! ## An interrupt -/

/-- `dispatch_user_mode_irq`. -/
def dispatchUserModeIrq (s : IrqState) (p : Nat) : IrqState :=
  let owner := Irq.owner s.mem p
  if owner = 0 then s
  else
    match s.mail.sched.order.find? fun t => s.tcb t == owner with
    | some t => s.withMail (s.mail.dispatchUserModeIrq t (signedOf (Irq.tid s.mem p)))
    | none => { s with faulted := true }

/-- The body of the loop of `irqline_handler`. -/
def handleIrq (s : IrqState) (p : Nat) : IrqState :=
  if Irq.enabled s.mem p = 0 then s
  else if Irq.isUserIrq s.mem p ≠ 0 then s.dispatchUserModeIrq p
  else { s with invoked := Irq.handler s.mem p :: s.invoked }

/-- `irqline_handler`. -/
def irqlineHandler (s : IrqState) (major : Nat) : IrqState :=
  match s.lines major with
  | none => s
  | some line => line.irqs.foldl handleIrq s

/-! ## Threads -/

/-- `thread_get_tid`. -/
def threadGetTid (s : IrqState) : Int :=
  match s.mail.sched.run with
  | some t => t
  | none => -1

/-- `thread_create_ex_internal`, as far as mailboxes and requests go. -/
def threadCreate (s : IrqState) (pid tid tcb : Nat) : IrqState :=
  { s with
    mail := s.mail.threadCreate pid tid
    tcb := Function.update s.tcb tid tcb
    threadIrqs := Function.update s.threadIrqs tcb [] }

/-- `thread_delete_internal`: the requests of the thread go with it. -/
def threadDelete (s : IrqState) (tid : Nat) : IrqState :=
  let mail := s.mail.threadDelete tid
  if tid ∈ s.mail.sched.order ∧ tid ∉ mail.sched.order then
    (s.threadIrqs (s.tcb tid)).foldl irqReleaseInternal (s.withMail mail)
  else s.withMail mail

end IrqState

/-! ## The gate -/

/-- `irq_ctrl_config`. -/
structure IrqCtrlConfig where
  cmd : Nat
  handle : Nat
  name : Nat
  major : Nat
  minor : Nat
  handler : Nat
  param : Nat
  isUserIrq : Nat
  tid : Int
  ret : Int

/-- `irq_syscall_cmd`. -/
inductive IrqSyscallCmd where
  | request
  | release
  | mask
  | unmask
  deriving DecidableEq, Repr

/-- The command that a number stands for. -/
def IrqSyscallCmd.decode : Nat → Option IrqSyscallCmd
  | 0 => some .request
  | 1 => some .release
  | 2 => some .mask
  | 3 => some .unmask
  | _ => none

/-- The kernel trusts a process, or there is none. -/
def trusted (proc : Option Pcb) : Bool :=
  match proc with
  | none => true
  | some p => p.priv = .kernel

/-- `irq_exec`, with the current process: the configuration that goes back and the new state. -/
def irqExec (proc : Option Pcb) (s : IrqState) (cfg : IrqCtrlConfig) : IrqCtrlConfig × IrqState :=
  match IrqSyscallCmd.decode cfg.cmd with
  | some .request =>
    let isUserIrq := if trusted proc then 0 else 1
    let tid := if trusted proc then 0 else s.threadGetTid
    let (ret, handle, s) := s.irqRequestInternal proc cfg.handle cfg.name cfg.major cfg.minor
      cfg.handler cfg.param isUserIrq tid
    ({ cfg with isUserIrq, tid, handle, ret }, s)
  | some .release => ({ cfg with ret := 0 }, s.irqReleaseInternal cfg.handle)
  | some .mask =>
    let (ret, s) := s.irqMaskInternal cfg.handle
    ({ cfg with ret }, s)
  | some .unmask =>
    let (ret, s) := s.irqUnmaskInternal cfg.handle
    ({ cfg with ret }, s)
  | none => ({ cfg with ret := -eInval }, s)

/-- `irq_syscall_isr`, with the current process. -/
def irqSyscallIsr (proc : Option Pcb) (s : IrqState) (cfg : IrqCtrlConfig) :
    IrqCtrlConfig × IrqState :=
  if cfg.cmd = 0 ∧ ¬IrqState.irqPermitted proc cfg.major then ({ cfg with ret := ePerm }, s)
  else irqExec proc s cfg

/-! ## Everything that can happen -/

/-- A step of mailboxes and interrupts. -/
inductive IrqOp where
  /-- A step of mailboxes. -/
  | mail (op : MailOp)
  /-- The running thread traps into the gate of interrupts, on behalf of a process. -/
  | syscall (proc : Option Pcb) (cfg : IrqCtrlConfig)
  /-- A line fires. -/
  | interrupt (major : Nat)
  /-- A user writes to its memory. -/
  | store (a v : Nat)
  | threadCreate (pid tid tcb : Nat)
  | threadDelete (tid : Nat)

namespace IrqOp

/-- The function that a command to the mailboxes registers on behalf of the kernel, for the
record. -/
def recordMail (s : IrqState) : MailOp → List Nat
  | .syscall proc cfg =>
    if trusted proc ∧ MailboxCtrlCmd.decode cfg.cmd = some .registerHandler ∧
      (mailboxSyscallIsr proc s.mail cfg).1.ret = 0 then [cfg.handler]
    else []
  | _ => []

/-- The function that a request registers on behalf of the kernel, for the record. -/
def recordIrq (proc : Option Pcb) (s : IrqState) (cfg : IrqCtrlConfig) : List Nat :=
  if trusted proc ∧ IrqSyscallCmd.decode cfg.cmd = some .request ∧
    (irqSyscallIsr proc s cfg).1.ret = 0 then [cfg.handler % 2 ^ 32]
  else []

/-- What a step does. -/
def exec (s : IrqState) : IrqOp → IrqState
  | .mail op => { s with mail := op.exec s.mail, registered := recordMail s op ++ s.registered }
  | .syscall proc cfg =>
    let s' := (irqSyscallIsr proc s cfg).2
    { s' with registered := recordIrq proc s cfg ++ s'.registered }
  | .interrupt major => s.irqlineHandler major
  | .store a v => s.store a v
  | .threadCreate pid tid tcb => s.threadCreate pid tid tcb
  | .threadDelete tid => s.threadDelete tid

end IrqOp

end Ukernel.Kernel
