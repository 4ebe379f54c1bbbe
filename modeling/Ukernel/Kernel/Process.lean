import Ukernel.Kernel.Capability
import Ukernel.Mm.Vmm
import Ukernel.Sync.Threads

/-!
# Processes and threads

`kernel/process.c` with what it uses of `arch/i386/task.c` and of `kernel/ipc/mailbox.c`. A `pcb`
and a `tcb` are named by their addresses. The threads are those of the scheduler (`Sync.Sched`); the
other fields of their records, the processes with their address spaces, and the resources that all
of them draw on are added here.

## Switching

A switch is only requested while the kernel is in a gate: `thread_ctx_info` says which address space
and which context are to be loaded, and `arch_task_context_switch` loads them where the gate is
left. `thread_run` changes with the request.

## What is left out

The entry and the parameter of a thread, and the frame on its stack, are not used by the functions
here. The requests for interrupts that a thread has made and the mails in its mailbox have models of
their own (`IrqState`, `MailState`); here a mailbox is a block with a lock. Where a halt is the end
of `proc_exit_internal`, the table is marked, and nothing happens any more.

## Main definitions

* `TcbFields`, `PcbFields`, `ProcTable`: the records
* `ProcTable.threadCreateEx`, `ProcTable.threadDelete`, `ProcTable.threadBlock`,
  `ProcTable.threadUnblock`, `ProcTable.threadYield`, `ProcTable.scheduleIsr`: threads
* `ProcTable.pCreateEx`, `ProcTable.procExit`, `ProcTable.procBlock`, `ProcTable.procUnblock`:
  processes
* `ProcTable.archTaskContextSwitch`: the end of a gate
* `ProcOp`, `ProcOp.exec`: everything that can happen
-/

namespace Ukernel.Kernel

open Arch Lib Mm Sync

/-- `tcb`, without the fields that the scheduler keeps. -/
structure TcbFields where
  tid : Nat
  parent : Nat
  ring : Priv
  stack : Nat
  spLock : Nat

/-- `pcb`; `blocked` stands for `PS_PENDING`. -/
structure PcbFields where
  pid : Nat
  blocked : Bool
  priv : Priv
  tcbs : List Nat
  spLock : Nat
  capLock : Nat
  vcb : Vcb
  capabilities : List Capability

/-- `thread_context_switch_info`: the process whose address space is to be loaded and the thread
whose context is, with 0 for none. -/
structure SwitchInfo where
  vcb : Nat
  currTaskCtx : Nat

/-- The processes and threads. `boxLock` is the lock of a mailbox, `cr3` and `currTaskCtx` say what
is loaded; `nextTid`, `nextPid` and `timeslice` are counters. -/
structure ProcTable where
  mm : Resources
  sched : Sched
  tcb : Nat → TcbFields
  procHead : List Nat
  pcb : Nat → PcbFields
  boxLock : Nat → Nat
  ctxInfo : SwitchInfo
  cr3 : Nat
  currTaskCtx : Nat
  nextTid : Nat
  nextPid : Nat
  timeslice : Nat
  halted : Bool

namespace ProcTable

/-- Replace the resources. -/
def withMm (s : ProcTable) (mm : Resources) : ProcTable := { s with mm }

/-- Replace the threads. -/
def withSched (s : ProcTable) (sched : Sched) : ProcTable := { s with sched }

/-- Replace a process. -/
def setPcb (s : ProcTable) (p : Nat) (v : PcbFields) : ProcTable :=
  { s with pcb := Function.update s.pcb p v }

/-- Replace the resources and the address space of a process. -/
def withSpace (s : ProcTable) (p : Nat) (mm : Resources) (vcb : Vcb) : ProcTable :=
  (s.withMm mm).setPcb p { s.pcb p with vcb }

/-- `kfree`. -/
def kfree (s : ProcTable) (a : Nat) : ProcTable := s.withMm (s.mm.kfree a)

/-- `spinlock_release`. -/
def spinlockRelease (s : ProcTable) (i : Nat) : ProcTable := s.withMm (s.mm.spinlockRelease i)

/-- The search for a thread. -/
def findThread (s : ProcTable) (tid : Nat) : Option Nat :=
  s.sched.order.find? fun t => (s.tcb t).tid == tid

/-- The search for a process. -/
def findProc (s : ProcTable) (pid : Nat) : Option Nat :=
  s.procHead.find? fun p => (s.pcb p).pid == pid

/-! ## Switching -/

/-- `request_switch_context`. -/
def requestSwitchContext (s : ProcTable) (old next : Nat) : ProcTable :=
  let parent := (s.tcb next).parent
  { s with ctxInfo := ⟨if (s.tcb old).parent ≠ parent then parent else 0, next⟩ }

/-- `vmm_switch`, for the address space of a process. -/
def vmmSwitch (s : ProcTable) (p : Nat) : ProcTable :=
  if (s.pcb p).vcb.cr3 = 0 then s else { s with cr3 := (s.pcb p).vcb.cr3 }

/-- `arch_task_context_switch`. -/
def archTaskContextSwitch (s : ProcTable) : ProcTable :=
  let s := if s.ctxInfo.vcb ≠ 0 then s.vmmSwitch s.ctxInfo.vcb else s
  let s :=
    if s.ctxInfo.currTaskCtx ≠ 0 then { s with currTaskCtx := s.ctxInfo.currTaskCtx } else s
  { s with ctxInfo := ⟨0, 0⟩ }

/-- Another thread runs from now on. -/
def runNext (s : ProcTable) (old next : Nat) (sched : Sched) : ProcTable :=
  (s.withSched { sched with run := some next }).requestSwitchContext old next

/-- `thread_yield_internal` and `schedule_if_needed`. -/
def threadYield (s : ProcTable) : ProcTable :=
  match s.sched.run with
  | none => s
  | some old =>
    match s.sched.findNextRunnable old with
    | (some next, sched) => s.runNext old next sched
    | (none, _) => s

/-- `schedule_isr`; the lock of the scheduler may be taken. -/
def scheduleIsr (s : ProcTable) (locked : Bool) : ProcTable :=
  let timeslice := (s.timeslice + 1) % 2 ^ 32
  if timeslice < 5 then { s with timeslice }
  else
    let s := { s with timeslice := 0 }
    if locked then s else s.threadYield

/-! ## Blocking -/

/-- `thread_block_internal` for a thread that has been found. -/
def blockThread (s : ProcTable) (t : Nat) : ProcTable :=
  if (s.sched.thread t).wakePending then
    s.withSched (s.sched.modify t fun th => { th with wakePending := false })
  else
    let s := s.withSched (s.sched.modify t fun th => { th with state := .pending })
    if s.sched.run = some t then s.threadYield else s

/-- `thread_block_internal`. -/
def threadBlock (s : ProcTable) (tid : Nat) : ProcTable :=
  if s.sched.run = none then s
  else
    match s.findThread tid with
    | none => s
    | some t => s.blockThread t

/-- `thread_unblock_internal`. -/
def threadUnblock (s : ProcTable) (tid : Nat) : ProcTable :=
  if s.sched.run = none then s
  else
    match s.findThread tid with
    | none => s
    | some t =>
      s.withSched (s.sched.modify t fun th => { th with wakePending := true, state := .ready })

/-- The loop of `proc_block_internal` and `proc_unblock_internal`. -/
def setStates (s : ProcTable) (p : Nat) (blocked : Bool) (state : ThreadState) : ProcTable :=
  let s := s.setPcb p { s.pcb p with blocked }
  s.withSched ((s.pcb p).tcbs.foldl
    (fun sched t => sched.modify t fun th => { th with state }) s.sched)

/-- `proc_block_internal`. -/
def procBlock (s : ProcTable) (pid : Nat) : ProcTable :=
  match s.findProc pid with
  | none => s
  | some p => s.setStates p true .pending

/-- `proc_unblock_internal`. -/
def procUnblock (s : ProcTable) (pid : Nat) : ProcTable :=
  match s.findProc pid with
  | none => s
  | some p => s.setStates p false .ready

/-- `wait_queue_sleep_locked`. -/
def waitQueueSleepLocked (s : ProcTable) (wq : Nat) : ProcTable :=
  match s.sched.run with
  | none => s
  | some run =>
    match s.findThread (s.tcb run).tid with
    | none => s
    | some curr =>
      if (s.sched.thread curr).waitingOn ≠ 0 then s
      else (s.withSched (s.sched.enlist curr wq)).threadBlock (s.tcb curr).tid

/-- `wait_queue_wake_one` and `wait_queue_wake_one_locked`. -/
def waitQueueWakeOne (s : ProcTable) (wq : Nat) : ProcTable :=
  match (s.sched.waiters wq).find? fun t => (s.sched.thread t).waitingOn == wq with
  | none => s
  | some t => (s.withSched (s.sched.delist t wq)).threadUnblock (s.tcb t).tid

/-! ## Creation -/

/-- `arch_task_context_init`: the stack, for a context in an address space. -/
def archTaskContextInit (L : Layout) (s : ProcTable) (p : Nat) :
    (ring : Priv) → Option Nat × ProcTable
  | .user =>
    let (stack, mm, vcb) := vmmAllocPages L s.mm (s.pcb p).vcb 1 pteUserPage
    let s := s.withSpace p mm vcb
    if stack = 0 then (none, s)
    else if vmmVcbVaToPa mm vcb stack = 0 then
      let (mm, vcb) := vmmFreePages mm vcb stack
      (none, s.withSpace p mm vcb)
    else (some stack, s)
  | .kernel =>
    let (stack, mm) := s.mm.kmalloc
    (if stack = 0 then none else some stack, s.withMm mm)

/-- `arch_task_context_release`; the context is cleared, and its record goes with it. -/
def archTaskContextRelease (s : ProcTable) (p : Nat) (ring : Priv) (stack : Nat) : ProcTable :=
  if stack = 0 then s
  else
    match ring with
    | .user =>
      let (mm, vcb) := vmmFreePages s.mm (s.pcb p).vcb stack
      s.withSpace p mm vcb
    | .kernel => s.kfree stack

/-- `alloc_mailbox`. -/
def allocMailbox (s : ProcTable) : Nat × ProcTable :=
  let (mb, mm) := s.mm.kmalloc
  let s := s.withMm mm
  if mb = 0 then (0, s)
  else
    match s.mm.spinlockAlloc with
    | (none, mm) => (0, (s.withMm mm).kfree mb)
    | (some lock, mm) =>
      (mb, { s with
        mm
        boxLock := Function.update s.boxLock mb lock
        sched := s.sched.setWaiters mb [] })

/-- `release_mailbox`; the record is cleared. -/
def releaseMailbox (s : ProcTable) (mb : Nat) : ProcTable :=
  if mb = 0 then s
  else ((s.spinlockRelease (s.boxLock mb)).withSched (s.sched.setWaiters mb [])).kfree mb

/-- A new thread enters the list of its process and `thread_head`. -/
def linkThread (s : ProcTable) (t : Nat) (f : TcbFields) (initial : ThreadState) : ProcTable :=
  let v := s.pcb f.parent
  { s with
    tcb := Function.update s.tcb t f
    pcb := Function.update s.pcb f.parent { v with tcbs := t :: v.tcbs }
    sched := s.sched.enter t ⟨v.pid, initial, false, 0, 0⟩
    nextTid := (s.nextTid + 1) % 2 ^ 32 }

/-- The first thread is switched to directly. -/
def startFirst (s : ProcTable) (t p : Nat) : ProcTable :=
  { (s.withSched (s.sched.startFirst t)).vmmSwitch p with currTaskCtx := t }

/-- A new thread gets its mailbox. -/
def giveMailbox (s : ProcTable) (t : Nat) : ProcTable :=
  let (mb, s) := s.allocMailbox
  s.withSched (s.sched.modify t fun th => { th with mailbox := mb })

/-- `thread_create_ex_internal`. -/
def threadCreateEx (L : Layout) (s : ProcTable) (p : Nat) (ring : Priv) (initial : ThreadState) :
    Int × ProcTable :=
  if p = 0 then (eInval, s)
  else
    let (t, mm) := s.mm.kmalloc
    let s := s.withMm mm
    if t = 0 then (eNomem, s)
    else
      match s.archTaskContextInit L p ring with
      | (none, s) => (eThreadCreate, s.kfree t)
      | (some stack, s) =>
        match s.mm.spinlockAlloc with
        | (none, mm) => (eLimit, ((s.withMm mm).archTaskContextRelease p ring stack).kfree t)
        | (some lock, mm) =>
          let tid := s.nextTid
          let s := (s.withMm mm).linkThread t ⟨tid, p, ring, stack, lock⟩ initial
          let s := if s.sched.run = none then s.startFirst t p else s
          (signedOf tid, s.giveMailbox t)

/-- The records of a new process that gets its address space: `p_create_ex` up to `list_init`. -/
def newPcb (s : ProcTable) (p pid : Nat) (priv : Priv) (spLock capLock : Nat) (vcb : Vcb) :
    ProcTable :=
  s.setPcb p ⟨pid, false, priv, [], spLock, capLock, vcb, []⟩

/-- A new process gets copies of the capabilities of the process that runs. -/
def inheritAll (s : ProcTable) (p : Nat) : ProcTable :=
  match s.sched.run with
  | none => s
  | some t =>
    let (mm, capabilities) := capInheritAll s.mm [] (s.pcb (s.tcb t).parent).capabilities
    (s.withMm mm).setPcb p { s.pcb p with capabilities }

/-- The end of `p_create_ex`: the process is listed and gets its thread, or goes again. -/
def startProc (L : Layout) (s : ProcTable) (p : Nat) (initial : ThreadState) : Int × ProcTable :=
  let s := { s with procHead := p :: s.procHead }
  let (ret, s) := s.threadCreateEx L p (s.pcb p).priv initial
  if 0 ≤ ret then (signedOf (s.pcb p).pid, s)
  else
    let s := { s with procHead := s.procHead.erase p }
    let s := s.withMm (vmmDestroy L s.mm (s.pcb p).vcb)
    let s := (s.spinlockRelease (s.pcb p).capLock).spinlockRelease (s.pcb p).spLock
    (ret, s.kfree p)

/-- `p_create_ex`. -/
def pCreateEx (L : Layout) (s : ProcTable) (priv : Priv) (initial : ThreadState) :
    Int × ProcTable :=
  let (p, mm) := s.mm.kmalloc
  let s := s.withMm mm
  if p = 0 then (eNomem, s)
  else
    match s.mm.spinlockAlloc with
    | (none, mm) => (eLimit, (s.withMm mm).kfree p)
    | (some spLock, mm) =>
      let s := s.withMm mm
      match s.mm.spinlockAlloc with
      | (none, mm) => (eLimit, ((s.withMm mm).spinlockRelease spLock).kfree p)
      | (some capLock, mm) =>
        let s := s.withMm mm
        let pid := s.nextPid
        let s := { s with nextPid := (s.nextPid + 1) % 2 ^ 32 }
        match vmmCreate L s.mm with
        | (.error _, mm) =>
          (eNomem, (((s.withMm mm).spinlockRelease capLock).spinlockRelease spLock).kfree p)
        | (.ok vcb, mm) =>
          (((s.withMm mm).newPcb p pid priv spLock capLock vcb).inheritAll p).startProc L p initial

/-! ## Deletion -/

/-- A thread leaves its wait queue, `thread_head` and the list of its process. -/
def unlinkThread (s : ProcTable) (t : Nat) : ProcTable :=
  let p := (s.tcb t).parent
  (s.withSched (s.sched.unlink t)).setPcb p { s.pcb p with tcbs := (s.pcb p).tcbs.erase t }

/-- What deletion and exit have in common: the stack, the lists and the lock. -/
def dropThread (s : ProcTable) (t : Nat) : ProcTable :=
  let f := s.tcb t
  ((s.archTaskContextRelease f.parent f.ring f.stack).unlinkThread t).spinlockRelease f.spLock

/-- The end of `thread_delete_internal`. -/
def reapThread (s : ProcTable) (t : Nat) : ProcTable :=
  ((s.dropThread t).releaseMailbox (s.sched.thread t).mailbox).kfree t

/-- `thread_delete_internal`. -/
def threadDelete (s : ProcTable) (tid : Nat) : ProcTable :=
  match s.sched.run with
  | none => s
  | some run =>
    match s.findThread tid with
    | none => s
    | some t =>
      if t ≠ run then s.reapThread t
      else
        match s.sched.findNextRunnable t with
        | (none, _) => s
        | (some next, sched) => (s.runNext t next sched).reapThread t

/-- The body of the loop of `proc_exit_internal`; there is no result if it halts. -/
def exitThread (s : ProcTable) (t : Nat) : Option ProcTable :=
  if s.sched.run ≠ some t then some ((s.dropThread t).kfree t)
  else
    match s.sched.findNextRunnable t with
    | (none, _) => none
    | (some next, sched) => some (((s.runNext t next sched).dropThread t).kfree t)

/-- The loop of `proc_exit_internal`: whether it comes to its end, and where it stops. -/
def exitLoop : List Nat → ProcTable → Bool × ProcTable
  | [], s => (true, s)
  | t :: ts, s =>
    match s.exitThread t with
    | none => (false, s)
    | some s => exitLoop ts s

/-- The end of `proc_exit_internal`: what the process holds goes back. -/
def reapProc (L : Layout) (s : ProcTable) (p : Nat) : ProcTable :=
  let v := s.pcb p
  let s := s.withMm (capRevokeAll s.mm v.capabilities).1
  let s := s.withMm (vmmDestroy L s.mm v.vcb)
  ((s.spinlockRelease v.capLock).spinlockRelease v.spLock).kfree p

/-- `proc_exit_internal`. -/
def procExit (L : Layout) (s : ProcTable) (pid : Nat) : ProcTable :=
  match s.findProc pid with
  | none => s.archTaskContextSwitch
  | some p =>
    match exitLoop (s.pcb p).tcbs s with
    | (false, s) => { s with halted := true }
    | (true, s) =>
      let s := { s with procHead := s.procHead.erase p }
      s.archTaskContextSwitch.reapProc L p

end ProcTable

/-! ## Everything that can happen -/

/-- A step of processes and threads. -/
inductive ProcOp where
  | procCreate (priv : Priv)
  /-- The running thread creates one for its own process. -/
  | threadCreate (ring : Priv)
  | threadDelete (tid : Nat)
  | threadBlock (tid : Nat)
  | threadUnblock (tid : Nat)
  | threadYield
  | procExit (pid : Nat)
  | procBlock (pid : Nat)
  | procUnblock (pid : Nat)
  /-- The running thread falls asleep at a wait queue. -/
  | sleep (wq : Nat)
  /-- A thread at a wait queue is woken. -/
  | wake (wq : Nat)
  | tick (locked : Bool)
  /-- A gate is left. -/
  | gateExit

namespace ProcOp

/-- What a step does to a kernel that runs. -/
def step (L : Layout) (s : ProcTable) : ProcOp → ProcTable
  | .procCreate priv => (s.pCreateEx L priv .pending).2
  | .threadCreate ring =>
    match s.sched.run with
    | none => s
    | some t => (s.threadCreateEx L (s.tcb t).parent ring .pending).2
  | .threadDelete tid => s.threadDelete tid
  | .threadBlock tid => s.threadBlock tid
  | .threadUnblock tid => s.threadUnblock tid
  | .threadYield => s.threadYield
  | .procExit pid => s.procExit L pid
  | .procBlock pid => s.procBlock pid
  | .procUnblock pid => s.procUnblock pid
  | .sleep wq => s.waitQueueSleepLocked wq
  | .wake wq => s.waitQueueWakeOne wq
  | .tick locked => s.scheduleIsr locked
  | .gateExit => s.archTaskContextSwitch

/-- What a step does; a kernel that has halted does nothing. -/
def exec (L : Layout) (s : ProcTable) (op : ProcOp) : ProcTable :=
  if s.halted then s else step L s op

end ProcOp

end Ukernel.Kernel
