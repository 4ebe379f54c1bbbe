import Ukernel.Kernel.Capability
import Ukernel.Lib.Links
import Ukernel.Lib.Pool
import Ukernel.Mm.Vmm
import Ukernel.Sync.Sched

/-!
# Mailboxes

`kernel/ipc/mailbox.c`, and the part of `kernel/irq.c` that turns an interrupt into a mail. A mail
lies in the user heap, where every process reads and writes it; its bookkeeping, the `mailmeta`,
lies in the kernel heap and is found by the address of the mail.

The queues of mails are rings of links: the head of the queue of a mailbox is named by the address
of the mailbox, the node of a mail by the address of its `mailmeta`. A node is linked wherever the
code links it, twice if the code does so twice. The other lists of the source link each of their
nodes once, and are lists here.

## Main definitions

* `Mail`, `MailMeta`, `Mailbox`: the records
* `MailHistory`: what has happened, for the record
* `MailState`: the mailboxes and mails, with the threads
* `allocMail`, `releaseMail`, `sendMail`, `send`, `tryGetMail`: the operations
* `mailboxExec`, `mailboxSyscallIsr`: the commands and their gate
-/

namespace Ukernel.Ipc

open Kernel Lib Machine Mm Sync

/-- `mail`. -/
structure Mail where
  magic : Nat
  senderTid : Int
  receiverTid : Int
  data : List Byte
  dataSize : Nat

/-- A mail filled with zeros. -/
def Mail.zero : Mail := ⟨0, 0, 0, List.replicate 256 0, 0⟩

/-- `MAIL_ANY_TID`. -/
def mailAnyTid : Int := -0xcd

/-- `MAIL_MAGIC_IRQ`. -/
def mailMagicIrq : Nat := 0x66666666

/-- `MAX_SUBSCRIPTION_COUNT`. -/
def maxSubscriptionCount : Nat := 16

/-- `mailmeta`. -/
structure MailMeta where
  uniqueId : Nat
  refCount : Int
  payload : Nat
  spLock : Nat

/-- Replace the number of references. -/
def MailMeta.withRefs (v : MailMeta) (refCount : Int) : MailMeta := { v with refCount }

/-- `mailhandler`: the block it lies in, and the function. -/
structure MailHandler where
  addr : Nat
  handler : Nat
  deriving DecidableEq

/-- `mailbox`, without the links of its queue and its waiters. -/
structure Mailbox where
  ownerPid : Int
  ownerTid : Int
  subscriptions : List Nat
  spLock : Nat
  handlers : List MailHandler

/-- What has happened, for the record: no function reads it. -/
structure MailHistory where
  /-- The mailboxes that are live. -/
  boxes : List Nat
  /-- The handlers that have been called, the last one in front. -/
  invoked : List Nat
  /-- The mails that a mailbox has queued, in order. -/
  enqueued : Nat → List Nat
  /-- The mails that a mailbox has handed out, in order. -/
  returned : Nat → List Nat

/-- A mailbox begins. -/
def MailHistory.open (h : MailHistory) (mb : Nat) : MailHistory where
  boxes := mb :: h.boxes
  invoked := h.invoked
  enqueued := Function.update h.enqueued mb []
  returned := Function.update h.returned mb []

/-- The mails and mailboxes with the threads they belong to; `registry` is
`inflight_mail_header`. -/
structure MailState where
  kheap : Pool
  uheap : Pool
  locks : Nat → Bool
  uniqueId : Nat
  registry : List Nat
  metaOf : Nat → MailMeta
  mail : Nat → Mail
  links : Links Nat
  box : Nat → Mailbox
  sched : Sched
  history : MailHistory

namespace MailState

/-- `spinlock_alloc`. -/
def spinlockAlloc (s : MailState) : Option Nat × MailState :=
  match firstFree s.locks Resources.spinLockMaxCount 0 with
  | some i => (some i, { s with locks := Function.update s.locks i true })
  | none => (none, s)

/-- `spinlock_release`. -/
def spinlockRelease (s : MailState) (i : Nat) : MailState :=
  { s with locks := Function.update s.locks i false }

/-- `get_mailmeta`. -/
def getMailmeta (s : MailState) (m : Nat) : Option Nat :=
  if m = 0 then none else s.registry.find? fun a => (s.metaOf a).payload == m

/-- A user writes to a mail, or the kernel does. -/
def setMail (s : MailState) (m : Nat) (v : Mail) : MailState :=
  { s with mail := Function.update s.mail m v }

/-- Replace the bookkeeping of a mail. -/
def setMeta (s : MailState) (a : Nat) (v : MailMeta) : MailState :=
  { s with metaOf := Function.update s.metaOf a v }

/-- Replace a mailbox. -/
def setBox (s : MailState) (mb : Nat) (v : Mailbox) : MailState :=
  { s with box := Function.update s.box mb v }

/-- Replace the threads. -/
def withSched (s : MailState) (sched : Sched) : MailState := { s with sched }

/-- Replace the record of the past. -/
def withHistory (s : MailState) (history : MailHistory) : MailState := { s with history }

/-- The mailboxes that are live. -/
def boxes (s : MailState) : List Nat := s.history.boxes

/-- A mail with its bookkeeping enters the registry. -/
def register (s : MailState) (m a lock : Nat) : MailState :=
  { s.setMeta a ⟨s.uniqueId, 1, m, lock⟩ with
    uniqueId := s.uniqueId + 1
    links := s.links.init a
    registry := a :: s.registry }

/-- `alloc_mail`: the address of a mail, or 0. -/
def allocMail (s : MailState) : Nat × MailState :=
  let (m, uheap) := s.uheap.alloc
  let s := { s with uheap }
  if m = 0 then (0, s)
  else
    let (a, kheap) := s.kheap.alloc
    let s := { s with kheap }
    if a = 0 then (0, { s with uheap := s.uheap.free m })
    else
      let s := s.setMail m .zero
      match s.spinlockAlloc with
      | (none, s) => (0, { s with kheap := s.kheap.free a, uheap := s.uheap.free m })
      | (some lock, s) => (m, s.register m a lock)

/-- A mail leaves the registry and is freed; its bookkeeping is filled with zeros, links and all. -/
def discard (s : MailState) (m a : Nat) : MailState :=
  { (s.spinlockRelease (s.metaOf a).spLock).setMeta a ⟨0, 0, 0, 0⟩ with
    registry := s.registry.erase a
    links := Function.update s.links a ⟨0, 0⟩
    kheap := s.kheap.free a
    mail := Function.update s.mail m .zero
    uheap := s.uheap.free m }

/-- `release_mail`. -/
def releaseMail (s : MailState) (m : Nat) : MailState :=
  match s.getMailmeta m with
  | none => s
  | some a =>
    let v := s.metaOf a
    let s := s.setMeta a (v.withRefs (v.refCount - 1))
    if v.refCount - 1 > 0 then s else s.discard m a

/-- `alloc_mailbox`: the address of a mailbox, or 0. -/
def allocMailbox (s : MailState) (ownerPid ownerTid : Int) : Nat × MailState :=
  let (mb, kheap) := s.kheap.alloc
  let s := { s with kheap }
  if mb = 0 then (0, s)
  else
    match s.spinlockAlloc with
    | (none, s) => (0, { s with kheap := s.kheap.free mb })
    | (some lock, s) =>
      let v : Mailbox := ⟨ownerPid, ownerTid, List.replicate maxSubscriptionCount 0, lock, []⟩
      let s := { s.setBox mb v with links := s.links.init mb }
      let s := s.withSched (s.sched.setWaiters mb [])
      (mb, s.withHistory (s.history.open mb))

/-- The first loop of `release_mailbox`; a queue that is spoilt may keep it running for ever. -/
def drainLoop : (fuel : Nat) → MailState → (mb : Nat) → Option MailState
  | 0, _, _ => none
  | fuel + 1, s, mb =>
    if s.links.Empty mb then some s
    else
      let a := (s.links mb).prev
      let s := { s with links := s.links.del a }
      drainLoop fuel (s.releaseMail (s.metaOf a).payload) mb

/-- `release_mailbox`. -/
def releaseMailbox (s : MailState) (mb : Nat) : MailState :=
  if mb = 0 then s
  else
    let s := (drainLoop (s.registry.length + 1) s mb).getD s
    let s := (s.box mb).handlers.foldl (fun s h => { s with kheap := s.kheap.free h.addr }) s
    let s := s.spinlockRelease (s.box mb).spLock
    let s := { s.setBox mb ⟨0, 0, [], 0, []⟩ with
      links := Function.update s.links mb ⟨0, 0⟩
      kheap := s.kheap.free mb }
    let s := s.withSched (s.sched.setWaiters mb [])
    s.withHistory { s.history with boxes := s.boxes.erase mb }

/-- `list_add(&meta->this_node, &mb->mails)` with the wakeup that follows it. -/
def enqueue (s : MailState) (mb a : Nat) : MailState :=
  let s := { s with links := s.links.add a mb }
  let s := s.withSched (s.sched.waitQueueWakeOne mb)
  let queued := s.history.enqueued mb ++ [(s.metaOf a).payload]
  s.withHistory { s.history with enqueued := Function.update s.history.enqueued mb queued }

/-- The loop of `send_mail` over the handlers. -/
def invokeHandlers (s : MailState) (mb : Nat) : MailState :=
  let called := ((s.box mb).handlers.map MailHandler.handler).filter (· ≠ 0)
  s.withHistory { s.history with invoked := called.reverse ++ s.history.invoked }

/-- `send_mail`. -/
def sendMail (s : MailState) (mb m : Nat) : Int × MailState :=
  if mb = 0 ∨ m = 0 then (eInval, s)
  else if (s.box mb).handlers ≠ [] then (0, (s.invokeHandlers mb).releaseMail m)
  else
    match s.getMailmeta m with
    | none => (eInval, s.releaseMail m)
    | some a => (0, s.enqueue mb a)

/-- The threads of a broadcast: those with a mailbox. -/
def mailboxes (s : MailState) : List Nat :=
  (s.sched.order.map fun t => (s.sched.thread t).mailbox).filter (· ≠ 0)

/-- A mailbox takes a broadcast with a magic; 0 is never subscribed. -/
def Subscribed (s : MailState) (mb magic : Nat) : Prop :=
  magic ≠ 0 ∧ magic ∈ (s.box mb).subscriptions

instance (s : MailState) (mb magic : Nat) : Decidable (s.Subscribed mb magic) := by
  unfold Subscribed
  infer_instance

/-- The second pass of a broadcast, for one mailbox: a copy is queued, or the handlers run. -/
def deliver (m : Nat) (s : MailState) (mb : Nat) : MailState :=
  if s.Subscribed mb (s.mail m).magic then
    if (s.box mb).handlers ≠ [] then (s.sendMail mb m).2
    else
      let (clone, s) := s.allocMail
      if clone = 0 then s
      else
        let v := s.mail m
        let s := s.setMail clone { s.mail clone with
          magic := v.magic, senderTid := v.senderTid, receiverTid := v.receiverTid
          dataSize := v.dataSize, data := v.data }
        match s.getMailmeta clone with
        | some a => s.enqueue mb a
        | none => s.withSched (s.sched.waitQueueWakeOne mb)
  else s

/-- The mailboxes that will run handlers on a broadcast. -/
def handlerRecipients (s : MailState) (m : Nat) : Nat :=
  s.mailboxes.countP fun mb => s.Subscribed mb (s.mail m).magic ∧ (s.box mb).handlers ≠ []

/-- `send` to everybody. -/
def broadcast (s : MailState) (m : Nat) : Int × MailState :=
  if s.mailboxes = [] then (0, s.releaseMail m)
  else
    match s.getMailmeta m with
    | none => (eInval, s)
    | some a =>
      let v := s.metaOf a
      let recipients := s.mailboxes
      let s := s.setMeta a (v.withRefs (v.refCount + s.handlerRecipients m))
      (0, (recipients.foldl (deliver m) s).releaseMail m)

/-- `thread_get_by_tid`. -/
def threadGetByTid (s : MailState) (tid : Int) : Option Nat :=
  s.sched.order.find? fun t => (t : Int) == tid

/-- `send`. -/
def send (s : MailState) (m : Nat) : Int × MailState :=
  if m = 0 then (eInval, s)
  else if (s.mail m).receiverTid = mailAnyTid then s.broadcast m
  else
    match s.threadGetByTid (s.mail m).receiverTid with
    | none => (eNotfound, s.releaseMail m)
    | some t =>
      let mb := (s.sched.thread t).mailbox
      if mb = 0 then (eNotfound, s.releaseMail m) else s.sendMail mb m

/-- `try_get_mail`: the mail at the far end of the queue, or 0. -/
def tryGetMail (s : MailState) (mb : Nat) : Nat × MailState :=
  if mb = 0 ∨ s.links.Empty mb then (0, s)
  else
    let a := (s.links mb).prev
    let s := { s with links := s.links.del a }
    let m := (s.metaOf a).payload
    let out := s.history.returned mb ++ [m]
    (m, s.withHistory { s.history with returned := Function.update s.history.returned mb out })

/-- `register_handler`. -/
def registerHandler (s : MailState) (mb handler : Nat) : Int × MailState :=
  if mb = 0 ∨ handler = 0 then (eInval, s)
  else
    let (addr, kheap) := s.kheap.alloc
    let s := { s with kheap }
    if addr = 0 then (eNomem, s)
    else
      let v := s.box mb
      (0, s.setBox mb { v with handlers := ⟨addr, handler⟩ :: v.handlers })

/-- `unregister_handler`. -/
def unregisterHandler (s : MailState) (mb handler : Nat) : Int × MailState :=
  if mb = 0 ∨ handler = 0 then (eInval, s)
  else
    let v := s.box mb
    match v.handlers.find? fun h => h.handler == handler with
    | none => (0, s)
    | some h =>
      let s := s.setBox mb { v with handlers := v.handlers.erase h }
      (0, { s with kheap := s.kheap.free h.addr })

/-- `MAILBOX_CTRL_SUBSCRIBE_MAIL` on a mailbox. -/
def subscribe (s : MailState) (mb magic : Nat) : Int × MailState :=
  if mb = 0 ∨ magic = 0 then (eInval, s)
  else
    let v := s.box mb
    if magic ∈ v.subscriptions then (0, s)
    else if 0 ∈ v.subscriptions then
      let slot := v.subscriptions.idxOf 0
      (0, s.setBox mb { v with subscriptions := v.subscriptions.set slot magic })
    else (eNomem, s)

/-- `MAILBOX_CTRL_UNSUBSCRIBE_MAIL` on a mailbox. -/
def unsubscribe (s : MailState) (mb magic : Nat) : Int × MailState :=
  if mb = 0 ∨ magic = 0 then (eInval, s)
  else
    let v := s.box mb
    if magic ∈ v.subscriptions then
      let slot := v.subscriptions.idxOf magic
      (0, s.setBox mb { v with subscriptions := v.subscriptions.set slot 0 })
    else (eInval, s)

/-- The mailbox of the running thread, or 0. -/
def ownMailbox (s : MailState) : Nat :=
  match s.sched.run with
  | none => 0
  | some t => if t ∈ s.sched.order then (s.sched.thread t).mailbox else 0

/-- `dispatch_user_mode_irq`: the thread that has requested the interrupt gets a mail. -/
def dispatchUserModeIrq (s : MailState) (owner : Nat) (tid : Int) : MailState :=
  let mb := (s.sched.thread owner).mailbox
  if mb = 0 then s
  else
    let (m, s) := s.allocMail
    if m = 0 then s
    else
      let v := s.mail m
      let s := s.setMail m { v with magic := mailMagicIrq, receiverTid := tid }
      (s.sendMail mb m).2

end MailState

/-! ## Commands -/

/-- `mailbox_ctrl_cmd`. -/
inductive MailboxCtrlCmd where
  | send
  | listen
  | registerHandler
  | unregisterHandler
  | allocMail
  | releaseMail
  | alloc
  | release
  | subscribeMail
  | unsubscribeMail
  | listenBlock
  deriving DecidableEq, Repr

/-- The command that a byte stands for. -/
def MailboxCtrlCmd.decode : Nat → Option MailboxCtrlCmd
  | 0 => some .send
  | 1 => some .listen
  | 2 => some .registerHandler
  | 3 => some .unregisterHandler
  | 4 => some .allocMail
  | 5 => some .releaseMail
  | 6 => some .alloc
  | 7 => some .release
  | 8 => some .subscribeMail
  | 9 => some .unsubscribeMail
  | 10 => some .listenBlock
  | _ => none

/-- `mailbox_ctrl_config`. -/
structure MailboxCtrlConfig where
  cmd : Nat
  m : Nat
  mb : Nat
  handler : Nat
  pid : Int
  tid : Int
  magic : Nat
  ret : Int

namespace MailboxCtrlConfig

/-- The answer of a command. -/
def withRet (cfg : MailboxCtrlConfig) (ret : Int) : MailboxCtrlConfig := { cfg with ret }

/-- The mail that a command hands out. -/
def withMail (cfg : MailboxCtrlConfig) (m : Nat) : MailboxCtrlConfig := { cfg with m }

/-- The mailbox that a command is about. -/
def withBox (cfg : MailboxCtrlConfig) (mb : Nat) : MailboxCtrlConfig := { cfg with mb }

end MailboxCtrlConfig

/-- A mailbox that is not given is the one of the caller. -/
def resolve (s : MailState) (cfg : MailboxCtrlConfig) : MailboxCtrlConfig :=
  if cfg.mb = 0 then cfg.withBox s.ownMailbox else cfg

/-- `MAILBOX_CTRL_LISTEN_BLOCK` on a mailbox: an empty queue makes the caller sleep. -/
def listenBlock (s : MailState) (mb : Nat) : Int × MailState :=
  if mb = 0 then (eInval, s)
  else (0, if s.links.Empty mb then s.withSched (s.sched.waitQueueSleepLocked mb) else s)

/-- `mailbox_exec`. -/
def mailboxExec (s : MailState) (cfg : MailboxCtrlConfig) : MailboxCtrlConfig × MailState :=
  match MailboxCtrlCmd.decode cfg.cmd with
  | some .send =>
    let (ret, s) := s.send cfg.m
    (cfg.withRet ret, s)
  | some .listen =>
    let cfg := resolve s cfg
    let (m, s) := s.tryGetMail cfg.mb
    ((cfg.withMail m).withRet (if m ≠ 0 then 0 else -1), s)
  | some .listenBlock =>
    let cfg := resolve s cfg
    let (ret, s) := listenBlock s cfg.mb
    (cfg.withRet ret, s)
  | some .registerHandler =>
    let (ret, s) := s.registerHandler cfg.mb cfg.handler
    (cfg.withRet ret, s)
  | some .unregisterHandler =>
    let (ret, s) := s.unregisterHandler cfg.mb cfg.handler
    (cfg.withRet ret, s)
  | some .allocMail =>
    let (m, s) := s.allocMail
    ((cfg.withMail m).withRet (if m ≠ 0 then 0 else eNomem), s)
  | some .releaseMail => (cfg.withRet 0, s.releaseMail cfg.m)
  | some .alloc =>
    let (mb, s) := s.allocMailbox cfg.pid cfg.tid
    ((cfg.withBox mb).withRet (if mb ≠ 0 then 0 else eNomem), s)
  | some .release => (cfg.withRet 0, s.releaseMailbox cfg.mb)
  | some .subscribeMail =>
    let cfg := resolve s cfg
    let (ret, s) := s.subscribe cfg.mb cfg.magic
    (cfg.withRet ret, s)
  | some .unsubscribeMail =>
    let cfg := resolve s cfg
    let (ret, s) := s.unsubscribe cfg.mb cfg.magic
    (cfg.withRet ret, s)
  | none => (cfg.withRet eInval, s)

/-- `mailbox_syscall_isr`, with the current process. -/
def mailboxSyscallIsr (proc : Option Pcb) (s : MailState) (cfg : MailboxCtrlConfig) :
    MailboxCtrlConfig × MailState :=
  match proc with
  | none => mailboxExec s cfg
  | some p =>
    if p.priv = .kernel then mailboxExec s cfg
    else if cfg.mb ≠ 0 then (cfg.withRet eInval, s)
    else if capCheck p.capabilities (.ipc 1) ≠ 0 then (cfg.withRet ePerm, s)
    else mailboxExec s cfg

end Ukernel.Ipc
