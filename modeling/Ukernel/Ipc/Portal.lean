import Ukernel.Kernel.Capability
import Ukernel.Mm.Vmm
import Ukernel.Sync.Semaphore

/-!
# Portals

`kernel/ipc/portal.c`: remote calls to a server thread. A request is a record in the kernel heap
that the client and the server know by its address. The client parks at a semaphore of the request,
the server at one of the portal; a thread that parks leaves the kernel when it runs again, so that
each command is one step.

What `shm_share` and `shm_unshare` answer is a parameter: they act on address spaces, which the
commands here do not look at.

## Main definitions

* `PortalReq`, `Portal`, `PortalState`: the records
* `PortalState.call`, `PortalState.waitReply`, `PortalState.getResult`, `PortalState.cleanup`: the
  commands of a client
* `PortalState.wait`, `PortalState.getReq`, `PortalState.reply`: the commands of a server
* `portalExec`, `portalSyscallIsr`: the commands and their gate
-/

namespace Ukernel.Ipc

open Kernel Lib Mm Sync

/-- `portal_req`, with its number among all requests, for the record. -/
structure PortalReq where
  clientId : Int
  serverPid : Int
  shmVa : Nat
  shmSize : Nat
  dequeued : Bool
  doneSem : Nat
  /-- `resp.ret`. -/
  ret : Int
  /-- No function reads it. -/
  serial : Nat

/-- `portal`. -/
structure Portal where
  id : Nat
  pid : Int
  tid : Int
  reqs : List Nat
  reqSem : Nat

/-- The portals, the newest one in front, with the semaphores; `nextId` is `portal_next_id`. -/
structure PortalState where
  sems : SemState
  portals : List Nat
  portal : Nat → Portal
  nextId : Nat
  req : Nat → PortalReq
  /-- The number of requests so far, for the record. -/
  calls : Nat

/-- What `shm_share` and `shm_unshare` answer. -/
structure ShmEnv where
  share : Int
  out : Nat
  unshare : Int

/-- `portal_ctrl_config`. -/
structure PortalCtrlConfig where
  cmd : Nat
  clientId : Nat
  serverId : Nat
  va : Nat
  vaSize : Nat
  req : Nat
  out : Nat
  ret : Int

/-- The commands of `portal_ctrl_config`. -/
inductive PortalCtrlCmd where
  | init
  | destroy
  | call
  | waitReply
  | getResult
  | cleanup
  | wait
  | getReq
  | reply
  deriving DecidableEq, Repr

/-- The command that a number stands for. -/
def PortalCtrlCmd.decode : Nat → Option PortalCtrlCmd
  | 0 => some .init
  | 1 => some .destroy
  | 2 => some .call
  | 3 => some .waitReply
  | 4 => some .getResult
  | 5 => some .cleanup
  | 6 => some .wait
  | 7 => some .getReq
  | 8 => some .reply
  | _ => none

namespace PortalState

/-- The threads. -/
def sched (s : PortalState) : Sched := s.sems.sched

/-- Replace the semaphores. -/
def withSems (s : PortalState) (sems : SemState) : PortalState := { s with sems }

/-- Change a portal. -/
def setPortal (s : PortalState) (p : Nat) (v : Portal) : PortalState :=
  { s with portal := Function.update s.portal p v }

/-- Change a request. -/
def setReq (s : PortalState) (r : Nat) (v : PortalReq) : PortalState :=
  { s with req := Function.update s.req r v }

/-- `kmalloc`. -/
def kmalloc (s : PortalState) : Nat × PortalState :=
  let (a, kheap) := s.sems.kheap.alloc
  (a, s.withSems { s.sems with kheap })

/-- `kfree`. -/
def kfree (s : PortalState) (a : Nat) : PortalState :=
  s.withSems { s.sems with kheap := s.sems.kheap.free a }

/-- `thread_get_tid`. -/
def threadGetTid (s : PortalState) : Int :=
  match s.sched.run with
  | some t => t
  | none => -1

/-- `proc_get_pid`. -/
def procGetPid (s : PortalState) : Int :=
  match s.sched.run with
  | some t => (s.sched.thread t).pid
  | none => -1

/-- `portal_get_by_id`. -/
def portalGetById (s : PortalState) (id : Nat) : Option Nat :=
  s.portals.find? fun p => (s.portal p).id == id

/-- `portal_get_by_tid`. -/
def portalGetByTid (s : PortalState) (tid : Int) : Option Nat :=
  s.portals.find? fun p => (s.portal p).tid == tid

/-- `PORTAL_CTRL_INIT`: the answer and the identifier of the portal. -/
def init (s : PortalState) (serverId : Nat) : Int × Nat × PortalState :=
  let (p, s) := s.kmalloc
  if p = 0 then (eNomem, 0, s)
  else if serverId ≠ 0 ∧ s.portalGetById serverId ≠ none then (eExists, 0, s.kfree p)
  else
    let id := if serverId ≠ 0 then serverId else s.nextId
    let s := { s with nextId := if id ≥ s.nextId then (id + 1) % 2 ^ 32 else s.nextId }
    let (sem, sems) := s.sems.create 0
    let s := s.withSems sems
    if sem = 0 then (eNomem, 0, s.kfree p)
    else
      let v : Portal := ⟨id, s.procGetPid, s.threadGetTid, [], sem⟩
      (0, id, { s.setPortal p v with portals := p :: s.portals })

/-- A request of a portal that is destroyed goes with its semaphore. -/
def dropReq (s : PortalState) (r : Nat) : PortalState :=
  let s := if (s.req r).doneSem ≠ 0 then s.withSems (s.sems.destroy (s.req r).doneSem).2 else s
  s.kfree r

/-- `PORTAL_CTRL_DESTROY`. -/
def destroy (s : PortalState) (serverId : Nat) : Int × PortalState :=
  match s.portalGetById serverId with
  | none => (eNotfound, s)
  | some p =>
    let v := s.portal p
    if s.sems.hasWaiters v.reqSem then (eBusy, s)
    else if v.reqs.any fun r => s.sems.hasWaiters (s.req r).doneSem then (eBusy, s)
    else
      let s := v.reqs.foldl dropReq s
      let s := { s with portals := s.portals.erase p }
      let s := if v.reqSem ≠ 0 then s.withSems (s.sems.destroy v.reqSem).2 else s
      (0, s.kfree p)

/-- `PORTAL_CTRL_CALL`: the answer, the address of the buffer in the server if it is shared, and the
request. -/
def call (s : PortalState) (env : ShmEnv) (serverId size : Nat) :
    Int × Option Nat × Nat × PortalState :=
  match s.portalGetById serverId with
  | none => (eNotfound, none, 0, s)
  | some p =>
    if env.share ≠ 0 then (env.share, none, 0, s)
    else
      let (r, s) := s.kmalloc
      if r = 0 then (eNomem, some env.out, 0, s)
      else
        let (sem, sems) := s.sems.create 0
        let s := s.withSems sems
        if sem = 0 then (eNomem, some env.out, 0, s.kfree r)
        else
          let v := s.portal p
          let s := s.setReq r
            ⟨s.threadGetTid, v.pid, env.out, size % 2 ^ 32, false, sem, 0, s.calls⟩
          let s := { s.setPortal p { v with reqs := r :: v.reqs } with calls := s.calls + 1 }
          let s := s.withSems (s.sems.signal (s.sems.sem v.reqSem).id).2
          (0, some env.out, r, s)

/-- `PORTAL_CTRL_WAIT_REPLY`. -/
def waitReply (s : PortalState) (r : Nat) : Int × PortalState :=
  if r = 0 ∨ (s.req r).doneSem = 0 then (eInval, s)
  else (0, s.withSems (s.sems.wait (s.sems.sem (s.req r).doneSem).id).2)

/-- `PORTAL_CTRL_GET_RESULT`: the answer and the response. -/
def getResult (s : PortalState) (r : Nat) : Int × Option Int :=
  if r = 0 then (eInval, none) else (0, some (s.req r).ret)

/-- A request leaves the list it is in. -/
def unlinkReq (s : PortalState) (r : Nat) : PortalState :=
  { s with portal := fun p => { s.portal p with reqs := (s.portal p).reqs.erase r } }

/-- `PORTAL_CTRL_CLEANUP`. -/
def cleanup (s : PortalState) (env : ShmEnv) (r : Nat) : Int × PortalState :=
  if r = 0 then (eInval, s)
  else
    let v := s.req r
    let ret := if v.shmVa ≠ 0 then env.unshare else 0
    let s := if v.dequeued then s else s.unlinkReq r
    let s := if v.doneSem ≠ 0 then s.withSems (s.sems.destroy v.doneSem).2 else s
    (ret, s.kfree r)

/-- `PORTAL_CTRL_WAIT`. -/
def wait (s : PortalState) : Int × PortalState :=
  match s.portalGetByTid s.threadGetTid with
  | none => (eNotfound, s)
  | some p => (0, s.withSems (s.sems.wait (s.sems.sem (s.portal p).reqSem).id).2)

/-- `PORTAL_CTRL_GET_REQ`: the answer and the request that is handed out, or 0. -/
def getReq (s : PortalState) : Int × Nat × PortalState :=
  match s.portalGetByTid s.threadGetTid with
  | none => (eNotfound, 0, s)
  | some p =>
    match (s.portal p).reqs with
    | [] => (0, 0, s)
    | r :: rest =>
      let s := s.setPortal p { s.portal p with reqs := rest }
      (0, r, s.setReq r { s.req r with dequeued := true })

/-- `PORTAL_CTRL_REPLY`. -/
def reply (s : PortalState) (r : Nat) (ret : Int) : Int × PortalState :=
  if r = 0 ∨ (s.req r).doneSem = 0 then (eInval, s)
  else
    let s := s.setReq r { s.req r with ret }
    (0, s.withSems (s.sems.signal (s.sems.sem (s.req r).doneSem).id).2)

end PortalState

/-- `portal_exec`: the answer, the configuration that goes back, and the new state. -/
def portalExec (env : ShmEnv) (s : PortalState) (cfg : PortalCtrlConfig) :
    Int × PortalCtrlConfig × PortalState :=
  match PortalCtrlCmd.decode cfg.cmd with
  | some .init =>
    let (ret, id, s) := s.init cfg.serverId
    (ret, if ret = 0 then { cfg with out := id } else cfg, s)
  | some .destroy =>
    let (ret, s) := s.destroy cfg.serverId
    (ret, cfg, s)
  | some .call =>
    let (ret, out, r, s) := s.call env cfg.serverId cfg.vaSize
    (ret, { cfg with out := out.getD cfg.out, req := if ret = 0 then r else cfg.req }, s)
  | some .waitReply =>
    let (ret, s) := s.waitReply cfg.req
    (ret, cfg, s)
  | some .getResult =>
    match s.getResult cfg.req with
    | (ret, some v) => (ret, { cfg with ret := v }, s)
    | (ret, none) => (ret, cfg, s)
  | some .cleanup =>
    let (ret, s) := s.cleanup env cfg.req
    (ret, cfg, s)
  | some .wait =>
    let (ret, s) := s.wait
    (ret, cfg, s)
  | some .getReq =>
    let (ret, r, s) := s.getReq
    if ret ≠ 0 then (ret, cfg, s)
    else if r = 0 then (0, { cfg with req := 0 }, s)
    else (0, { cfg with req := r, va := (s.req r).shmVa, vaSize := (s.req r).shmSize }, s)
  | some .reply =>
    let (ret, s) := s.reply cfg.req cfg.ret
    (ret, cfg, s)
  | none => (eInval, cfg, s)

/-- `portal_syscall_isr`, with the current process. -/
def portalSyscallIsr (proc : Option Pcb) (env : ShmEnv) (s : PortalState)
    (cfg : PortalCtrlConfig) : Int × PortalCtrlConfig × PortalState :=
  match proc with
  | none => portalExec env s cfg
  | some p =>
    if p.priv ≠ .kernel ∧ capCheck p.capabilities (.ipc 1) ≠ 0 then
      (ePerm, { cfg with ret := ePerm }, s)
    else portalExec env s cfg

end Ukernel.Ipc
