import Ukernel.Ipc.Portal
import Ukernel.Machine.System

/-!
# Remote calls

Any number of clients call one server through a portal, each by the four commands of
`user_portal_call`; the server loops over the three commands of `portal_wait` and `portal_reply`.
The steps are those commands, each by the thread that runs, and the timer.

## Credits

Everything rests on what the values of the semaphores mean. The one of a request is the number of
replies to it minus the number of times that its client has waited; the one of the portal is the
number of queued requests, minus one while the server has waited for one that it has not taken. A
value below 0 counts waiters. So a client that has waited and is in no wait queue any more has been
replied to, and such a server finds a request. That threads that wait do not run is left to those
who use the invariant.

## Main definitions

* `Rpc`: the state, with where every thread is in its loop and what has happened
* `rpcSystem`, `freshSystem`: the runs, and those in which semaphores get unused identifiers
* `Rpc.CallOk`, `Rpc.Ok`: the invariant

## Main results

* `Rpc.Ok.call`, `Rpc.Ok.waitReply`, `Rpc.Ok.getResult`, `Rpc.Ok.cleanup`: the steps of a client
* `Rpc.Ok.wait`, `Rpc.Ok.getReq`, `Rpc.Ok.reply`: the steps of the server
* `Rpc.Ok.exec`: every step, of a thread that waits nowhere
-/

namespace Ukernel.Ipc

open Kernel Lib Machine Mm Sync

/-- Where a client is in its call, with its request and the number of the request. -/
inductive ClientPhase where
  | idle
  | called (r n : Nat)
  | waited (r n : Nat)
  | answered (r n : Nat)
  deriving DecidableEq

/-- The request of a client. -/
def ClientPhase.handle : ClientPhase → Option (Nat × Nat)
  | .idle => none
  | .called r n => some (r, n)
  | .waited r n => some (r, n)
  | .answered r n => some (r, n)

/-- The client has waited for its reply. -/
def ClientPhase.hasWaited : ClientPhase → Bool
  | .idle => false
  | .called _ _ => false
  | .waited _ _ => true
  | .answered _ _ => true

/-- Where the server is in its loop. -/
inductive ServerPhase where
  | idle
  | waited
  | serving (r n : Nat)
  deriving DecidableEq

/-- A portal: its address, its identifier and its server. -/
structure Service where
  addr : Nat
  id : Nat
  tid : Nat

/-- Portals with the loops of the threads and, for the record, the requests that clients have made,
those that the server has been handed, its replies, the results of the clients and the requests that
have been cleaned up. -/
structure Rpc where
  state : PortalState
  client : Nat → ClientPhase
  server : ServerPhase
  made : List (Nat × Nat)
  handed : List Nat
  replied : List (Nat × Int)
  results : List (Nat × Nat × Int)
  cleaned : List Nat

/-- A step, by the thread that runs. -/
inductive RpcOp where
  | call (env : ShmEnv) (va size : Nat)
  | waitReply
  | getResult
  | cleanup (env : ShmEnv)
  | wait
  | getReq
  | reply (ret : Int)
  | timer

/-- The configuration of a command about a request. -/
def requestConfig (cmd r : Nat) (ret : Int) : PortalCtrlConfig := ⟨cmd, 0, 0, 0, 0, r, 0, ret⟩

/-- `shm_share` and `shm_unshare` succeed. -/
def ShmEnv.ok : ShmEnv := ⟨0, 0, 0⟩

namespace Rpc

/-- Where the thread that runs is in its call. -/
def phase (x : Rpc) : ClientPhase :=
  match x.state.sched.run with
  | some t => x.client t
  | none => .idle

/-- The thread that runs is somewhere else in its call. -/
def setPhase (x : Rpc) (phase : ClientPhase) : Nat → ClientPhase :=
  match x.state.sched.run with
  | some t => Function.update x.client t phase
  | none => x.client

/-- What a step does; a step that does not fit the loop of its thread does nothing. -/
def exec (K : Service) (x : Rpc) : RpcOp → Rpc
  | .call env va size =>
    let (ret, cfg, s) := portalExec env x.state ⟨2, 0, K.id, va, size, 0, 0, 0⟩
    if ret = 0 then
      let n := (s.req cfg.req).serial
      { x with
        state := s
        client := x.setPhase (.called cfg.req n)
        made := (n, x.state.sched.run.getD 0) :: x.made }
    else { x with state := s }
  | .waitReply =>
    match x.phase with
    | .called r n =>
      let (_, _, s) := portalExec .ok x.state (requestConfig 3 r 0)
      { x with state := s, client := x.setPhase (.waited r n) }
    | _ => x
  | .getResult =>
    match x.phase with
    | .waited r n =>
      let (_, cfg, s) := portalExec .ok x.state (requestConfig 4 r 0)
      { x with
        state := s
        client := x.setPhase (.answered r n)
        results := (x.state.sched.run.getD 0, n, cfg.ret) :: x.results }
    | _ => x
  | .cleanup env =>
    match x.phase with
    | .answered r n =>
      let (_, _, s) := portalExec env x.state (requestConfig 5 r 0)
      { x with state := s, client := x.setPhase .idle, cleaned := n :: x.cleaned }
    | _ => x
  | .wait =>
    let (_, _, s) := portalExec .ok x.state (requestConfig 6 0 0)
    { x with state := s, server := .waited }
  | .getReq =>
    let (_, cfg, s) := portalExec .ok x.state (requestConfig 7 0 0)
    if cfg.req = 0 then { x with state := s, server := .idle }
    else
      let n := (s.req cfg.req).serial
      { x with state := s, server := .serving cfg.req n, handed := n :: x.handed }
  | .reply ret =>
    match x.server with
    | .serving r n =>
      let (_, _, s) := portalExec .ok x.state (requestConfig 8 r ret)
      { x with state := s, server := .idle, replied := (n, ret) :: x.replied }
    | _ => x
  | .timer =>
    let sems := x.state.sems.withSched x.state.sched.scheduleIfNeeded
    { x with state := x.state.withSems sems }

/-- A wait at a semaphore makes the caller sleep. -/
def Sleeps (s : PortalState) (sem : Nat) : Prop :=
  ∃ a, s.sems.get (s.sems.sem sem).id = some a ∧ (s.sems.sem a).value ≤ 0

/-- The loops of the threads; another thread is ready whenever one falls asleep. -/
def Fits (K : Service) (x : Rpc) : RpcOp → Prop
  | .call _ _ _ => ∃ t, x.state.sched.run = some t ∧ t ≠ K.tid ∧ x.client t = .idle
  | .waitReply => ∃ t r n, x.state.sched.run = some t ∧ x.client t = .called r n ∧
    (Sleeps x.state (x.state.req r).doneSem → x.state.sched.Relieved)
  | .getResult => ∃ t r n, x.state.sched.run = some t ∧ x.client t = .waited r n
  | .cleanup _ => ∃ t r n, x.state.sched.run = some t ∧ x.client t = .answered r n
  | .wait => x.state.sched.run = some K.tid ∧ x.server = .idle ∧
    (Sleeps x.state (x.state.portal K.addr).reqSem → x.state.sched.Relieved)
  | .getReq => x.state.sched.run = some K.tid ∧ x.server = .waited
  | .reply _ => x.state.sched.run = some K.tid ∧ ∃ r n, x.server = .serving r n
  | .timer => True

/-- The loops of the threads, whoever is ready. -/
def Loops (K : Service) (x : Rpc) : RpcOp → Prop
  | .call _ _ _ => ∃ t, x.state.sched.run = some t ∧ t ≠ K.tid ∧ x.client t = .idle
  | .waitReply => ∃ t r n, x.state.sched.run = some t ∧ x.client t = .called r n
  | .getResult => ∃ t r n, x.state.sched.run = some t ∧ x.client t = .waited r n
  | .cleanup _ => ∃ t r n, x.state.sched.run = some t ∧ x.client t = .answered r n
  | .wait => x.state.sched.run = some K.tid ∧ x.server = .idle
  | .getReq => x.state.sched.run = some K.tid ∧ x.server = .waited
  | .reply _ => x.state.sched.run = some K.tid ∧ ∃ r n, x.server = .serving r n
  | .timer => True

/-- The requests that a step reads or writes, each with the number it is meant to have: the one of
the loop, and those in the list of the portal. -/
def uses (K : Service) (x : Rpc) (op : RpcOp) : List (Nat × Nat) :=
  let queued := (x.state.portal K.addr).reqs.map fun r => (r, (x.state.req r).serial)
  match op with
  | .call _ _ _ => queued
  | .waitReply => x.phase.handle.toList
  | .getResult => x.phase.handle.toList
  | .cleanup _ => x.phase.handle.toList ++ queued
  | .getReq => queued
  | .reply _ =>
    match x.server with
    | .serving r n => [(r, n)]
    | _ => []
  | _ => []

/-- No call has been made: the portal has a server, and nobody is in a loop. -/
structure Start (K : Service) (x : Rpc) : Prop where
  sems : x.state.sems.Ok
  byId : x.state.portalGetById K.id = some K.addr
  byTid : x.state.portalGetByTid K.tid = some K.addr
  reqs : (x.state.portal K.addr).reqs = []
  reqSem : (x.state.portal K.addr).reqSem ∈ x.state.sems.head
  value : (x.state.sems.sem (x.state.portal K.addr).reqSem).value = 0
  client : x.client = fun _ => .idle
  server : x.server = .idle
  made : x.made = []
  handed : x.handed = []
  replied : x.replied = []
  results : x.results = []
  cleaned : x.cleaned = []

end Rpc

/-- All runs. -/
def rpcSystem (K : Service) : System Rpc RpcOp := ⟨Rpc.exec K, Rpc.Fits K⟩

/-- A call gets a semaphore whose identifier no live one has. -/
def Rpc.FreshId (x : Rpc) : RpcOp → Prop
  | .call _ _ _ => ∀ a ∈ x.state.sems.head, (x.state.sems.sem a).id ≠ x.state.sems.nextId
  | _ => True

/-- The runs in which semaphores get unused identifiers. -/
def freshSystem (K : Service) : System Rpc RpcOp :=
  ⟨Rpc.exec K, fun x op => x.Fits K op ∧ x.FreshId op⟩

namespace Rpc

variable {K : Service} {x x' : Rpc} {t r n : Nat} {w : Bool}

/-! ## The invariant -/

/-- The requests in the list of the portal. -/
def reqs (K : Service) (x : Rpc) : List Nat := (x.state.portal K.addr).reqs

/-- The semaphore of the portal. -/
def reqSem (K : Service) (x : Rpc) : Nat := (x.state.portal K.addr).reqSem

/-- The value of a semaphore. -/
def value (x : Rpc) (a : Nat) : Int := (x.state.sems.sem a).value

/-- The threads that wait at a semaphore. -/
def waiters (x : Rpc) (a : Nat) : List Nat := x.state.sems.sched.waiters a

/-- The semaphore of a request. -/
def doneSem (x : Rpc) (r : Nat) : Nat := (x.state.req r).doneSem

/-- The reply to a request. -/
def response (x : Rpc) (n : Nat) : Option Int := x.replied.lookup n

/-- A request is in the list, or with the server, or replied to. -/
def Stage (K : Service) (x : Rpc) (r n : Nat) : Prop :=
  (r ∈ x.reqs K ∧ n ∉ x.handed ∧ x.response n = none ∧ x.server ≠ .serving r n) ∨
    (r ∉ x.reqs K ∧ (x.state.req r).dequeued = true ∧ n ∈ x.handed ∧
      (x.response n = none ∧ x.server = .serving r n ∨
        x.response n = some (x.state.req r).ret ∧ x.server ≠ .serving r n))

/-- The request of a client: it is live, and its semaphore counts replies against waits. -/
structure CallOk (K : Service) (x : Rpc) (t r n : Nat) (waited : Bool) : Prop where
  live : r ≠ 0 ∧ r ∈ x.state.sems.kheap.live ∧ r ∉ x.state.sems.head ∧ x.waiters r = []
  serial : (x.state.req r).serial = n
  sem : x.doneSem r ∈ x.state.sems.head ∧ x.doneSem r ≠ x.reqSem K
  own : ∀ t' ∈ x.waiters (x.doneSem r), t' = t
  credit : x.value (x.doneSem r) =
    (if (x.response n).isSome then 1 else 0) - (if waited then 1 else 0)
  made : (n, t) ∈ x.made
  fresh : n < x.state.calls ∧ n ∉ x.cleaned
  stage : Stage K x r n

/-- What has happened so far is in order. -/
structure Logs (x : Rpc) : Prop where
  made : (x.made.map Prod.fst).Nodup ∧ ∀ e ∈ x.made, e.1 < x.state.calls
  handed : x.handed.Nodup ∧ ∀ n ∈ x.handed, n < x.state.calls
  replied : (x.replied.map Prod.fst).Nodup ∧ ∀ e ∈ x.replied, e.1 < x.state.calls
  results : ∀ e ∈ x.results, (e.2.1, e.1) ∈ x.made ∧ x.response e.2.1 = some e.2.2
  cleaned : ∀ n ∈ x.cleaned, n < x.state.calls

/-- The invariant. -/
structure Ok (K : Service) (x : Rpc) : Prop where
  sems : x.state.sems.Steady
  byId : x.state.portalGetById K.id = some K.addr
  byTid : x.state.portalGetByTid K.tid = some K.addr
  portal : x.reqSem K ∈ x.state.sems.head
  credit : x.value (x.reqSem K) = (x.reqs K).length - (if x.server = .waited then 1 else 0)
  own : ∀ t ∈ x.waiters (x.reqSem K), t = K.tid
  nodup : (x.reqs K).Nodup
  calls : ∀ t r n, (x.client t).handle = some (r, n) → CallOk K x t r n (x.client t).hasWaited
  answered : ∀ t r n, x.client t = .answered r n → (x.response n).isSome
  apart : ∀ t t' r n r' n', (x.client t).handle = some (r, n) →
    (x.client t').handle = some (r', n') → t ≠ t' →
    r ≠ r' ∧ n ≠ n' ∧ x.doneSem r ≠ x.doneSem r'
  queued : ∀ r ∈ x.reqs K, ∃ t n, (x.client t).handle = some (r, n)
  serving : ∀ r n, x.server = .serving r n → ∃ t, (x.client t).handle = some (r, n)
  server : x.client K.tid = .idle
  logs : x.Logs

/-- A step that has nothing to do with a request. -/
structure Frame (K : Service) (x : Rpc) (r n : Nat) (x' : Rpc) : Prop where
  live : r ∈ x'.state.sems.kheap.live ∧ r ∉ x'.state.sems.head
  req : x'.state.req r = x.state.req r
  sem : x.doneSem r ∈ x'.state.sems.head ∧ x'.value (x.doneSem r) = x.value (x.doneSem r)
  waiters : x'.waiters r = x.waiters r ∧ x'.waiters (x.doneSem r) = x.waiters (x.doneSem r)
  reqSem : x'.reqSem K = x.reqSem K
  reqs : r ∈ x'.reqs K ↔ r ∈ x.reqs K
  handed : n ∈ x'.handed ↔ n ∈ x.handed
  response : x'.response n = x.response n
  server : x'.server = .serving r n ↔ x.server = .serving r n
  made : x.made ⊆ x'.made
  calls : x.state.calls ≤ x'.state.calls
  cleaned : n ∉ x'.cleaned

theorem CallOk.frame (h : CallOk K x t r n w) (hf : Frame K x r n x') : CallOk K x' t r n w := by
  have hdone : x'.doneSem r = x.doneSem r := congrArg PortalReq.doneSem hf.req
  refine ⟨⟨h.live.1, hf.live.1, hf.live.2, hf.waiters.1.trans h.live.2.2.2⟩,
    (congrArg PortalReq.serial hf.req).trans h.serial, ?_, ?_, ?_, hf.made h.made,
    ⟨Nat.lt_of_lt_of_le h.fresh.1 hf.calls, hf.cleaned⟩, ?_⟩
  · rw [hdone, hf.reqSem]
    exact ⟨hf.sem.1, h.sem.2⟩
  · rw [hdone, hf.waiters.2]
    exact h.own
  · rw [hdone, hf.sem.2, hf.response]
    exact h.credit
  · unfold Stage
    rw [hf.reqs, hf.handed, hf.response, hf.req, Ne, hf.server]
    exact h.stage

/-- A thread that has waited for a reply and waits no more has got it. -/
theorem CallOk.replied (h : CallOk K x t r n true) (hs : x.state.sems.Steady)
    (hfree : (x.state.sched.thread t).waitingOn = 0) :
    x.waiters (x.doneSem r) = [] ∧ x.value (x.doneSem r) = 0 ∧
      x.response n = some (x.state.req r).ret ∧ (x.state.req r).dequeued = true ∧
      r ∉ x.reqs K ∧ x.server ≠ .serving r n := by
  have hnil : x.waiters (x.doneSem r) = [] := by
    refine List.eq_nil_iff_forall_not_mem.mpr fun t' ht' => ?_
    have heq := h.own t' ht'
    subst heq
    exact hs.waits.not_mem hfree _ ht'
  have hcount := hs.count _ h.sem.1
  have hlen : (x.state.sems.sched.waiters (x.doneSem r)).length = 0 := by
    rw [show x.state.sems.sched.waiters (x.doneSem r) = [] from hnil, List.length_nil]
  have hcredit := h.credit
  unfold value at hcredit
  cases hresp : x.response n with
  | none => grind
  | some v =>
    rcases h.stage with ⟨-, -, hno, -⟩ | ⟨hreqs, hdeq, -, ⟨hno, -⟩ | ⟨hyes, hserver⟩⟩
    · exact nomatch hno.symm.trans hresp
    · exact nomatch hno.symm.trans hresp
    · grind [value]

/-! ## The steps of a client -/

/-- What a change to one semaphore leaves of the request of a client that has another one. -/
theorem CallOk.shifted (h : CallOk K x t r n w) {a : Nat} {v : Int} {ws : List Nat}
    {sems : SemState} (hs : x.state.sems.Shifted a v ws sems) (ha : a ∈ x.state.sems.head)
    (hne : x.doneSem r ≠ a) :
    (r ∈ sems.kheap.live ∧ r ∉ sems.head) ∧
      (x.doneSem r ∈ sems.head ∧ (sems.sem (x.doneSem r)).value = x.value (x.doneSem r)) ∧
      sems.sched.waiters r = x.waiters r ∧
      sems.sched.waiters (x.doneSem r) = x.waiters (x.doneSem r) := by
  have hra : r ≠ a := fun heq => h.live.2.2.1 (heq ▸ ha)
  rw [hs.kheap, hs.head, hs.sem_of_ne _ hne, hs.waiters_of_ne _ hra, hs.waiters_of_ne _ hne]
  exact ⟨⟨h.live.2.1, h.live.2.2.1⟩, ⟨h.sem.1, rfl⟩, rfl, rfl⟩

/-- The client that runs, somewhere else in its call. -/
theorem handle_update {phase : ClientPhase} (hph : phase.handle = (x.client t).handle) (t' : Nat) :
    (Function.update x.client t phase t').handle = (x.client t').handle := by
  by_cases htt : t' = t
  · rw [htt, Function.update_self, hph]
  · rw [Function.update_of_ne htt]

theorem exec_waitReply (hrun : x.state.sched.run = some t) (hph : x.client t = .called r n) :
    exec K x .waitReply = { x with
      state := (x.state.waitReply r).2
      client := Function.update x.client t (.waited r n) } := by
  simp only [exec, phase, setPhase, hrun, hph]
  rfl

/-- A step after which every client has the request it had. -/
theorem Ok.step (h : x.Ok K) (hsems : x'.state.sems.Steady)
    (hids : x'.state.portalGetById K.id = some K.addr ∧
      x'.state.portalGetByTid K.tid = some K.addr)
    (hportal : x'.reqSem K ∈ x'.state.sems.head)
    (hcredit : x'.value (x'.reqSem K) =
      (x'.reqs K).length - (if x'.server = .waited then 1 else 0))
    (hown : ∀ t ∈ x'.waiters (x'.reqSem K), t = K.tid)
    (hreqs : (x'.reqs K).Sublist (x.reqs K))
    (hhandle : ∀ t, (x'.client t).handle = (x.client t).handle)
    (hdone : ∀ r, x'.doneSem r = x.doneSem r)
    (hserving : ∀ r n, x'.server = .serving r n → ∃ t, (x.client t).handle = some (r, n))
    (hcalls : ∀ t r n, (x.client t).handle = some (r, n) →
      CallOk K x t r n (x.client t).hasWaited → CallOk K x' t r n (x'.client t).hasWaited)
    (hanswered : ∀ t r n, x'.client t = .answered r n → (x'.response n).isSome)
    (hserver : x'.client K.tid = .idle) (hlogs : x'.Logs) : x'.Ok K where
  sems := hsems
  byId := hids.1
  byTid := hids.2
  portal := hportal
  credit := hcredit
  own := hown
  nodup := h.nodup.sublist hreqs
  calls t r n hh := by
    rw [hhandle] at hh
    exact hcalls t r n hh (h.calls t r n hh)
  answered := hanswered
  apart t t' r n r' n' hh hh' := by
    rw [hhandle] at hh hh'
    rw [hdone, hdone]
    exact h.apart t t' r n r' n' hh hh'
  queued r hr := by
    obtain ⟨t, n, hh⟩ := h.queued r (hreqs.subset hr)
    exact ⟨t, n, (hhandle t).trans hh⟩
  serving r n hs := by
    obtain ⟨t, hh⟩ := hserving r n hs
    exact ⟨t, (hhandle t).trans hh⟩
  server := hserver
  logs := hlogs

/-- A client is not the server. -/
theorem Ok.ne_server (h : x.Ok K) (hhandle : (x.client t).handle = some (r, n)) : K.tid ≠ t := by
  rintro rfl
  rw [h.server] at hhandle
  exact nomatch hhandle

theorem Ok.waitReply (h : x.Ok K) (hrun : x.state.sched.run = some t)
    (hfree : (x.state.sched.thread t).waitingOn = 0) (hph : x.client t = .called r n) :
    (exec K x .waitReply).Ok K := by
  have hhandle : (x.client t).handle = some (r, n) := by rw [hph]; rfl
  have hc := h.calls t r n hhandle
  rw [hph] at hc
  have hmem : x.doneSem r ∈ x.state.sems.head := hc.sem.1
  obtain ⟨hok, hshift⟩ := h.sems.wait hmem hrun fun _ => hfree
  have hstate : (x.state.waitReply r).2 =
      x.state.withSems (x.state.sems.wait (x.state.sems.sem (x.doneSem r)).id).2 := by
    have hgood : ¬(r = 0 ∨ (x.state.req r).doneSem = 0) :=
      not_or.mpr ⟨hc.live.1, (h.sems.live _ hmem).1⟩
    unfold PortalState.waitReply
    rw [if_neg hgood]
    rfl
  set sems := (x.state.sems.wait (x.state.sems.sem (x.doneSem r)).id).2 with hsems
  rw [exec_waitReply hrun hph, hstate]
  have hne : x.reqSem K ≠ x.doneSem r := hc.sem.2.symm
  refine h.step hok ⟨h.byId, h.byTid⟩ ?_ ?_ ?_ (List.Sublist.refl _)
    (handle_update (by rw [hph]; rfl)) (fun _ => rfl) h.serving (fun t' r' n' hh hc' => ?_)
    (fun t' r' n' hh => ?_) ?_
      ⟨h.logs.made, h.logs.handed, h.logs.replied, h.logs.results, h.logs.cleaned⟩
  · change x.reqSem K ∈ sems.head
    rw [hshift.head]
    exact h.portal
  · change (sems.sem (x.reqSem K)).value = _
    rw [hshift.sem_of_ne _ hne]
    exact h.credit
  · change ∀ t' ∈ sems.sched.waiters (x.reqSem K), t' = K.tid
    rw [hshift.waiters_of_ne _ hne]
    exact h.own
  · dsimp only
    by_cases htt : t' = t
    · subst htt
      obtain ⟨rfl, rfl⟩ : r' = r ∧ n' = n := by
        rw [hhandle] at hh
        simpa [eq_comm] using hh
      rw [Function.update_self]
      have hrd : r' ≠ x.doneSem r' := fun heq => hc.live.2.2.1 (heq ▸ hmem)
      refine ⟨⟨hc.live.1, ?_, ?_, ?_⟩, hc.serial, ⟨?_, hc.sem.2⟩, ?_, ?_, hc.made, hc.fresh,
        hc.stage⟩
      · exact hshift.kheap.symm ▸ hc.live.2.1
      · exact hshift.head.symm ▸ hc.live.2.2.1
      · exact (hshift.waiters_of_ne _ hrd).trans hc.live.2.2.2
      · exact hshift.head.symm ▸ hmem
      · change ∀ t ∈ sems.sched.waiters (x.doneSem r'), t = t'
        rw [hshift.waiters_self]
        intro t ht
        split_ifs at ht
        · exact (List.mem_cons.mp ht).elim id (hc.own t)
        · exact hc.own t ht
      · have hcredit : (x.state.sems.sem (x.doneSem r')).value =
            (if (x.response n').isSome then 1 else 0) - 0 := hc.credit
        change (sems.sem (x.doneSem r')).value = (if (x.response n').isSome then 1 else 0) - 1
        rw [hshift.sem_self]
        rw [hcredit, Int.sub_zero]
    · rw [Function.update_of_ne htt]
      have hdone := (h.apart t' t r' n' r n hh hhandle htt).2.2
      obtain ⟨h₁, h₂, h₃⟩ := hc'.shifted hshift hmem hdone
      exact hc'.frame ⟨h₁, rfl, h₂, h₃, rfl, Iff.rfl, Iff.rfl, rfl, Iff.rfl, List.Subset.refl _,
        Nat.le_refl _, hc'.fresh.2⟩
  · by_cases htt : t' = t
    · rw [htt] at hh
      simp at hh
    · simp only [Function.update_of_ne htt] at hh
      exact h.answered t' r' n' hh
  · simp only [Function.update_of_ne (h.ne_server hhandle)]
    exact h.server

theorem exec_getResult (hrun : x.state.sched.run = some t) (hph : x.client t = .waited r n)
    (hr : r ≠ 0) :
    exec K x .getResult = { x with
      client := Function.update x.client t (.answered r n)
      results := (t, n, (x.state.req r).ret) :: x.results } := by
  have hget : x.state.getResult r = (0, some (x.state.req r).ret) := if_neg hr
  have hres : portalExec .ok x.state (requestConfig 4 r 0) =
      (0, requestConfig 4 r (x.state.req r).ret, x.state) := by
    simp only [portalExec, requestConfig, PortalCtrlCmd.decode, hget]
  simp only [exec, phase, setPhase, hrun, hph, hres]
  rfl

theorem Ok.getResult (h : x.Ok K) (hrun : x.state.sched.run = some t)
    (hfree : (x.state.sched.thread t).waitingOn = 0) (hph : x.client t = .waited r n) :
    (exec K x .getResult).Ok K := by
  have hhandle : (x.client t).handle = some (r, n) := by rw [hph]; rfl
  have hc := h.calls t r n hhandle
  rw [hph] at hc
  obtain ⟨-, -, hresp, -⟩ := hc.replied h.sems hfree
  rw [exec_getResult hrun hph hc.live.1]
  refine h.step h.sems ⟨h.byId, h.byTid⟩ h.portal h.credit h.own (List.Sublist.refl _)
    (handle_update (by rw [hph]; rfl)) (fun _ => rfl) h.serving (fun t' r' n' hh hc' => ?_)
    (fun t' r' n' hh => ?_) ?_ ⟨h.logs.made, h.logs.handed, h.logs.replied, ?_, h.logs.cleaned⟩
  · have hwaited : (Function.update x.client t (.answered r n) t').hasWaited =
        (x.client t').hasWaited := by
      by_cases htt : t' = t
      · rw [htt, Function.update_self, hph]
        rfl
      · rw [Function.update_of_ne htt]
    rw [hwaited]
    exact hc'.frame ⟨⟨hc'.live.2.1, hc'.live.2.2.1⟩, rfl, ⟨hc'.sem.1, rfl⟩, ⟨rfl, rfl⟩, rfl,
      Iff.rfl, Iff.rfl, rfl, Iff.rfl, List.Subset.refl _, Nat.le_refl _, hc'.fresh.2⟩
  · by_cases htt : t' = t
    · rw [htt] at hh
      simp only [Function.update_self, ClientPhase.answered.injEq] at hh
      change (x.response n').isSome
      rw [← hh.2, hresp]
      rfl
    · simp only [Function.update_of_ne htt] at hh
      exact h.answered t' r' n' hh
  · simp only [Function.update_of_ne (h.ne_server hhandle)]
    exact h.server
  · intro e he
    rcases List.mem_cons.mp he with rfl | he
    · exact ⟨hc.made, hresp⟩
    · exact h.logs.results e he

theorem exec_cleanup (env : ShmEnv) (hrun : x.state.sched.run = some t)
    (hph : x.client t = .answered r n) :
    exec K x (.cleanup env) = { x with
      state := (x.state.cleanup env r).2
      client := Function.update x.client t .idle
      cleaned := n :: x.cleaned } := by
  simp only [exec, phase, setPhase, hrun, hph]
  rfl

/-- The heap after a request has been cleaned up. -/
theorem cleanup_state (env : ShmEnv) (hr : r ≠ 0) (hdeq : (x.state.req r).dequeued = true)
    (hsem : x.doneSem r ≠ 0) : (x.state.cleanup env r).2 =
      (x.state.withSems (x.state.sems.destroy (x.doneSem r)).2).kfree r := by
  have hsem' : (x.state.req r).doneSem ≠ 0 := hsem
  unfold PortalState.cleanup
  rw [if_neg hr]
  dsimp only
  rw [if_pos hdeq, if_pos hsem']
  rfl

theorem Ok.cleanup (h : x.Ok K) (env : ShmEnv) (hrun : x.state.sched.run = some t)
    (hfree : (x.state.sched.thread t).waitingOn = 0) (hph : x.client t = .answered r n) :
    (exec K x (.cleanup env)).Ok K := by
  have hhandle : (x.client t).handle = some (r, n) := by rw [hph]; rfl
  have hc := h.calls t r n hhandle
  rw [hph] at hc
  obtain ⟨hnil, -, -, hdeq, hreqs, hserver⟩ := hc.replied h.sems hfree
  have hmem := hc.sem.1
  obtain ⟨hok, hd⟩ := h.sems.destroy hmem hnil
  rw [exec_cleanup env hrun hph,
    cleanup_state env hc.live.1 hdeq (h.sems.live _ hmem).1]
  set sems := (x.state.sems.destroy (x.doneSem r)).2 with hsems
  have hhead {a : Nat} : a ∈ sems.head ↔ a ≠ x.doneSem r ∧ a ∈ x.state.sems.head := by
    rw [hd.head]
    exact h.sems.head.mem_erase_iff
  have hlive {a : Nat} (ha : a ∈ x.state.sems.kheap.live) (hne : a ≠ x.doneSem r) (hne' : a ≠ r) :
      a ∈ (sems.kheap.free r).live := by
    refine hok.heap.mem_erase_iff.mpr ⟨hne', ?_⟩
    rw [hd.kheap]
    exact h.sems.heap.mem_erase_iff.mpr ⟨hne, ha⟩
  have hclient {t' : Nat} {p : Nat × Nat}
      (hh : (Function.update x.client t .idle t').handle = some p) :
      t' ≠ t ∧ (x.client t').handle = some p := by
    by_cases htt : t' = t
    · rw [htt, Function.update_self] at hh
      exact nomatch hh
    · rw [Function.update_of_ne htt] at hh
      exact ⟨htt, hh⟩
  refine ⟨?_, h.byId, h.byTid, ?_, ?_, ?_, h.nodup, fun t' r' n' hh => ?_, fun t' r' n' hh => ?_,
    fun t' t'' r' n' r'' n'' hh hh' => ?_, fun r' hr' => ?_, fun r' n' hs => ?_, ?_,
    ⟨h.logs.made, h.logs.handed, h.logs.replied, h.logs.results, ?_⟩⟩
  · refine hok.kfree (fun hin => hc.live.2.2.1 (hhead.mp hin).2) ?_
    rw [hd.sched]
    exact hc.live.2.2.2
  · exact hhead.mpr ⟨hc.sem.2.symm, h.portal⟩
  · change (sems.sem (x.reqSem K)).value = _
    rw [hd.sem]
    exact h.credit
  · change ∀ t' ∈ sems.sched.waiters (x.reqSem K), t' = K.tid
    rw [hd.sched]
    exact h.own
  · obtain ⟨htt, hh⟩ := hclient hh
    have hc' := h.calls t' r' n' hh
    obtain ⟨hr, hn, hdone⟩ := h.apart t' t r' n' r n hh hhandle htt
    have hrd : r' ≠ x.doneSem r := fun heq => hc'.live.2.2.1 (heq ▸ hmem)
    dsimp only
    rw [Function.update_of_ne htt]
    refine hc'.frame ⟨⟨hlive hc'.live.2.1 hrd hr, fun hin => hc'.live.2.2.1 (hhead.mp hin).2⟩, rfl,
      ⟨hhead.mpr ⟨hdone, hc'.sem.1⟩, ?_⟩, ⟨?_, ?_⟩, rfl, Iff.rfl, Iff.rfl, rfl, Iff.rfl,
      List.Subset.refl _, Nat.le_refl _, fun hin => ?_⟩
    · change (sems.sem _).value = (x.state.sems.sem _).value
      rw [hd.sem]
    · change sems.sched.waiters r' = _
      rw [hd.sched]
      rfl
    · change sems.sched.waiters (x.doneSem r') = _
      rw [hd.sched]
      rfl
    · exact (List.mem_cons.mp hin).elim hn hc'.fresh.2
  · by_cases htt : t' = t
    · rw [htt] at hh
      simp at hh
    · simp only [Function.update_of_ne htt] at hh
      exact h.answered t' r' n' hh
  · exact h.apart t' t'' r' n' r'' n'' (hclient hh).2 (hclient hh').2
  · obtain ⟨t', n', hh⟩ := h.queued r' hr'
    have htt : t' ≠ t := by
      rintro rfl
      rw [hhandle] at hh
      cases hh
      exact hreqs hr'
    refine ⟨t', n', ?_⟩
    simp only [Function.update_of_ne htt]
    exact hh
  · grind [h.serving]
  · simp only [Function.update_of_ne (h.ne_server hhandle)]
    exact h.server
  · intro n' hn'
    rcases List.mem_cons.mp hn' with rfl | hn'
    · exact hc.fresh.1
    · exact h.logs.cleaned n' hn'

/-! ## The steps of the server -/

/-- The list of the portal is found by its server. -/
theorem Ok.threadGetTid (hrun : x.state.sched.run = some K.tid) :
    x.state.threadGetTid = K.tid := by
  unfold PortalState.threadGetTid
  rw [hrun]

theorem Ok.wait (h : x.Ok K) (hrun : x.state.sched.run = some K.tid)
    (hfree : (x.state.sched.thread K.tid).waitingOn = 0) (hidle : x.server = .idle) :
    (exec K x .wait).Ok K := by
  have hmem := h.portal
  obtain ⟨hok, hshift⟩ := h.sems.wait hmem hrun fun _ => hfree
  set sems := (x.state.sems.wait (x.state.sems.sem (x.reqSem K)).id).2 with hsems
  have hexec : exec K x .wait = { x with state := x.state.withSems sems, server := .waited } := by
    have hwait : x.state.wait = (0, x.state.withSems sems) := by
      unfold PortalState.wait
      rw [Ok.threadGetTid hrun, h.byTid]
      rfl
    change { x with state := x.state.wait.2, server := .waited } = _
    rw [hwait]
  rw [hexec]
  refine h.step hok ⟨h.byId, h.byTid⟩ ?_ ?_ ?_ (List.Sublist.refl _) (fun _ => rfl) (fun _ => rfl)
    (fun r n hs => nomatch hs) (fun t r n hh hc => ?_) h.answered h.server
    ⟨h.logs.made, h.logs.handed, h.logs.replied, h.logs.results, h.logs.cleaned⟩
  · change x.reqSem K ∈ sems.head
    rw [hshift.head]
    exact hmem
  · have hcredit : (x.state.sems.sem (x.reqSem K)).value = (x.reqs K).length - 0 := by
      have hcredit := h.credit
      rw [hidle] at hcredit
      exact hcredit
    change (sems.sem (x.reqSem K)).value = (x.reqs K).length - 1
    rw [hshift.sem_self]
    rw [hcredit, Int.sub_zero]
  · change ∀ t ∈ sems.sched.waiters (x.reqSem K), t = K.tid
    rw [hshift.waiters_self]
    intro t ht
    split_ifs at ht
    · exact (List.mem_cons.mp ht).elim id (h.own t)
    · exact h.own t ht
  · obtain ⟨h₁, h₂, h₃⟩ := hc.shifted hshift hmem hc.sem.2
    refine hc.frame ⟨h₁, rfl, h₂, h₃, rfl, Iff.rfl, Iff.rfl, rfl, ?_, List.Subset.refl _,
      Nat.le_refl _, hc.fresh.2⟩
    rw [hidle]
    exact iff_of_false (fun heq => nomatch heq) fun heq => nomatch heq

/-- A server that has waited and waits no more finds a request. -/
theorem Ok.reqs_ne_nil (h : x.Ok K) (hfree : (x.state.sched.thread K.tid).waitingOn = 0)
    (hwaited : x.server = .waited) : x.reqs K ≠ [] := by
  intro hnil
  have hcredit := h.credit
  rw [hnil, hwaited] at hcredit
  have hvalue : (x.state.sems.sem (x.reqSem K)).value = -1 := hcredit
  have hcount := h.sems.count _ h.portal
  rw [hvalue] at hcount
  -- the one thread that waits is the server, which does not
  match hw : x.state.sems.sched.waiters (x.reqSem K) with
  | [] =>
    rw [hw] at hcount
    exact absurd hcount (by decide)
  | t :: ts =>
    have ht : t ∈ x.state.sems.sched.waiters (x.reqSem K) := hw ▸ List.mem_cons_self
    have heq := h.own t ht
    rw [heq] at ht
    exact h.sems.waits.not_mem hfree _ ht

/-- A portal is found by the same identifiers, whatever its list. -/
theorem portalGet_setReqs (s : PortalState) (p : Nat) (reqs : List Nat) (id : Nat) (tid : Int) :
    (s.setPortal p { s.portal p with reqs }).portalGetById id = s.portalGetById id ∧
      (s.setPortal p { s.portal p with reqs }).portalGetByTid tid = s.portalGetByTid tid := by
  have hid (q : Nat) :
      ((s.setPortal p { s.portal p with reqs }).portal q).id = (s.portal q).id := by
    unfold PortalState.setPortal
    by_cases hq : q = p <;> simp [Function.update, hq]
  have htid (q : Nat) :
      ((s.setPortal p { s.portal p with reqs }).portal q).tid = (s.portal q).tid := by
    unfold PortalState.setPortal
    by_cases hq : q = p <;> simp [Function.update, hq]
  unfold PortalState.portalGetById PortalState.portalGetByTid
  simp only [hid, htid]
  exact ⟨rfl, rfl⟩

theorem exec_getReq (h : x.Ok K) (hrun : x.state.sched.run = some K.tid) {rest : List Nat}
    (hreqs : x.reqs K = r :: rest) (hr : r ≠ 0) :
    exec K x .getReq = { x with
      state := (x.state.setPortal K.addr { x.state.portal K.addr with reqs := rest }).setReq r
        { x.state.req r with dequeued := true }
      server := .serving r (x.state.req r).serial
      handed := (x.state.req r).serial :: x.handed } := by
  have hget : x.state.getReq = (0, r,
      (x.state.setPortal K.addr { x.state.portal K.addr with reqs := rest }).setReq r
        { x.state.req r with dequeued := true }) := by
    have hreqs' : (x.state.portal K.addr).reqs = r :: rest := hreqs
    unfold PortalState.getReq
    rw [Ok.threadGetTid hrun, h.byTid]
    dsimp only
    rw [hreqs']
    rfl
  simp only [exec, portalExec, requestConfig, PortalCtrlCmd.decode, hget, if_neg hr]
  simp [PortalState.setReq, hr]

theorem Ok.getReq (h : x.Ok K) (hrun : x.state.sched.run = some K.tid)
    (hfree : (x.state.sched.thread K.tid).waitingOn = 0) (hwaited : x.server = .waited) :
    (exec K x .getReq).Ok K := by
  obtain ⟨r, rest, hreqs⟩ := List.exists_cons_of_ne_nil (h.reqs_ne_nil hfree hwaited)
  have hmem : r ∈ x.reqs K := hreqs ▸ List.mem_cons_self
  obtain ⟨t, n, hhandle⟩ := h.queued r hmem
  have hc := h.calls t r n hhandle
  have hnodup := h.nodup
  rw [hreqs, List.nodup_cons] at hnodup
  obtain ⟨hnew, hresp⟩ : n ∉ x.handed ∧ x.response n = none := by
    rcases hc.stage with ⟨-, h₁, h₂, -⟩ | ⟨hno, -⟩
    · exact ⟨h₁, h₂⟩
    · exact absurd hmem hno
  rw [exec_getReq h hrun hreqs hc.live.1, hc.serial]
  have hlookup := portalGet_setReqs x.state K.addr rest K.id K.tid
  set s := (x.state.setPortal K.addr { x.state.portal K.addr with reqs := rest }).setReq r
    { x.state.req r with dequeued := true } with hs
  have hportal : s.portal K.addr = { x.state.portal K.addr with reqs := rest } :=
    Function.update_self _ _ _
  have hself : s.req r = { x.state.req r with dequeued := true } := Function.update_self _ _ _
  have hothers {r' : Nat} (hr' : r' ≠ r) : s.req r' = x.state.req r' :=
    Function.update_of_ne hr' _ _
  have hdone (r' : Nat) : (s.req r').doneSem = x.doneSem r' := by
    by_cases hr' : r' = r
    · rw [hr', hself]
      rfl
    · rw [hothers hr']
      rfl
  refine h.step h.sems ⟨hlookup.1.trans h.byId, hlookup.2.trans h.byTid⟩ ?_ ?_ ?_ ?_ (fun _ => rfl)
    hdone (fun r' n' hs' => ?_) (fun t' r' n' hh hc' => ?_) h.answered h.server
    ⟨h.logs.made, ⟨List.nodup_cons.mpr ⟨hnew, h.logs.handed.1⟩, ?_⟩, h.logs.replied,
      h.logs.results, h.logs.cleaned⟩
  · change (s.portal K.addr).reqSem ∈ x.state.sems.head
    rw [hportal]
    exact h.portal
  · have hcredit := h.credit
    rw [hreqs, hwaited, List.length_cons] at hcredit
    have hcredit' : x.value (x.reqSem K) = (rest.length + 1 : Nat) - 1 := hcredit
    change (x.state.sems.sem (s.portal K.addr).reqSem).value = (s.portal K.addr).reqs.length - 0
    rw [hportal]
    dsimp only
    unfold value reqSem at hcredit'
    omega
  · change ∀ t ∈ x.state.sems.sched.waiters (s.portal K.addr).reqSem, t = K.tid
    rw [hportal]
    exact h.own
  · change (s.portal K.addr).reqs.Sublist _
    rw [hportal, hreqs]
    exact List.sublist_cons_self r rest
  · cases hs'
    exact ⟨t, hhandle⟩
  · by_cases htt : t' = t
    · subst htt
      obtain ⟨rfl, rfl⟩ : r' = r ∧ n' = n := by
        rw [hhandle] at hh
        simpa [eq_comm] using hh
      refine ⟨hc'.live, ?_, ?_, ?_, ?_, hc'.made, hc'.fresh, Or.inr ⟨?_, ?_, List.mem_cons_self,
        Or.inl ⟨hresp, rfl⟩⟩⟩
      · rw [hself]
        exact hc'.serial
      · change (s.req r').doneSem ∈ x.state.sems.head ∧
          (s.req r').doneSem ≠ (s.portal K.addr).reqSem
        rw [hdone, hportal]
        exact hc'.sem
      · change ∀ t ∈ x.state.sems.sched.waiters (s.req r').doneSem, t = t'
        rw [hdone]
        exact hc'.own
      · change (x.state.sems.sem (s.req r').doneSem).value = _
        rw [hdone]
        exact hc'.credit
      · change r' ∉ (s.portal K.addr).reqs
        rw [hportal]
        exact hnodup.1
      · rw [hself]
    · obtain ⟨hr, hn, -⟩ := h.apart t' t r' n' r n hh hhandle htt
      refine hc'.frame ⟨⟨hc'.live.2.1, hc'.live.2.2.1⟩, hothers hr, ⟨hc'.sem.1, rfl⟩, ⟨rfl, rfl⟩,
        ?_, ?_, ?_, rfl, ?_, List.Subset.refl _, Nat.le_refl _, hc'.fresh.2⟩
      · change (s.portal K.addr).reqSem = _
        rw [hportal]
        rfl
      · change r' ∈ (s.portal K.addr).reqs ↔ _
        rw [hportal, hreqs]
        exact ⟨List.mem_cons_of_mem _, fun hin => (List.mem_cons.mp hin).resolve_left hr⟩
      · grind
      · grind
  · intro n' hn'
    rcases List.mem_cons.mp hn' with rfl | hn'
    · exact hc.fresh.1
    · exact h.logs.handed.2 n' hn'

/-- Who has no reply is not among those that have one. -/
theorem not_mem_of_response (h : x.response n = none) : n ∉ x.replied.map Prod.fst := by
  intro hmem
  obtain ⟨e, he, rfl⟩ := List.mem_map.mp hmem
  have hne := List.lookup_eq_none_iff.mp h e he
  simp at hne

theorem exec_reply (ret : Int) (hserving : x.server = .serving r n) :
    exec K x (.reply ret) = { x with
      state := (x.state.reply r ret).2
      server := .idle
      replied := (n, ret) :: x.replied } := by
  simp only [exec, hserving]
  rfl

theorem Ok.reply (h : x.Ok K) (ret : Int) (hserving : x.server = .serving r n) :
    (exec K x (.reply ret)).Ok K := by
  obtain ⟨t, hhandle⟩ := h.serving r n hserving
  have hc := h.calls t r n hhandle
  have hmem := hc.sem.1
  obtain ⟨hreqs, hdeq, hhanded, hresp⟩ : r ∉ x.reqs K ∧ (x.state.req r).dequeued = true ∧
      n ∈ x.handed ∧ x.response n = none := by
    rcases hc.stage with ⟨-, -, -, hno⟩ | ⟨h₁, h₂, h₃, ⟨h₄, -⟩ | ⟨-, hno⟩⟩
    · exact absurd hserving hno
    · exact ⟨h₁, h₂, h₃, h₄⟩
    · exact absurd hserving hno
  obtain ⟨hok, hshift⟩ := h.sems.signal hmem
  set sems := (x.state.sems.signal (x.state.sems.sem (x.doneSem r)).id).2 with hsems
  have hstate : (x.state.reply r ret).2 =
      (x.state.setReq r { x.state.req r with ret }).withSems sems := by
    have hgood : ¬(r = 0 ∨ (x.state.req r).doneSem = 0) :=
      not_or.mpr ⟨hc.live.1, (h.sems.live _ hmem).1⟩
    unfold PortalState.reply
    rw [if_neg hgood]
    rw [hsems]
    unfold PortalState.setReq doneSem
    simp
  rw [exec_reply ret hserving, hstate]
  set s := (x.state.setReq r { x.state.req r with ret }).withSems sems with hs
  have hself : s.req r = { x.state.req r with ret } := Function.update_self _ _ _
  have hothers {r' : Nat} (hr' : r' ≠ r) : s.req r' = x.state.req r' :=
    Function.update_of_ne hr' _ _
  have hdone (r' : Nat) : (s.req r').doneSem = x.doneSem r' := by
    by_cases hr' : r' = r
    · rw [hr', hself]
      rfl
    · rw [hothers hr']
      rfl
  have hnew : ((n, ret) :: x.replied).lookup n = some ret := by simp
  have hold {n' : Nat} (hn : n' ≠ n) : ((n, ret) :: x.replied).lookup n' = x.response n' := by
    rw [List.lookup_cons, beq_false_of_ne hn]
    rfl
  have hne : x.reqSem K ≠ x.doneSem r := hc.sem.2.symm
  refine h.step hok ⟨h.byId, h.byTid⟩ ?_ ?_ ?_ (List.Sublist.refl _) (fun _ => rfl) hdone
    (fun r' n' hs' => nomatch hs') (fun t' r' n' hh hc' => ?_) (fun t' r' n' hh => ?_) h.server
    ⟨h.logs.made, h.logs.handed, ⟨?_, ?_⟩, ?_, h.logs.cleaned⟩
  · change x.reqSem K ∈ sems.head
    rw [hshift.head]
    exact h.portal
  · have hcredit := h.credit
    rw [hserving] at hcredit
    change (sems.sem (x.reqSem K)).value = _
    rw [hshift.sem_of_ne _ hne]
    exact hcredit
  · change ∀ t ∈ sems.sched.waiters (x.reqSem K), t = K.tid
    rw [hshift.waiters_of_ne _ hne]
    exact h.own
  · by_cases htt : t' = t
    · subst htt
      obtain ⟨rfl, rfl⟩ : r' = r ∧ n' = n := by
        rw [hhandle] at hh
        simpa [eq_comm] using hh
      have hrd : r' ≠ x.doneSem r' := fun heq => hc'.live.2.2.1 (heq ▸ hmem)
      refine ⟨⟨hc'.live.1, ?_, ?_, ?_⟩, ?_, ?_, ?_, ?_, hc'.made, hc'.fresh,
        Or.inr ⟨hreqs, ?_, hhanded, Or.inr ⟨?_, fun heq => nomatch heq⟩⟩⟩
      · exact hshift.kheap.symm ▸ hc'.live.2.1
      · exact hshift.head.symm ▸ hc'.live.2.2.1
      · exact (hshift.waiters_of_ne _ hrd).trans hc'.live.2.2.2
      · rw [hself]
        exact hc'.serial
      · change (s.req r').doneSem ∈ sems.head ∧ (s.req r').doneSem ≠ x.reqSem K
        rw [hdone, hshift.head]
        exact hc'.sem
      · change ∀ t ∈ sems.sched.waiters (s.req r').doneSem, t = t'
        rw [hdone, hshift.waiters_self]
        exact fun t ht => hc'.own t (List.mem_of_mem_tail ht)
      · have hcredit := hc'.credit
        rw [hresp] at hcredit
        unfold value at hcredit
        change (sems.sem (s.req r').doneSem).value =
          (if (((n', ret) :: x.replied).lookup n').isSome then 1 else 0) - _
        rw [hdone, hshift.sem_self, hnew]
        rw [hcredit]
        simp
        omega
      · grind
      · change ((n', ret) :: x.replied).lookup n' = some (s.req r').ret
        rw [hnew, hself]
    · obtain ⟨hr, hn, hd⟩ := h.apart t' t r' n' r n hh hhandle htt
      obtain ⟨h₁, h₂, h₃⟩ := hc'.shifted hshift hmem hd
      refine hc'.frame ⟨h₁, hothers hr, h₂, h₃, rfl, Iff.rfl, Iff.rfl, hold hn, ?_,
        List.Subset.refl _, Nat.le_refl _, hc'.fresh.2⟩
      rw [hserving]
      refine iff_of_false (fun heq => nomatch heq) fun heq => ?_
      cases heq
      exact hr rfl
  · change (((n, ret) :: x.replied).lookup n').isSome
    by_cases hn : n' = n
    · rw [hn, hnew]
      rfl
    · rw [hold hn]
      exact h.answered t' r' n' hh
  · exact List.nodup_cons.mpr ⟨not_mem_of_response hresp, h.logs.replied.1⟩
  · intro e he
    rcases List.mem_cons.mp he with rfl | he
    · exact hc.fresh.1
    · exact h.logs.replied.2 e he
  · intro e he
    obtain ⟨h₁, h₂⟩ := h.logs.results e he
    refine ⟨h₁, ?_⟩
    have hn : e.2.1 ≠ n := fun heq => nomatch (heq ▸ h₂).symm.trans hresp
    exact (hold hn).trans h₂

/-- Only who runs, and who could, changes. -/
theorem Ok.withSched (h : x.Ok K) {sched : Sched} (hs : x.state.sched.SameWaits sched)
    (hrun : ∀ t, sched.run = some t → t ∈ x.state.sched.order) :
    Ok K { x with state := x.state.withSems (x.state.sems.withSched sched) } := by
  have hwaiters (a : Nat) : sched.waiters a = x.waiters a := congrFun hs.waiters a
  refine h.step (h.sems.withSched hs hrun) ⟨h.byId, h.byTid⟩ h.portal h.credit ?_
    (List.Sublist.refl _) (fun _ => rfl) (fun _ => rfl) h.serving (fun t r n hh hc => ?_) h.answered
    h.server ⟨h.logs.made, h.logs.handed, h.logs.replied, h.logs.results, h.logs.cleaned⟩
  · change ∀ t ∈ sched.waiters (x.reqSem K), t = K.tid
    rw [hwaiters]
    exact h.own
  · exact hc.frame ⟨⟨hc.live.2.1, hc.live.2.2.1⟩, rfl, ⟨hc.sem.1, rfl⟩, ⟨hwaiters _, hwaiters _⟩,
      rfl, Iff.rfl, Iff.rfl, rfl, Iff.rfl, List.Subset.refl _, Nat.le_refl _, hc.fresh.2⟩

/-! ## A call -/

/-- The state after a request has been queued, before the server is told. -/
def queueReq (s : PortalState) (env : ShmEnv) (p size r sem : Nat) (sems : SemState) :
    PortalState :=
  let s := s.withSems sems
  let v := s.portal p
  let s := s.setReq r ⟨s.threadGetTid, v.pid, env.out, size % 2 ^ 32, false, sem, 0, s.calls⟩
  { s.setPortal p { v with reqs := r :: v.reqs } with calls := s.calls + 1 }

/-- `PORTAL_CTRL_CALL`: nothing that shows has changed, or a request with a semaphore has been
queued and the server has been told. -/
theorem call_cases {s : PortalState} {p : Nat} (env : ShmEnv) {id : Nat} (size : Nat)
    (hp : s.portalGetById id = some p) :
    ((s.call env id size).1 ≠ 0 ∧ ∃ sems, s.sems.Unmade sems ∧
        (s.call env id size).2.2.2 = s.withSems sems) ∨
      ∃ r sem kheap sems, r ≠ 0 ∧ r ∉ s.sems.kheap.live ∧ kheap.live = r :: s.sems.kheap.live ∧
        SemState.Created { s.sems with kheap } sem 0 sems ∧ (s.call env id size).1 = 0 ∧
        (s.call env id size).2.2.1 = r ∧ (s.call env id size).2.2.2 =
          (queueReq s env p size r sem sems).withSems
            (sems.signal (sems.sem (s.portal p).reqSem).id).2 := by
  unfold PortalState.call
  rw [hp]
  dsimp only
  by_cases hshare : env.share ≠ 0
  · rw [if_pos hshare]
    exact Or.inl ⟨hshare, s.sems, ⟨rfl, rfl, rfl, rfl, rfl⟩, rfl⟩
  rw [if_neg hshare]
  unfold PortalState.kmalloc
  rcases s.sems.kheap.alloc_cases with ⟨hz, hlive⟩ | ⟨hz, hnew, hlive⟩
  · rw [if_pos hz]
    exact Or.inl ⟨eNomem_ne_zero, { s.sems with kheap := s.sems.kheap.alloc.2 },
      ⟨hlive, rfl, rfl, rfl, rfl⟩, rfl⟩
  rw [if_neg hz]
  set kheap := s.sems.kheap.alloc.2 with hkheap
  set sems₁ : SemState := { s.sems with kheap } with hsems₁
  have hsems : (s.withSems sems₁).sems = sems₁ := rfl
  rw [hsems]
  rcases sems₁.create_cases 0 with ⟨hsz, hun⟩ | hcr
  · rw [if_pos hsz]
    refine Or.inl ⟨eNomem_ne_zero,
      { (sems₁.create 0).2 with kheap := (sems₁.create 0).2.kheap.free s.sems.kheap.alloc.1 },
      ⟨?_, hun.head, hun.sem, hun.nextId, hun.sched⟩, rfl⟩
    change (sems₁.create 0).2.kheap.live.erase s.sems.kheap.alloc.1 = s.sems.kheap.live
    rw [hun.kheap]
    rw [hlive]
    simp
  · rw [if_neg hcr.fresh.1]
    exact Or.inr ⟨_, _, _, _, hz, hnew, hlive, hcr, rfl, rfl, rfl⟩

theorem Ok.unmade (h : x.Ok K) {sems : SemState} (hun : x.state.sems.Unmade sems) :
    Ok K { x with state := x.state.withSems sems } := by
  have hwaiters (a : Nat) : sems.sched.waiters a = x.waiters a := by
    rw [hun.sched]
    rfl
  refine h.step (hun.steady h.sems) ⟨h.byId, h.byTid⟩ ?_ ?_ ?_ (List.Sublist.refl _) (fun _ => rfl)
    (fun _ => rfl) h.serving (fun t r n hh hc => ?_) h.answered h.server
    ⟨h.logs.made, h.logs.handed, h.logs.replied, h.logs.results, h.logs.cleaned⟩
  · change x.reqSem K ∈ sems.head
    rw [hun.head]
    exact h.portal
  · change (sems.sem (x.reqSem K)).value = _
    rw [hun.sem]
    exact h.credit
  · change ∀ t ∈ sems.sched.waiters (x.reqSem K), t = K.tid
    rw [hwaiters]
    exact h.own
  · refine hc.frame ⟨⟨?_, ?_⟩, rfl, ⟨?_, ?_⟩, ⟨hwaiters _, hwaiters _⟩, rfl, Iff.rfl, Iff.rfl, rfl,
      Iff.rfl, List.Subset.refl _, Nat.le_refl _, hc.fresh.2⟩
    · exact hun.kheap.symm ▸ hc.live.2.1
    · exact hun.head.symm ▸ hc.live.2.2.1
    · exact hun.head.symm ▸ hc.sem.1
    · change (sems.sem _).value = (x.state.sems.sem _).value
      rw [hun.sem]

/-- The semaphores of a request that has been queued: all that the invariant needs. -/
structure Queued (x : Rpc) (Q r sem : Nat) (sems : SemState) : Prop where
  ok : sems.Steady
  req : r ≠ 0 ∧ r ∉ x.state.sems.kheap.live ∧ r ∈ sems.kheap.live ∧ r ∉ sems.head
  sem : sem ≠ 0 ∧ sem ∉ x.state.sems.kheap.live ∧ sem ∈ sems.head ∧ (sems.sem sem).value = 0
  live : ∀ a ∈ x.state.sems.kheap.live, a ∈ sems.kheap.live
  head : ∀ a ∈ x.state.sems.kheap.live, a ∈ sems.head ↔ a ∈ x.state.sems.head
  sem_of_ne : ∀ a ∈ x.state.sems.head, a ≠ Q → sems.sem a = x.state.sems.sem a
  portal : (sems.sem Q).value = x.value Q + 1
  waiters : ∀ a ≠ Q, sems.sched.waiters a = x.waiters a
  waiters_portal : ∀ t ∈ sems.sched.waiters Q, t ∈ x.waiters Q

theorem queued_signal (h : x.state.sems.Steady) {Q r sem : Nat} {kheap : Pool} {sems : SemState}
    (hQ : Q ∈ x.state.sems.head) (hr : r ≠ 0) (hnew : r ∉ x.state.sems.kheap.live)
    (hlive : kheap.live = r :: x.state.sems.kheap.live)
    (hcr : SemState.Created { x.state.sems with kheap } sem 0 sems)
    (hid : ∀ a ∈ x.state.sems.head, (x.state.sems.sem a).id ≠ x.state.sems.nextId) :
    Queued x Q r sem (sems.signal (sems.sem Q).id).2 := by
  have hok := hcr.steady (h.kmalloc hnew hlive) (Int.le_refl 0) hid
  have hsched := hcr.sched_eq (h.kmalloc hnew hlive).toCounts
  have hfresh : sem ∉ r :: x.state.sems.kheap.live := hlive ▸ hcr.fresh.2
  have hsl : sem ∉ x.state.sems.kheap.live := fun hin => hfresh (List.mem_cons_of_mem _ hin)
  have hQs : Q ≠ sem := fun heq => hsl (heq ▸ (h.live Q hQ).2)
  have hQ' : Q ∈ sems.head := hcr.head ▸ List.mem_cons_of_mem _ hQ
  obtain ⟨hok', hshift⟩ := hok.signal hQ'
  have hkheap : (sems.signal (sems.sem Q).id).2.kheap.live =
      sem :: r :: x.state.sems.kheap.live := by
    rw [hshift.kheap, hcr.kheap]
    exact congrArg _ hlive
  have hhead : (sems.signal (sems.sem Q).id).2.head = sem :: x.state.sems.head := by
    rw [hshift.head, hcr.head]
  refine ⟨hok', ⟨hr, hnew, ?_, ?_⟩, ⟨hcr.fresh.1, hsl, ?_, ?_⟩, fun a ha => ?_, fun a ha => ?_,
    fun a ha hne => ?_, ?_, fun a hne => ?_, fun t ht => ?_⟩
  · rw [hkheap]
    simp
  · grind [h.live]
  · rw [hhead]
    exact List.mem_cons_self
  · rw [hshift.sem_of_ne _ hQs.symm]
    exact hcr.sem_self.2
  · grind
  · grind
  · rw [hshift.sem_of_ne _ hne]
    exact hcr.sem_of_ne a fun heq => hsl (heq ▸ (h.live a ha).2)
  · rw [hshift.sem_self]
    exact congrArg (fun v : Semaphore => v.value + 1) (hcr.sem_of_ne Q hQs)
  · rw [hshift.waiters_of_ne _ hne, hsched]
    rfl
  · rw [hshift.waiters_self, hsched] at ht
    exact List.mem_of_mem_tail ht

theorem Queued.frame {Q sem : Nat} {sems : SemState} (hq : Queued x Q r sem sems)
    (h : x.state.sems.Steady) (hQ : Q ∈ x.state.sems.head) {r' n' t' : Nat}
    (hc : CallOk K x t' r' n' w) (hne : x.doneSem r' ≠ Q) :
    (r' ≠ r ∧ r' ≠ sem) ∧ (x.doneSem r' ≠ r ∧ x.doneSem r' ≠ sem) ∧
      (r' ∈ sems.kheap.live ∧ r' ∉ sems.head) ∧
      (x.doneSem r' ∈ sems.head ∧ (sems.sem (x.doneSem r')).value = x.value (x.doneSem r')) ∧
      sems.sched.waiters r' = x.waiters r' ∧
      sems.sched.waiters (x.doneSem r') = x.waiters (x.doneSem r') := by
  have hlive := hc.live.2.1
  have hdone := (h.live _ hc.sem.1).2
  have hrQ : r' ≠ Q := fun heq => hc.live.2.2.1 (heq ▸ hQ)
  refine ⟨⟨fun heq => hq.req.2.1 (heq ▸ hlive), fun heq => hq.sem.2.1 (heq ▸ hlive)⟩,
    ⟨fun heq => hq.req.2.1 (heq ▸ hdone), fun heq => hq.sem.2.1 (heq ▸ hdone)⟩,
    ⟨hq.live _ hlive, fun hin => hc.live.2.2.1 ((hq.head _ hlive).mp hin)⟩,
    ⟨(hq.head _ hdone).mpr hc.sem.1, ?_⟩, hq.waiters _ hrQ, hq.waiters _ hne⟩
  rw [hq.sem_of_ne _ hc.sem.1 hne]
  rfl

/-- The invariant after a request has been queued and the server has been told. -/
theorem Ok.queue (h : x.Ok K) (env : ShmEnv) (size : Nat) {sem : Nat} {sems sems' : SemState}
    (hne : t ≠ K.tid) (hph : x.client t = .idle) (hq : Queued x (x.reqSem K) r sem sems') :
    let s := (queueReq x.state env K.addr size r sem sems).withSems sems'
    Ok K { x with
      state := s
      client := Function.update x.client t (.called r (s.req r).serial)
      made := ((s.req r).serial, t) :: x.made } := by
  intro s
  have hlookup := portalGet_setReqs x.state K.addr (r :: x.reqs K) K.id K.tid
  have hportal : s.portal K.addr = { x.state.portal K.addr with reqs := r :: x.reqs K } :=
    Function.update_self _ _ _
  have hserial : (s.req r).serial = x.state.calls :=
    congrArg PortalReq.serial (Function.update_self r _ x.state.req)
  have hsem : (s.req r).doneSem = sem :=
    congrArg PortalReq.doneSem (Function.update_self r _ x.state.req)
  have hothers {r' : Nat} (hr' : r' ≠ r) : s.req r' = x.state.req r' :=
    Function.update_of_ne hr' _ _
  rw [hserial]
  set x' : Rpc := { x with
    state := s
    client := Function.update x.client t (.called r x.state.calls)
    made := (x.state.calls, t) :: x.made } with hx'
  have hreqs : x'.reqs K = r :: x.reqs K := congrArg Portal.reqs hportal
  have hreqSem : x'.reqSem K = x.reqSem K := (congrArg Portal.reqSem hportal).trans rfl
  have hdone (r' : Nat) : x'.doneSem r' = if r' = r then sem else x.doneSem r' := by
    unfold doneSem
    grind
  have hclient (t' : Nat) :
      x'.client t' = if t' = t then .called r x.state.calls else x.client t' :=
    Function.update_apply _ _ _ _
  have hhandle {t' r' n' : Nat} (hh : (x'.client t').handle = some (r', n')) :
      t' = t ∧ r' = r ∧ n' = x.state.calls ∨ t' ≠ t ∧ (x.client t').handle = some (r', n') := by
    grind [ClientPhase.handle]
  have hold {t' r' n' : Nat} (hh : (x.client t').handle = some (r', n')) :
      t' ≠ t ∧ r' ≠ r ∧ n' < x.state.calls ∧ x.doneSem r' ≠ sem := by
    have hc := h.calls t' r' n' hh
    obtain ⟨⟨hr, -⟩, ⟨-, hd⟩, -⟩ := hq.frame h.sems h.portal hc hc.sem.2
    refine ⟨?_, hr, hc.fresh.1, hd⟩
    rintro rfl
    rw [hph] at hh
    exact nomatch hh
  have hQ : x.reqSem K ∈ x.state.sems.head := h.portal
  constructor
  case sems => exact hq.ok
  case byId => exact hlookup.1.trans h.byId
  case byTid => exact hlookup.2.trans h.byTid
  case portal => exact hreqSem ▸ (hq.head _ (h.sems.live _ hQ).2).mpr hQ
  case credit =>
    have hcredit := h.credit
    have hvalue : x'.value (x.reqSem K) = x.value (x.reqSem K) + 1 := hq.portal
    grind
  case own => exact hreqSem ▸ fun t' ht' => h.own t' (hq.waiters_portal t' ht')
  case nodup => grind [h.nodup, h.queued]
  case calls =>
    intro t' r' n' hh
    rcases hhandle hh with ⟨rfl, rfl, rfl⟩ | ⟨htt, hh⟩
    · have hrQ : r' ≠ x.reqSem K := fun heq => hq.req.2.1 (heq ▸ (h.sems.live _ hQ).2)
      have hsQ : sem ≠ x.reqSem K := fun heq => hq.sem.2.1 (heq ▸ (h.sems.live _ hQ).2)
      have hnone : x.response x.state.calls = none := by
        refine List.lookup_eq_none_iff.mpr fun e he => bne_iff_ne.mpr ?_
        exact Nat.ne_of_gt (h.logs.replied.2 e he)
      have hwaiters : x'.waiters r' = [] ∧ x'.waiters sem = [] :=
        ⟨(hq.waiters _ hrQ).trans (h.sems.idle _ hq.req.2.1),
          (hq.waiters _ hsQ).trans (h.sems.idle _ hq.sem.2.1)⟩
      have hdone' : x'.doneSem r' = sem := hsem
      rw [hclient, if_pos rfl]
      refine ⟨⟨hq.req.1, hq.req.2.2.1, hq.req.2.2.2, hwaiters.1⟩, hserial, ?_, ?_, ?_,
        List.mem_cons_self, ⟨Nat.lt_succ_self _, fun hin => ?_⟩,
        Or.inl ⟨hreqs ▸ List.mem_cons_self, fun hin => ?_, hnone, fun hs => ?_⟩⟩
      · exact hdone'.symm ▸ ⟨hq.sem.2.2.1, hreqSem.symm ▸ hsQ⟩
      · rw [hdone', hwaiters.2]
        exact fun t ht => nomatch ht
      · rw [hdone', show x'.response _ = none from hnone]
        exact hq.sem.2.2.2
      · exact Nat.lt_irrefl _ (h.logs.cleaned _ hin)
      · exact Nat.lt_irrefl _ (h.logs.handed.2 _ hin)
      · grind [h.serving]
    · rw [hclient, if_neg htt]
      have hc := h.calls t' r' n' hh
      have hr := (hold hh).2.1
      obtain ⟨-, -, h₁, h₂, h₃⟩ := hq.frame h.sems hQ hc hc.sem.2
      refine hc.frame ⟨h₁, hothers hr, h₂, h₃, hreqSem, ?_, Iff.rfl, rfl, Iff.rfl,
        List.subset_cons_self _ _, Nat.le_succ _, hc.fresh.2⟩
      grind
  case answered =>
    intro t' r' n' hh
    rw [hclient] at hh
    split_ifs at hh
    exact h.answered t' r' n' hh
  case apart => grind [h.apart]
  case queued =>
    have hqueued := h.queued
    grind [ClientPhase.handle]
  case serving => grind [h.serving]
  case server => grind [h.server]
  case logs =>
    obtain ⟨hmade, hhanded, hreplied, hresults, hcleaned⟩ := h.logs
    have hcalls : x'.state.calls = x.state.calls + 1 := rfl
    constructor
    case results =>
      exact fun e he => ⟨List.mem_cons_of_mem _ (hresults e he).1, (hresults e he).2⟩
    all_goals grind

theorem exec_call (env : ShmEnv) (va size : Nat) (hrun : x.state.sched.run = some t)
    (hret : (x.state.call env K.id size).1 = 0) (hr : (x.state.call env K.id size).2.2.1 = r) :
    let s := (x.state.call env K.id size).2.2.2
    exec K x (.call env va size) = { x with
      state := s
      client := Function.update x.client t (.called r (s.req r).serial)
      made := ((s.req r).serial, t) :: x.made } := by
  intro s
  have hexec : portalExec env x.state ⟨2, 0, K.id, va, size, 0, 0, 0⟩ =
      ((x.state.call env K.id size).1,
        ⟨2, 0, K.id, va, size, if (x.state.call env K.id size).1 = 0 then
          (x.state.call env K.id size).2.2.1 else 0,
          (x.state.call env K.id size).2.1.getD 0, 0⟩, s) := rfl
  unfold exec
  simp only [hexec, hret, if_true, hr, setPhase, hrun, Option.getD_some]

theorem Ok.call (h : x.Ok K) (env : ShmEnv) (va size : Nat) (hrun : x.state.sched.run = some t)
    (hne : t ≠ K.tid) (hph : x.client t = .idle)
    (hid : ∀ a ∈ x.state.sems.head, (x.state.sems.sem a).id ≠ x.state.sems.nextId) :
    (exec K x (.call env va size)).Ok K := by
  rcases call_cases env size h.byId with ⟨hret, sems, hun, hstate⟩ |
    ⟨r, sem, kheap, sems, hr, hnew, hlive, hcr, hret, hreq, hstate⟩
  · have hexec : exec K x (.call env va size) = { x with state := x.state.withSems sems } := by
      rw [← hstate]
      exact if_neg hret
    rw [hexec]
    exact h.unmade hun
  have hq := queued_signal h.sems h.portal hr hnew hlive hcr hid
  have hexec := exec_call (K := K) env va size hrun hret hreq
  rw [hstate] at hexec
  rw [hexec]
  exact h.queue env size hne hph hq

/-! ## Every step -/

theorem Fits.loops {op : RpcOp} (h : x.Fits K op) : x.Loops K op := by
  cases op with
  | waitReply =>
    obtain ⟨t, r, n, hrun, hph, -⟩ := h
    exact ⟨t, r, n, hrun, hph⟩
  | wait => exact ⟨h.1, h.2.1⟩
  | call env va size => exact h
  | getResult => exact h
  | cleanup env => exact h
  | getReq => exact h
  | reply ret => exact h
  | timer => trivial

/-- Every step keeps the invariant, if it is one of a thread that is in no wait queue. -/
theorem Ok.exec (h : x.Ok K) {op : RpcOp} (hloops : x.Loops K op)
    (hfree : op ≠ .timer → x.state.sched.Unqueued) (hfresh : x.FreshId op) :
    (Rpc.exec K x op).Ok K := by
  cases op with
  | call env va size =>
    obtain ⟨t, hrun, hne, hph⟩ := hloops
    exact h.call env va size hrun hne hph hfresh
  | waitReply =>
    obtain ⟨t, r, n, hrun, hph⟩ := hloops
    exact h.waitReply hrun (hfree nofun t hrun) hph
  | getResult =>
    obtain ⟨t, r, n, hrun, hph⟩ := hloops
    exact h.getResult hrun (hfree nofun t hrun) hph
  | cleanup env =>
    obtain ⟨t, r, n, hrun, hph⟩ := hloops
    exact h.cleanup env hrun (hfree nofun t hrun) hph
  | wait => exact h.wait hloops.1 (hfree nofun _ hloops.1) hloops.2
  | getReq => exact h.getReq hloops.1 (hfree nofun _ hloops.1) hloops.2
  | reply ret =>
    obtain ⟨-, r, n, hserving⟩ := hloops
    exact h.reply ret hserving
  | timer =>
    exact h.withSched x.state.sched.sameWaits_scheduleIfNeeded fun _ ht =>
      Sched.schedule_run h.sems.run ht

end Rpc

end Ukernel.Ipc
