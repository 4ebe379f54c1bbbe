import Ukernel.Ipc.PortalRpc

/-!
# Runs of remote calls

From a portal that serves nobody yet, whatever its clients and its server do in whatever order:
clients get the replies to their own requests. This takes identifiers of semaphores that are not in
use when a call is made.

## Why the identifiers matter

A call tells the server through the identifier of the portal's semaphore. The counter behind the
identifiers has 32 bits, so that after 2 ^ 32 semaphores the one of a new request may get the
identifier of the portal's. It is in front of the list, and the call then signals the semaphore that
its own client is about to wait at. `portal_rpc_id_reused` is such a run; all it takes is a thread
that makes a portal and destroys it, over and over.

## Main definitions

* `servedState`, `servedWith`: a portal with a server and a client
* `recycle`: a portal that comes and goes

## Main results

* `Rpc.Ok.parked`: threads that wait do not run
* `portal_rpc_replies`
* `recycle_iterate`: the counter can have any value
-/

namespace Ukernel.Ipc

open Kernel Lib Machine Mm Sync

namespace Rpc

variable {K : Service} {x : Rpc} {t r n : Nat}

theorem Start.ok (h : Start K x) : x.Ok K := by
  have hreqs : x.reqs K = [] := h.reqs
  have hvalue : x.value (x.reqSem K) = 0 := h.value
  have hclient (t : Nat) : x.client t = .idle := by rw [h.client]
  have hhandle {t r n : Nat} (hh : (x.client t).handle = some (r, n)) : False := by
    rw [hclient] at hh
    exact nomatch hh
  refine ⟨h.sems.steady, h.byId, h.byTid, h.reqSem, ?_, fun t ht => ?_, ?_, fun t r n hh => ?_,
    fun t r n hh => ?_, fun t _ r n _ _ hh => ?_, fun r hr => ?_, fun r n hs => ?_, hclient _, ?_⟩
  · rw [hvalue, hreqs, h.server]
    rfl
  · -- nobody waits at a semaphore that is not below 0
    have hcount := h.sems.count _ h.reqSem
    rw [h.value] at hcount
    rw [show x.waiters (x.reqSem K) = [] from List.length_eq_zero_iff.mp hcount] at ht
    exact nomatch ht
  · rw [hreqs]
    exact List.nodup_nil
  · exact (hhandle hh).elim
  · exact nomatch (hclient t).symm.trans hh
  · exact (hhandle hh).elim
  · rw [hreqs] at hr
    exact nomatch hr
  · exact nomatch h.server.symm.trans hs
  · constructor <;> simp [h.made, h.handed, h.replied, h.results, h.cleaned]

/-! ## Threads that wait do not run -/

theorem cleanup_sched (s : PortalState) (env : ShmEnv) (r : Nat) :
    (s.cleanup env r).2.sched = s.sched := by
  unfold PortalState.cleanup
  split_ifs
  · rfl
  · dsimp only
    -- the request may leave a list, the semaphore may go, and the threads stay
    split_ifs
    · exact SemState.destroy_sched _ _
    · exact SemState.destroy_sched _ _
    · rfl
    · rfl

theorem Ok.parked_call (h : x.Ok K) (hp : x.state.sched.Parked) (env : ShmEnv) (va size : Nat)
    (hrun : x.state.sched.run = some t) :
    (Rpc.exec K x (.call env va size)).state.sched.Parked := by
  rcases call_cases env size h.byId with ⟨hret, sems, hun, hstate⟩ |
    ⟨r, sem, kheap, sems, hr, hnew, hlive, hcr, hret, hreq, hstate⟩
  · have hexec : Rpc.exec K x (.call env va size) = { x with state := x.state.withSems sems } := by
      rw [← hstate]
      exact if_neg hret
    rw [hexec]
    change sems.sched.Parked
    rw [hun.sched]
    exact hp
  · have hsched := hcr.sched_eq (h.sems.kmalloc hnew hlive).toCounts
    have hexec := exec_call (K := K) env va size hrun hret hreq
    rw [hexec, hstate]
    refine SemState.signal_parked ?_ _
    rw [hsched]
    exact hp

/-- Nobody is woken or put to sleep behind the back of the scheduler. -/
theorem Ok.parked (h : x.Ok K) (hp : x.state.sched.Parked) {op : RpcOp} (hfits : x.Fits K op) :
    (Rpc.exec K x op).state.sched.Parked := by
  have hhead {a id : Nat} (hget : x.state.sems.get id = some a) : a ≠ 0 :=
    (h.sems.live a (SemState.get_mem hget)).1
  cases op with
  | call env va size =>
    obtain ⟨t, hrun, -⟩ := hfits
    exact h.parked_call hp env va size hrun
  | waitReply =>
    obtain ⟨t, r, n, hrun, hph, hrel⟩ := hfits
    rw [exec_waitReply hrun hph]
    unfold PortalState.waitReply
    split_ifs
    · exact hp
    · exact SemState.wait_parked hp hrun fun a hget hv => ⟨hhead hget, hrel ⟨a, hget, hv⟩⟩
  | getResult =>
    obtain ⟨t, r, n, hrun, hph⟩ := hfits
    have hhandle : (x.client t).handle = some (r, n) := by rw [hph]; rfl
    rw [exec_getResult hrun hph (h.calls t r n hhandle).live.1]
    exact hp
  | cleanup env =>
    obtain ⟨t, r, n, hrun, hph⟩ := hfits
    rw [exec_cleanup env hrun hph]
    rw [cleanup_sched]
    exact hp
  | wait =>
    obtain ⟨hrun, -, hrel⟩ := hfits
    change x.state.wait.2.sched.Parked
    unfold PortalState.wait
    rw [Ok.threadGetTid hrun, h.byTid]
    exact SemState.wait_parked hp hrun fun a hget hv => ⟨hhead hget, hrel ⟨a, hget, hv⟩⟩
  | getReq =>
    obtain ⟨hrun, hwaited⟩ := hfits
    have hfree := hp.unqueued _ hrun
    obtain ⟨r, rest, hreqs⟩ := List.exists_cons_of_ne_nil (h.reqs_ne_nil hfree hwaited)
    obtain ⟨t, n, hhandle⟩ := h.queued r (hreqs ▸ List.mem_cons_self)
    rw [exec_getReq h hrun hreqs (h.calls t r n hhandle).live.1]
    exact hp
  | reply ret =>
    obtain ⟨-, r, n, hserving⟩ := hfits
    rw [exec_reply ret hserving]
    unfold PortalState.reply
    split_ifs
    · exact hp
    · exact SemState.signal_parked hp _
  | timer => exact hp.schedule

/-! ## Whole runs -/

theorem Ok.run (hs : Start K x) {ops : List RpcOp} (hops : (freshSystem K).Legal x ops) :
    ((freshSystem K).run x ops).Ok K := by
  have hinv : ((freshSystem K).run x ops).Ok K ∧ ((freshSystem K).run x ops).state.sched.Parked :=
    System.run_invariant (M := freshSystem K) (I := fun x => x.Ok K ∧ x.state.sched.Parked)
      (fun _ _ h hop => ⟨h.1.exec hop.1.loops (fun _ => h.2.unqueued) hop.2, h.1.parked h.2 hop.1⟩)
      ⟨hs.ok, hs.sems.parked⟩ hops
  exact hinv.1

/-- The requests of clients are live, and each is the one it is meant to be. -/
theorem Ok.handle (h : x.Ok K) (hh : (x.client t).handle = some (r, n)) :
    n ∉ x.cleaned ∧ r ∈ x.state.sems.kheap.live ∧ (x.state.req r).serial = n := by
  have hc := h.calls t r n hh
  exact ⟨hc.fresh.2, hc.live.2.1, hc.serial⟩

theorem Ok.mem_phase (h : x.Ok K) {e : Nat × Nat} (he : e ∈ x.phase.handle.toList) :
    e.2 ∉ x.cleaned ∧ e.1 ∈ x.state.sems.kheap.live ∧ (x.state.req e.1).serial = e.2 := by
  unfold phase at he
  cases hrun : x.state.sched.run with
  | none =>
    rw [hrun] at he
    exact nomatch he
  | some t =>
    rw [hrun] at he
    exact h.handle (Option.mem_toList.mp he)

theorem Ok.mem_reqs (h : x.Ok K) {e : Nat × Nat}
    (he : e ∈ (x.state.portal K.addr).reqs.map fun r => (r, (x.state.req r).serial)) :
    e.2 ∉ x.cleaned ∧ e.1 ∈ x.state.sems.kheap.live ∧ (x.state.req e.1).serial = e.2 := by
  obtain ⟨r, hr, rfl⟩ := List.mem_map.mp he
  obtain ⟨t, n, hh⟩ := h.queued r hr
  obtain ⟨h₁, h₂, h₃⟩ := h.handle hh
  exact ⟨h₃.symm ▸ h₁, h₂, rfl⟩

theorem Ok.uses (h : x.Ok K) (op : RpcOp) {e : Nat × Nat} (he : e ∈ x.uses K op) :
    e.2 ∉ x.cleaned ∧ e.1 ∈ x.state.sems.kheap.live ∧ (x.state.req e.1).serial = e.2 := by
  cases op with
  | call env va size => exact h.mem_reqs he
  | waitReply => exact h.mem_phase he
  | getResult => exact h.mem_phase he
  | cleanup env => exact (List.mem_append.mp he).elim h.mem_phase h.mem_reqs
  | wait => exact nomatch he
  | getReq => exact h.mem_reqs he
  | reply ret => grind [Rpc.uses, h.serving, h.handle]
  | timer => exact nomatch he

end Rpc

/-! ## A server and a client -/

/-- A heap that hands out two blocks over and over, after two that stay in use. -/
def recycledOffer (n : Nat) : Nat :=
  if n = 0 then 16 else if n = 1 then 32 else if n % 2 = 0 then 48 else 64

/-- Two threads and no portal; thread 1 runs. -/
def unservedState : PortalState where
  sems := ⟨⟨recycledOffer, 0, []⟩, fun _ => false, [], fun _ => ⟨0, 0, 0⟩, 0,
    ⟨[1, 2], fun t => ⟨t, .ready, false, 0, 0⟩, some 1, fun _ => []⟩⟩
  portals := []
  portal := fun _ => ⟨0, 0, 0, [], 0⟩
  nextId := 2
  req := fun _ => ⟨0, 0, 0, 0, false, 0, 0, 0⟩
  calls := 0

/-- A command about a portal. -/
def portalConfig (cmd serverId : Nat) : PortalCtrlConfig := ⟨cmd, 0, serverId, 0, 0, 0, 0, 0⟩

/-- Thread 1 serves portal 7, and thread 2 runs. -/
def servedState : PortalState :=
  let s := (portalExec .ok unservedState (portalConfig 0 7)).2.2
  s.withSems (s.sems.withSched s.sched.scheduleIfNeeded)

/-- The portal of thread 1. -/
def servedPortal : Service := ⟨16, 7, 1⟩

/-- Thread 2 makes portal 5 and destroys it. -/
def recycle (s : PortalState) : PortalState :=
  (portalExec .ok (portalExec .ok s (portalConfig 0 5)).2.2 (portalConfig 1 5)).2.2

/-- Nobody is in a loop. -/
def Rpc.fresh (s : PortalState) : Rpc := ⟨s, fun _ => .idle, .idle, [], [], [], [], []⟩

/-- Portal 7 with other values of the counters and of what is no longer in use. -/
def servedWith (sem : Nat → Semaphore) (portal : Nat → Portal) (calls nextId : Nat) :
    PortalState where
  sems := ⟨⟨recycledOffer, calls, [32, 16]⟩, Function.update (fun _ => false) 0 true, [32],
    Function.update sem 32 ⟨0, 0, 0⟩, nextId, servedState.sched⟩
  portals := [16]
  portal := Function.update portal 16 ⟨7, 1, 1, [], 32⟩
  nextId := 8
  req := fun _ => ⟨0, 0, 0, 0, false, 0, 0, 0⟩
  calls := 0

theorem servedWith_start (sem : Nat → Semaphore) (portal : Nat → Portal) (calls nextId : Nat) :
    Rpc.Start servedPortal (Rpc.fresh (servedWith sem portal calls nextId)) where
  sems := by
    have hwaiters (wq : Nat) : servedState.sched.waiters wq = [] := by
      change Function.update (fun _ => []) 32 [] wq = []
      by_cases hwq : wq = 32 <;> simp [hwq]
    have hthread (t : Nat) : servedState.sched.thread t = ⟨t, .ready, false, 0, 0⟩ := by
      change Function.update (fun t => (⟨t, .ready, false, 0, 0⟩ : Thread)) 2
        ⟨2, .ready, false, 0, 0⟩ t = _
      by_cases ht : t = 2 <;> simp [ht]
    refine ⟨⟨⟨⟨?_, ?_, hwaiters 0⟩, ?_⟩, ?_⟩, List.nodup_singleton _, ?_, ?_, ?_, ?_, ?_⟩
    · intro wq t ht
      exact nomatch hwaiters wq ▸ ht
    · intro wq
      exact (hwaiters wq).symm ▸ List.nodup_nil
    · intro t _ hne
      exact absurd (congrArg Thread.waitingOn (hthread t)) hne
    · intro t ht
      cases ht
      exact ⟨List.mem_cons_of_mem _ List.mem_cons_self, rfl, rfl, rfl⟩
    · intro a ha b hb _
      exact (List.mem_singleton.mp ha).trans (List.mem_singleton.mp hb).symm
    · intro a ha
      rw [List.mem_singleton.mp ha]
      exact ⟨by decide, List.mem_cons_self⟩
    · exact (by decide : [32, 16].Nodup)
    · intro a ha
      rw [List.mem_singleton.mp ha]
      rfl
    · exact fun a _ => hwaiters a
  byId := rfl
  byTid := rfl
  reqs := rfl
  reqSem := List.mem_cons_self
  value := rfl
  client := rfl
  server := rfl
  made := rfl
  handed := rfl
  replied := rfl
  results := rfl
  cleaned := rfl

/-- Another thread could run while thread 2 does. -/
theorem relieved_of_ready {s : Sched} (horder : s.order = [1, 2]) (hrun : s.run = some 2)
    (hready : (s.thread 1).state = .ready) : s.Relieved := by
  intro current hc
  cases hrun.symm.trans hc
  refine ⟨1, ?_, by decide, hready⟩
  simp [Sched.candidates, horder]

/-- In every run in which semaphores get unused identifiers, no request is handed to the server
twice, every request has one client and at most one reply, every result of a client is the reply to
its own request, and no step uses a request that has been cleaned up. -/
theorem portal_rpc_replies (K : Service) (x : Rpc) (ops : List RpcOp) (hs : Rpc.Start K x)
    (hops : (freshSystem K).Legal x ops) :
    let y := (freshSystem K).run x ops
    y.handed.Nodup ∧ (y.made.map Prod.fst).Nodup ∧ (y.replied.map Prod.fst).Nodup ∧
      (∀ e ∈ y.results, (e.2.1, e.1) ∈ y.made ∧ (e.2.1, e.2.2) ∈ y.replied) ∧
      ∀ op, (freshSystem K).enabled y op → ∀ e ∈ y.uses K op,
        e.2 ∉ y.cleaned ∧ e.1 ∈ y.state.sems.kheap.live ∧ (y.state.req e.1).serial = e.2 := by
  intro y
  have h : y.Ok K := Rpc.Ok.run hs hops
  refine ⟨h.logs.handed.1, h.logs.made.1, h.logs.replied.1, fun e he => ?_,
    fun op _ e he => h.uses op he⟩
  obtain ⟨hmade, hresp⟩ := h.logs.results e he
  obtain ⟨l₁, l₂, hreplied, -⟩ := List.lookup_eq_some_iff.mp hresp
  exact ⟨hmade, hreplied ▸ List.mem_append_right _ List.mem_cons_self⟩

/-- Thread 2 calls, thread 1 answers 42, and thread 2 takes the result and cleans up. -/
def roundOps : List RpcOp :=
  [.call .ok 0 0, .waitReply, .wait, .getReq, .reply 42, .timer, .getResult, .cleanup .ok]

theorem portal_rpc_replies_round :
    let y := (freshSystem servedPortal).run (Rpc.fresh servedState) roundOps
    y.results = [(2, 0, 42)] ∧ y.handed.Nodup ∧ (y.made.map Prod.fst).Nodup ∧
      (y.replied.map Prod.fst).Nodup ∧
      (∀ e ∈ y.results, (e.2.1, e.1) ∈ y.made ∧ (e.2.1, e.2.2) ∈ y.replied) ∧
      ∀ op, (freshSystem servedPortal).enabled y op → ∀ e ∈ y.uses servedPortal op,
        e.2 ∉ y.cleaned ∧ e.1 ∈ y.state.sems.kheap.live ∧ (y.state.req e.1).serial = e.2 := by
  refine ⟨by rfl, portal_rpc_replies servedPortal _ roundOps (servedWith_start _ _ _ _)
    ⟨⟨⟨2, rfl, by decide, rfl⟩, fun a ha => ?_⟩,
      ⟨⟨2, 48, 0, rfl, rfl, fun _ => relieved_of_ready rfl rfl rfl⟩, trivial⟩,
      ⟨⟨rfl, rfl, fun hsleeps => ?_⟩, trivial⟩, ⟨⟨rfl, rfl⟩, trivial⟩,
      ⟨⟨rfl, 48, 0, rfl⟩, trivial⟩, ⟨trivial, trivial⟩, ⟨⟨2, 48, 0, rfl, rfl⟩, trivial⟩,
      ⟨⟨2, 48, 0, rfl, rfl⟩, trivial⟩, trivial⟩⟩
  · rw [List.mem_singleton.mp ha]
    exact (by decide : (0 : Nat) ≠ 1)
  · -- the call has been counted, so the server does not sleep
    obtain ⟨a, ha, hvalue⟩ := hsleeps
    have h32 : a = 32 := (Option.some.inj ha).symm
    rw [h32] at hvalue
    exact absurd hvalue (by decide)

/-! ## Identifiers that come again -/

theorem recycledOffer_even {n : Nat} (h : 2 ≤ n) (hn : n % 2 = 0) :
    recycledOffer n = 48 ∧ recycledOffer (n + 1) = 64 := by
  have h₀ : n ≠ 0 := by omega
  have h₁ : n ≠ 1 := by omega
  have h₂ : (n + 1) % 2 ≠ 0 := by omega
  simp [recycledOffer, h₀, h₁, hn, h₂]

/-- The semaphores after a block has been allocated. -/
def firstBlock (s : SemState) : SemState :=
  { s with kheap := ⟨s.kheap.offer, s.kheap.calls + 1, 48 :: s.kheap.live⟩ }

/-- The semaphores after a block and a semaphore have been allocated. -/
def secondBlock (s : SemState) : SemState :=
  ⟨⟨s.kheap.offer, s.kheap.calls + 2, 64 :: 48 :: s.kheap.live⟩, Function.update s.locks 1 true,
    64 :: s.head, Function.update s.sem 64 ⟨s.nextId, 0, 1⟩, (s.nextId + 1) % 2 ^ 32,
    s.sched.setWaiters 64 []⟩

section

variable (sem : Nat → Semaphore) (portal : Nat → Portal) {calls : Nat} (nextId : Nat)
  (h : 2 ≤ calls) (hcalls : calls % 2 = 0)

include h hcalls

theorem servedWith_alloc :
    let s := servedWith sem portal calls nextId
    s.kmalloc = (48, s.withSems (firstBlock s.sems)) ∧
      (firstBlock s.sems).create 0 = (64, secondBlock s.sems) := by
  obtain ⟨h48, h64⟩ := recycledOffer_even h hcalls
  intro s
  constructor
  · simp [PortalState.kmalloc, Pool.alloc, firstBlock, s, servedWith, h48]
  · simp only [SemState.create, Pool.alloc, firstBlock, s, servedWith, h64]
    rfl

/-- A portal that comes and goes only moves the counters. -/
theorem recycle_servedWith : ∃ sem' portal', recycle (servedWith sem portal calls nextId) =
    servedWith sem' portal' (calls + 2) ((nextId + 1) % 2 ^ 32) := by
  obtain ⟨hk, hcr⟩ := servedWith_alloc sem portal nextId h hcalls
  set s := servedWith sem portal calls nextId with hs
  have hinit : (portalExec .ok s (portalConfig 0 5)).2.2 =
      { s with
        sems := secondBlock s.sems
        portals := [48, 16]
        portal := Function.update s.portal 48 ⟨5, 2, 2, [], 64⟩ } := by
    change (s.init 5).2.2 = _
    unfold PortalState.init
    rw [hk]
    dsimp only [PortalState.withSems]
    rw [hcr]
    rfl
  have hlocks : Function.update (secondBlock s.sems).locks 1 false = s.sems.locks := by
    change Function.update (Function.update s.sems.locks 1 true) 1 false = _
    rw [Function.update_idem]
    exact Function.update_eq_self 1 s.sems.locks
  have hsched : (secondBlock s.sems).sched = servedState.sched := Sched.setWaiters_nil rfl
  have hsem := Function.update_comm (show (32 : Nat) ≠ 64 by decide) (⟨0, 0, 0⟩ : Semaphore)
    ⟨nextId, 0, 1⟩ sem
  have hportal := Function.update_comm (show (16 : Nat) ≠ 48 by decide)
    (⟨7, 1, 1, [], 32⟩ : Portal) ⟨5, 2, 2, [], 64⟩ portal
  refine ⟨Function.update sem 64 ⟨nextId, 0, 1⟩, Function.update portal 48 ⟨5, 2, 2, [], 64⟩, ?_⟩
  unfold recycle
  rw [hinit]
  change PortalState.mk ⟨_, Function.update (secondBlock s.sems).locks 1 false, _,
    Function.update (Function.update sem 32 ⟨0, 0, 0⟩) 64 ⟨nextId, 0, 1⟩, _,
    (secondBlock s.sems).sched⟩ _
    (Function.update (Function.update portal 16 ⟨7, 1, 1, [], 32⟩) 48 ⟨5, 2, 2, [], 64⟩) _ _ _ = _
  rw [hlocks, hsched, hsem, hportal]
  rfl

/-- A call of thread 2. -/
theorem call_servedWith :
    let s := servedWith sem portal calls nextId
    s.call .ok 7 0 = (0, some 0, 48, (Rpc.queueReq s .ok 16 0 48 64 (secondBlock s.sems)).withSems
      ((secondBlock s.sems).signal 0).2) := by
  intro s
  have hk : s.kmalloc = (48, s.withSems (firstBlock s.sems)) :=
    (servedWith_alloc sem portal nextId h hcalls).1
  have hcr : (s.withSems (firstBlock s.sems)).sems.create 0 = (64, secondBlock s.sems) :=
    (servedWith_alloc sem portal nextId h hcalls).2
  unfold PortalState.call
  simp only [hk, hcr]
  rfl

end

theorem recycle_iterate (sem : Nat → Semaphore) (portal : Nat → Portal) (calls : Nat)
    (h : 2 ≤ calls) (hcalls : calls % 2 = 0) (nextId n : Nat) :
    ∃ sem' portal', recycle^[n] (servedWith sem portal calls (nextId % 2 ^ 32)) =
      servedWith sem' portal' (calls + 2 * n) ((nextId + n) % 2 ^ 32) := by
  induction n generalizing sem portal calls nextId with
  | zero => exact ⟨sem, portal, rfl⟩
  | succ n ih =>
    obtain ⟨sem₁, portal₁, h₁⟩ := recycle_servedWith sem portal (nextId % 2 ^ 32) h hcalls
    obtain ⟨sem₂, portal₂, h₂⟩ :=
      ih sem₁ portal₁ (calls + 2) (by omega) (by omega) (nextId + 1)
    refine ⟨sem₂, portal₂, ?_⟩
    rw [Function.iterate_succ_apply, h₁, Nat.mod_add_mod, h₂,
      show calls + 2 + 2 * n = calls + 2 * (n + 1) by omega,
      show nextId + 1 + n = nextId + (n + 1) by omega]

/-- The semaphore of a request gets the identifier of the one of its portal: portal 5 has come and
gone so often that the counter is where it was. The wakeup that is meant for the server then reaches
the client, whose result is 0 while the server has not even been handed the request. -/
theorem portal_rpc_id_reused :
    let x := Rpc.fresh (recycle^[2 ^ 32 - 1] servedState)
    let ops := [.call .ok 0 0, .waitReply, .getResult]
    let y := (rpcSystem servedPortal).run x ops
    Rpc.Start servedPortal x ∧ (rpcSystem servedPortal).Legal x ops ∧
      y.results = [(2, 0, 0)] ∧ y.handed = [] ∧ y.replied = [] := by
  obtain ⟨sem, portal, hwrap⟩ := recycle_iterate (fun _ => ⟨0, 0, 0⟩) (fun _ => ⟨0, 0, 0, [], 0⟩)
    2 (Nat.le_refl 2) rfl 1 (2 ^ 32 - 1)
  have hstate : recycle^[2 ^ 32 - 1] servedState = servedWith sem portal (2 + 2 * (2 ^ 32 - 1)) 0 :=
    hwrap
  have hcalls : 2 ≤ 2 + 2 * (2 ^ 32 - 1) := by omega
  have hcall := call_servedWith sem portal 0 hcalls (by omega)
  rw [hstate]
  set x := Rpc.fresh (servedWith sem portal (2 + 2 * (2 ^ 32 - 1)) 0) with hx
  have hcalled := Rpc.exec_call (K := servedPortal) (x := x) (t := 2) (r := 48) .ok 0 0 rfl
    (congrArg Prod.fst hcall) (congrArg (fun p => p.2.2.1) hcall)
  have hfirst : (rpcSystem servedPortal).exec x (.call .ok 0 0) = { x with
      state := (Rpc.queueReq x.state .ok 16 0 48 64 (secondBlock x.state.sems)).withSems
        ((secondBlock x.state.sems).signal 0).2
      client := Function.update x.client 2 (.called 48 0)
      made := [(0, 2)] } := by
    refine hcalled.trans ?_
    rw [show x.state.call .ok servedPortal.id 0 = _ from hcall]
    rfl
  dsimp only
  rw [System.legal_cons, System.run_cons, hfirst]
  exact ⟨servedWith_start _ _ _ _, ⟨⟨2, rfl, by decide, rfl⟩,
    ⟨2, 48, 0, rfl, rfl, fun _ => relieved_of_ready rfl rfl rfl⟩, ⟨2, 48, 0, rfl, rfl⟩, trivial⟩,
    rfl, rfl, rfl⟩

end Ukernel.Ipc
