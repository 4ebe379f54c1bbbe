import Ukernel.Ipc.PortalRuns

/-!
# The wakeups of a server

A server of a portal parks until there is a request: `PORTAL_CTRL_WAIT` takes one from the semaphore
of the portal, and each call adds one. Here the server and its clients run among threads that block
and unblock each other at will, and the server may be the only one that can run.

## Why a wakeup can be lost

`PORTAL_CTRL_WAIT` may return although nobody has called. `wait_queue_sleep_locked` has linked the
server and `thread_block` has made it pending, but if no other thread is ready the scheduler goes on
with it; and `thread_unblock` and `proc_unblock` make a parked thread ready without a look at the
queue it is linked in. The server then finds no request, and waits again. The value of the semaphore
has been lowered twice for one request: the wakeup of the next call is spent on the first wait, and
the second one puts the server to sleep with the request in its list.

It is going on from a wait without a wakeup that does the harm. As long as no command comes from a
thread that is still linked in a wait queue, threads may be blocked and unblocked in any order.

## Main definitions

* `WakeOp`: the steps of remote calls, and what other threads do to the scheduler
* `WakeOp.Awaited`: whoever makes a command is in no wait queue
* `Rpc.ServerParked`: the server is parked at its portal

## Main results

* `Rpc.Ok.wake`: one step
* `portal_wakeups_kept`: in every run, a server that is parked has no requests
-/

namespace Ukernel.Ipc

open Kernel Lib Machine Mm Sync

/-- A step of a remote call, or of the scheduler. -/
inductive WakeOp where
  | rpc (op : RpcOp)
  | threadBlock (t : Nat)
  | threadUnblock (t : Nat)
  | procBlock (pid : Nat)
  | procUnblock (pid : Nat)

namespace Rpc

/-- Replace the threads. -/
def withSched (x : Rpc) (sched : Sched) : Rpc :=
  { x with state := x.state.withSems (x.state.sems.withSched sched) }

/-- The server waits for requests: it is linked, it does not run, and it is not ready. -/
def ServerParked (K : Service) (x : Rpc) : Prop :=
  K.tid ∈ x.state.sched.waiters (x.state.portal K.addr).reqSem ∧
    x.state.sched.run ≠ some K.tid ∧ (x.state.sched.thread K.tid).state ≠ .ready

instance (K : Service) (x : Rpc) : Decidable (x.ServerParked K) :=
  inferInstanceAs (Decidable (_ ∧ _ ∧ _))

end Rpc

namespace WakeOp

/-- A step. -/
def exec (K : Service) (x : Rpc) : WakeOp → Rpc
  | .rpc op => x.exec K op
  | .threadBlock t => x.withSched (x.state.sched.threadBlock t)
  | .threadUnblock t => x.withSched (x.state.sched.threadUnblock t)
  | .procBlock pid => x.withSched (x.state.sched.procBlock pid)
  | .procUnblock pid => x.withSched (x.state.sched.procUnblock pid)

/-- Clients and the server keep to their loops. -/
def Loops (K : Service) (x : Rpc) : WakeOp → Prop
  | .rpc op => x.Loops K op
  | _ => True

/-- A command comes from a thread that is in no wait queue, and a call gets a semaphore with an
unused identifier. -/
def Awaited (x : Rpc) : WakeOp → Prop
  | .rpc op => (op ≠ .timer → x.state.sched.Unqueued) ∧ x.FreshId op
  | _ => True

end WakeOp

/-- All runs. -/
def wakeSystem (K : Service) : System Rpc WakeOp := ⟨WakeOp.exec K, fun x op => op.Loops K x⟩

/-- The runs in which nobody goes on without a wakeup. -/
def awaitedSystem (K : Service) : System Rpc WakeOp :=
  ⟨WakeOp.exec K, fun x op => op.Loops K x ∧ op.Awaited x⟩

namespace Rpc

variable {K : Service} {x : Rpc}

/-- The value of its semaphore says that a server that is linked has no requests. -/
theorem Ok.reqs_eq_nil (h : x.Ok K) (hin : K.tid ∈ x.waiters (x.reqSem K)) : x.reqs K = [] := by
  have hcount := h.sems.count _ h.portal
  have hcredit := h.credit
  have hpos : 0 < (x.state.sems.sched.waiters (x.reqSem K)).length := List.length_pos_of_mem hin
  unfold value at hcredit
  -- somebody waits, so the value is below 0, and it is at most 1 below the number of requests
  refine List.length_eq_zero_iff.mp ?_
  split_ifs at hcredit
  · omega
  · omega

/-- Every step keeps the invariant. -/
theorem Ok.wake (h : x.Ok K) {op : WakeOp} (hloops : op.Loops K x) (hawaited : op.Awaited x) :
    (op.exec K x).Ok K := by
  cases op with
  | rpc op => exact h.exec hloops hawaited.1 hawaited.2
  | threadBlock t =>
    exact h.withSched (x.state.sched.sameWaits_threadBlock t) fun _ ht =>
      Sched.threadBlock_run h.sems.run ht
  | threadUnblock t =>
    refine h.withSched (x.state.sched.sameWaits_threadUnblock t) fun u hu => h.sems.run u ?_
    exact (x.state.sched.threadUnblock_run t).symm.trans hu
  | procBlock pid => exact h.withSched (x.state.sched.sameWaits_setStates pid _) h.sems.run
  | procUnblock pid => exact h.withSched (x.state.sched.sameWaits_setStates pid _) h.sems.run

end Rpc

/-! ## Runs -/

/-- In every state of every run in which nobody goes on without a wakeup, a server that is parked
has no requests. -/
theorem portal_wakeups_kept (K : Service) (x : Rpc) (ops : List WakeOp) (hs : Rpc.Start K x)
    (hops : (awaitedSystem K).Legal x ops) :
    let y := (awaitedSystem K).run x ops
    y.ServerParked K → (y.state.portal K.addr).reqs = [] := by
  intro y hparked
  have h : y.Ok K := (awaitedSystem K).run_invariant
    (fun _ _ h hop => h.wake hop.1 hop.2) hs.ok hops
  exact h.reqs_eq_nil hparked.1

/-- The server parks and is unblocked, a client calls, and the server goes on with its loop. -/
def unblockedOps : List WakeOp :=
  [.rpc .timer, .rpc .wait, .threadUnblock 1, .rpc (.call .ok 0 0), .rpc .timer, .rpc .getReq,
    .rpc (.reply 42), .rpc .wait]

theorem portal_wakeups_kept_unblocked :
    let y := (awaitedSystem servedPortal).run (Rpc.fresh servedState) unblockedOps
    y.ServerParked servedPortal ∧ (y.state.portal servedPortal.addr).reqs = [] := by
  have hops : (awaitedSystem servedPortal).Legal (Rpc.fresh servedState) unblockedOps := by
    refine ⟨⟨trivial, fun h => absurd rfl h, trivial⟩, ⟨⟨rfl, rfl⟩, fun _ => by decide, trivial⟩,
      ⟨trivial, trivial⟩, ⟨⟨2, rfl, by decide, rfl⟩, fun _ => by decide, fun a ha => ?_⟩,
      ⟨trivial, fun h => absurd rfl h, trivial⟩, ⟨⟨rfl, rfl⟩, fun _ => by decide, trivial⟩,
      ⟨⟨rfl, 48, 0, rfl⟩, fun _ => by decide, trivial⟩, ⟨⟨rfl, rfl⟩, fun _ => by decide, trivial⟩,
      trivial⟩
    rw [List.mem_singleton.mp ha]
    exact (by decide : (0 : Nat) ≠ 1)
  have hparked : Rpc.ServerParked servedPortal
      ((awaitedSystem servedPortal).run (Rpc.fresh servedState) unblockedOps) := by
    decide
  exact ⟨hparked, portal_wakeups_kept servedPortal _ unblockedOps (servedWith_start _ _ _ _) hops
    hparked⟩

/-- The server waits while nobody else can run, and goes on. -/
def aloneOps : List WakeOp :=
  [.rpc .timer, .threadBlock 2, .rpc .wait, .rpc .getReq, .threadUnblock 2, .rpc .timer,
    .rpc (.call .ok 0 0), .rpc .timer, .rpc .wait]

/-- The server waits, somebody makes it ready, and it goes on. -/
def readiedOps (op : WakeOp) : List WakeOp :=
  [.rpc .timer, .rpc .wait, op, .rpc .timer, .rpc .getReq, .rpc .timer, .rpc (.call .ok 0 0),
    .rpc .timer, .rpc .wait]

/-- In all three cases the server ends up parked with a request in its list. -/
theorem portal_wakeup_lost :
    Rpc.Start servedPortal (Rpc.fresh servedState) ∧
      ∀ ops ∈ [aloneOps, readiedOps (.threadUnblock 1), readiedOps (.procUnblock 1)],
        (wakeSystem servedPortal).Legal (Rpc.fresh servedState) ops ∧
          let y := (wakeSystem servedPortal).run (Rpc.fresh servedState) ops
          y.ServerParked servedPortal ∧ (y.state.portal servedPortal.addr).reqs = [48] := by
  refine ⟨servedWith_start _ _ _ _, fun ops hops => ?_⟩
  simp only [List.mem_cons, List.not_mem_nil, or_false] at hops
  rcases hops with rfl | rfl | rfl
  · exact ⟨⟨trivial, trivial, ⟨rfl, rfl⟩, ⟨rfl, rfl⟩, trivial, trivial, ⟨2, rfl, by decide, rfl⟩,
      trivial, ⟨rfl, rfl⟩, trivial⟩, by decide, by decide⟩
  · exact ⟨⟨trivial, ⟨rfl, rfl⟩, trivial, trivial, ⟨rfl, rfl⟩, trivial, ⟨2, rfl, by decide, rfl⟩,
      trivial, ⟨rfl, rfl⟩, trivial⟩, by decide, by decide⟩
  · exact ⟨⟨trivial, ⟨rfl, rfl⟩, trivial, trivial, ⟨rfl, rfl⟩, trivial, ⟨2, rfl, by decide, rfl⟩,
      trivial, ⟨rfl, rfl⟩, trivial⟩, by decide, by decide⟩

end Ukernel.Ipc
