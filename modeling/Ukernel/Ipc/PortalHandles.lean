import Ukernel.Ipc.PortalIds
import Ukernel.Ipc.PortalRuns

/-!
# The handles of requests

A request is handed out twice: its client gets the address from `PORTAL_CTRL_CALL`, and the server
gets the same address from `PORTAL_CTRL_GET_REQ`. Nobody counts the two. `PORTAL_CTRL_CLEANUP` frees
the block, and so does `PORTAL_CTRL_DESTROY` for the requests that are still queued. Any thread may
issue any command here, in any order, with the handles it has been given.

## Why a handle can outlive its request

`PORTAL_CTRL_DESTROY` refuses if somebody is parked at a queued request. A client that has called
and has not come to its wait yet is parked nowhere, so its request goes, and the client waits at it
afterwards. And a client may clean up while the server has the request in hand.

So a handle is good for a client until it has cleaned up itself, for a server until it has replied;
nobody cleans up what a server has in hand; and a portal goes only when no request is queued, or
stays because somebody is parked. `HandleOp.Minded` says this, and nothing about the block that the
handle points to.

## Main definitions

* `Handle`, `HandleState`: the portals, with the handles that threads have been given
* `HandleOp`, `HandleState.exec`: any command, between arbitrary changes to the threads
* `HandleOp.Minded`: handles are used while they are good
* `HandleState.Owned`: the invariant, of which the heart is that all blocks are distinct

## Main results

* `HandleState.Owned.step`: one command
* `portal_handles_live`: in every run, no command touches a request that has been freed
-/

namespace Ukernel.Ipc

open Kernel Lib Machine Mm Sync

/-- A request in the hands of a thread: its address, and its number among all requests. -/
structure Handle where
  tid : Nat
  req : Nat
  serial : Nat
  deriving DecidableEq

/-- Portals and, for the record, the handles that have been given out, those of clients that have
not cleaned up, those of servers that have not replied, and the requests that have been freed. -/
structure HandleState where
  state : PortalState
  returned : List Handle
  calls : List Handle
  serving : List Handle
  freed : List Nat

/-- A command of the running thread, about the request with a number if it takes a handle; between
two commands the threads may do anything. -/
inductive HandleOp where
  | command (env : ShmEnv) (cfg : PortalCtrlConfig) (serial : Nat)
  | threads (sched : Sched)

/-- The command takes a handle. -/
def UsesHandle (cfg : PortalCtrlConfig) : Prop :=
  PortalCtrlCmd.decode cfg.cmd ∈ [some .waitReply, some .getResult, some .cleanup, some .reply]

instance (cfg : PortalCtrlConfig) : Decidable (UsesHandle cfg) :=
  inferInstanceAs (Decidable (_ ∈ _))

namespace HandleState

/-- The handle that a command of the running thread is about. -/
def used (x : HandleState) (cfg : PortalCtrlConfig) (serial : Nat) : Handle :=
  ⟨x.state.sched.run.getD 0, cfg.req, serial⟩

/-- The handle that a command gives out. -/
def given (x : HandleState) (env : ShmEnv) (cfg : PortalCtrlConfig) : List Handle :=
  let (ret, out, s) := portalExec env x.state cfg
  if ret = 0 ∧ out.req ≠ 0 then [⟨x.state.sched.run.getD 0, out.req, (s.req out.req).serial⟩]
  else []

/-- The requests that go with a portal. -/
def dropped (x : HandleState) (env : ShmEnv) (cfg : PortalCtrlConfig) : List Nat :=
  if (portalExec env x.state cfg).1 = 0 then
    (x.state.portalGetById cfg.serverId).toList.flatMap fun p =>
      (x.state.portal p).reqs.map fun r => (x.state.req r).serial
  else []

/-- A step. -/
def exec (x : HandleState) : HandleOp → HandleState
  | .threads sched => { x with state := x.state.withSems (x.state.sems.withSched sched) }
  | .command env cfg n =>
    let x' := { x with state := (portalExec env x.state cfg).2.2 }
    match PortalCtrlCmd.decode cfg.cmd with
    | some .call =>
      { x' with returned := x.given env cfg ++ x.returned, calls := x.given env cfg ++ x.calls }
    | some .getReq =>
      { x' with returned := x.given env cfg ++ x.returned, serving := x.given env cfg ++ x.serving }
    | some .cleanup =>
      if cfg.req = 0 then x'
      else
        { x' with
          calls := x.calls.erase (x.used cfg n)
          freed := (x.state.req cfg.req).serial :: x.freed }
    | some .reply => { x' with serving := x.serving.erase (x.used cfg n) }
    | some .destroy => { x' with freed := x.dropped env cfg ++ x.freed }
    | _ => x'

/-- The requests that are queued somewhere. -/
def queues (x : HandleState) : List Nat := x.state.portals.flatMap fun p => (x.state.portal p).reqs

/-- The requests that a command may read or write, each with the number it is meant to have: the one
it is about, and those that are queued. -/
def uses (x : HandleState) : HandleOp → List (Nat × Nat)
  | .command _ cfg n => (if UsesHandle cfg ∧ cfg.req ≠ 0 then [(cfg.req, n)] else []) ++
      x.queues.map fun r => (r, (x.state.req r).serial)
  | .threads _ => []

/-- No portal has been made, and no request. -/
structure Start (x : HandleState) : Prop where
  portals : x.state.portals = []
  returned : x.returned = []
  calls : x.calls = []
  serving : x.serving = []
  freed : x.freed = []

end HandleState

namespace HandleOp

/-- A thread issues the command, with a handle that it has been given. -/
def Given (x : HandleState) : HandleOp → Prop
  | .command _ cfg n => x.state.sched.run ≠ none ∧
      (UsesHandle cfg → cfg.req = 0 ∨ x.used cfg n ∈ x.returned)
  | .threads _ => True

/-- Clients use their handles until they clean up, and servers until they reply; nobody cleans up
what a server has in hand; a portal goes when no request is queued, or somebody is parked there. -/
def Minded (x : HandleState) : HandleOp → Prop
  | .command _ cfg n =>
    (UsesHandle cfg → cfg.req = 0 ∨ x.used cfg n ∈ x.calls ∨ x.used cfg n ∈ x.serving) ∧
      (PortalCtrlCmd.decode cfg.cmd = some .cleanup → cfg.req = 0 ∨ x.used cfg n ∈ x.calls ∧
        ∀ h ∈ x.serving, h.serial ≠ n) ∧
      (PortalCtrlCmd.decode cfg.cmd = some .destroy →
        ∀ p ∈ x.state.portalGetById cfg.serverId, (x.state.portal p).reqs = [] ∨ x.state.busy p)
  | .threads _ => True

instance (x : HandleState) : (op : HandleOp) → Decidable (op.Given x)
  | .command _ cfg n => inferInstanceAs (Decidable (x.state.sched.run ≠ none ∧
      (UsesHandle cfg → cfg.req = 0 ∨ x.used cfg n ∈ x.returned)))
  | .threads _ => .isTrue trivial

instance (x : HandleState) : (op : HandleOp) → Decidable (op.Minded x)
  | .command _ cfg n => inferInstanceAs (Decidable (
      (UsesHandle cfg → cfg.req = 0 ∨ x.used cfg n ∈ x.calls ∨ x.used cfg n ∈ x.serving) ∧
        (PortalCtrlCmd.decode cfg.cmd = some .cleanup → cfg.req = 0 ∨ x.used cfg n ∈ x.calls ∧
          ∀ h ∈ x.serving, h.serial ≠ n) ∧
        (PortalCtrlCmd.decode cfg.cmd = some .destroy →
          ∀ p ∈ x.state.portalGetById cfg.serverId, (x.state.portal p).reqs = [] ∨ x.state.busy p)))
  | .threads _ => .isTrue trivial

end HandleOp

/-- All runs in which threads use handles that they have been given. -/
def handleSystem : System HandleState HandleOp := ⟨HandleState.exec, fun x op => op.Given x⟩

/-- The runs in which handles are used while they are good. -/
def mindedSystem : System HandleState HandleOp :=
  ⟨HandleState.exec, fun x op => op.Given x ∧ op.Minded x⟩

instance (x : HandleState) (op : HandleOp) : Decidable (handleSystem.enabled x op) :=
  inferInstanceAs (Decidable (op.Given x))

instance (x : HandleState) (op : HandleOp) : Decidable (mindedSystem.enabled x op) :=
  inferInstanceAs (Decidable (op.Given x ∧ op.Minded x))

namespace HandleState

variable {x x' : HandleState} {env : ShmEnv} {cfg : PortalCtrlConfig} {n : Nat}

/-! ## The invariant -/

/-- The blocks of requests and portals, with their semaphores. -/
def blocks (x : HandleState) : List Nat :=
  x.calls.flatMap (fun h => [h.req, (x.state.req h.req).doneSem]) ++ x.state.blocks

/-- Every block has one purpose, and the requests that are not freed are those of clients that have
not cleaned up: what servers have in hand and what is queued is among them. -/
structure Owned (x : HandleState) : Prop where
  blocks : x.state.sems.kheap.Held x.blocks
  serial : ∀ h ∈ x.calls, (x.state.req h.req).serial = h.serial ∧ h.serial < x.state.calls ∧
    h.serial ∉ x.freed
  apart : ∀ c ∈ x.calls, ∀ d ∈ x.calls, c.serial = d.serial → c.req = d.req
  serving : ∀ h ∈ x.serving, (x.state.req h.req).dequeued = true ∧
    ∃ h' ∈ x.calls, h'.req = h.req ∧ h'.serial = h.serial
  nodup : x.queues.Nodup
  queued : ∀ r ∈ x.queues, (x.state.req r).dequeued = false ∧ ∃ h ∈ x.calls, h.req = r
  freed : ∀ k ∈ x.freed, k < x.state.calls

theorem mem_blocks_of_call {h : Handle} (hh : h ∈ x.calls) : h.req ∈ x.blocks :=
  List.mem_append_left _ (List.mem_flatMap.mpr ⟨h, hh, List.mem_cons_self⟩)

/-- The request of a client is in use, and is the one it is meant to be. -/
theorem Owned.call (h : x.Owned) {c : Handle} (hc : c ∈ x.calls) :
    c.serial ∉ x.freed ∧ c.req ∈ x.state.sems.kheap.live ∧
      (x.state.req c.req).serial = c.serial := by
  obtain ⟨hserial, -, hfreed⟩ := h.serial c hc
  exact ⟨hfreed, h.blocks.live (mem_blocks_of_call hc), hserial⟩

/-- Whatever a command touches is in use. -/
theorem Owned.uses (h : x.Owned) {op : HandleOp} (hop : op.Minded x) {e : Nat × Nat}
    (he : e ∈ x.uses op) : e.2 ∉ x.freed ∧ e.1 ∈ x.state.sems.kheap.live ∧
      (x.state.req e.1).serial = e.2 := by
  cases op with
  | threads sched => exact nomatch he
  | command env cfg n =>
    rcases List.mem_append.mp he with he | he
    · split_ifs at he with huses
      · cases List.mem_singleton.mp he
        rcases (hop.1 huses.1).resolve_left huses.2 with hcall | hserving
        · exact h.call hcall
        · obtain ⟨-, c, hc, hreq, hserial⟩ := h.serving _ hserving
          have hlive := h.call hc
          rw [hreq, hserial] at hlive
          exact hlive
      · exact nomatch he
    · obtain ⟨r, hr, rfl⟩ := List.mem_map.mp he
      obtain ⟨-, c, hc, rfl⟩ := h.queued r hr
      obtain ⟨hfreed, hlive, hserial⟩ := h.call hc
      exact ⟨hserial.symm ▸ hfreed, hlive, rfl⟩

theorem Start.owned (h : x.Start) : x.Owned := by
  have hblocks : x.blocks = [] := by
    unfold HandleState.blocks PortalState.blocks
    rw [h.calls, h.portals]
    rfl
  have hqueues : x.queues = [] := by
    unfold queues
    rw [h.portals]
    rfl
  constructor
  · rw [hblocks]
    exact ⟨List.nodup_nil, List.nil_subset _⟩
  · rw [h.calls]
    exact fun c hc => nomatch hc
  · rw [h.calls]
    exact fun c hc => nomatch hc
  · rw [h.serving]
    exact fun c hc => nomatch hc
  · rw [hqueues]
    exact List.nodup_nil
  · rw [hqueues]
    exact fun r hr => nomatch hr
  · rw [h.freed]
    exact fun k hk => nomatch hk

/-! ## Commands that leave requests and portals alone -/

/-- What the invariant reads is as before, and nothing has been freed. -/
structure Same (s s' : PortalState) : Prop where
  portals : s'.portals = s.portals
  portal : s'.portal = s.portal
  req : ∀ r, (s'.req r).serial = (s.req r).serial ∧ (s'.req r).dequeued = (s.req r).dequeued ∧
    (s'.req r).doneSem = (s.req r).doneSem
  calls : s'.calls = s.calls
  live : s.sems.kheap.live ⊆ s'.sems.kheap.live

theorem Same.refl (s : PortalState) : Same s s :=
  ⟨rfl, rfl, fun _ => ⟨rfl, rfl, rfl⟩, rfl, List.Subset.refl _⟩

theorem Same.withSems (s : PortalState) {sems : SemState} (h : sems.kheap = s.sems.kheap) :
    Same s (s.withSems sems) :=
  ⟨rfl, rfl, fun _ => ⟨rfl, rfl, rfl⟩, rfl, fun _ ha => h.symm ▸ ha⟩

/-- A server may put requests down meanwhile. -/
theorem Owned.same (h : x.Owned) {s : PortalState} (hs : Same x.state s) {serving : List Handle}
    {returned : List Handle} (hserving : serving ⊆ x.serving) :
    Owned ⟨s, returned, x.calls, serving, x.freed⟩ := by
  have hqueues : queues ⟨s, returned, x.calls, serving, x.freed⟩ = x.queues := by
    unfold queues
    rw [hs.portals, hs.portal]
  have hblocks : HandleState.blocks ⟨s, returned, x.calls, serving, x.freed⟩ = x.blocks := by
    unfold HandleState.blocks PortalState.blocks
    rw [hs.portals, hs.portal]
    simp only [hs.req]
  constructor
  · rw [hblocks]
    exact h.blocks.mono hs.live
  · grind [hs.req, hs.calls, h.serial]
  · exact h.apart
  · intro c hc
    rw [(hs.req c.req).2.1]
    exact h.serving c (hserving hc)
  · rw [hqueues]
    exact h.nodup
  · rw [hqueues]
    intro r hr
    rw [(hs.req r).2.1]
    exact h.queued r hr
  · rw [hs.calls]
    exact h.freed

theorem same_waitReply (s : PortalState) (r : Nat) : Same s (s.waitReply r).2 := by
  unfold PortalState.waitReply
  split_ifs
  · exact .refl s
  · exact .withSems s (SemState.wait_kheap _ _)

theorem same_wait (s : PortalState) : Same s s.wait.2 := by
  unfold PortalState.wait
  split
  · exact .refl s
  · exact .withSems s (SemState.wait_kheap _ _)

theorem same_reply (s : PortalState) (r : Nat) (ret : Int) : Same s (s.reply r ret).2 := by
  unfold PortalState.reply
  split_ifs
  · exact .refl s
  · refine ⟨rfl, rfl, fun r' => ?_, rfl, ?_⟩
    · change (Function.update s.req r { s.req r with ret } r').serial = _ ∧
        (Function.update s.req r { s.req r with ret } r').dequeued = _ ∧
        (Function.update s.req r { s.req r with ret } r').doneSem = _
      by_cases hr : r' = r
      · rw [hr, Function.update_self]
        exact ⟨rfl, rfl, rfl⟩
      · rw [Function.update_of_ne hr]
        exact ⟨rfl, rfl, rfl⟩
    · dsimp only [PortalState.withSems]
      rw [SemState.signal_kheap]
      exact List.Subset.refl _

theorem same_getResult (hcmd : PortalCtrlCmd.decode cfg.cmd = some .getResult)
    (s : PortalState) : Same s (portalExec env s cfg).2.2 := by
  unfold portalExec
  rw [hcmd]
  dsimp only
  split <;> exact .refl s

/-! ## A call -/

/-- A portal keeps its semaphore when its list changes. -/
theorem blocks_setReqs (s : PortalState) (p : Nat) (reqs : List Nat) :
    (s.setPortal p { s.portal p with reqs }).blocks = s.blocks := by
  have hsem (q : Nat) :
      ((s.setPortal p { s.portal p with reqs }).portal q).reqSem = (s.portal q).reqSem := by
    unfold PortalState.setPortal
    by_cases hq : q = p <;> simp [Function.update, hq]
  unfold PortalState.blocks
  simp only [hsem]
  rfl

theorem Owned.portals_nodup (h : x.Owned) : x.state.portals.Nodup :=
  (List.nodup_append.mp (List.nodup_append.mp h.blocks.nodup).2.1).1

/-- A request is queued at a portal. -/
theorem queues_queueReq (h : x.Owned) {p r size sem : Nat} {sems sems' : SemState}
    {returned calls serving : List Handle} {freed : List Nat} (hp : p ∈ x.state.portals) :
    (queues ⟨(Rpc.queueReq x.state env p size r sem sems).withSems sems', returned, calls, serving,
      freed⟩).Perm (r :: x.queues) := by
  refine perm_flatMap_of_change [r] h.portals_nodup hp ?_ fun q _ hq => ?_
  · exact List.Perm.of_eq (congrArg Portal.reqs (Function.update_self p _ x.state.portal))
  · exact congrArg Portal.reqs (Function.update_of_ne hq _ x.state.portal)

/-- The client gets the handle of a new request. -/
theorem Owned.queue (h : x.Owned) {p r size sem tid : Nat} {kheap : Pool} {sems sems' : SemState}
    (hp : p ∈ x.state.portals) (hnew : r ∉ x.state.sems.kheap.live)
    (hlive : kheap.live = r :: x.state.sems.kheap.live)
    (hcr : SemState.Created { x.state.sems with kheap } sem 0 sems)
    (hkheap : sems'.kheap = sems.kheap) {returned : List Handle} :
    Owned ⟨(Rpc.queueReq x.state env p size r sem sems).withSems sems', returned,
      ⟨tid, r, x.state.calls⟩ :: x.calls, x.serving, x.freed⟩ := by
  set s := (Rpc.queueReq x.state env p size r sem sems).withSems sems' with hs
  have hself : (s.req r).serial = x.state.calls ∧ (s.req r).dequeued = false ∧
      (s.req r).doneSem = sem := by
    have hreq : s.req r = _ := Function.update_self r _ x.state.req
    rw [hreq]
    exact ⟨rfl, rfl, rfl⟩
  have hothers {r' : Nat} (hr : r' ≠ r) : s.req r' = x.state.req r' := Function.update_of_ne hr _ _
  have hold {c : Handle} (hc : c ∈ x.calls) : c.req ≠ r := fun heq =>
    hnew (heq ▸ h.blocks.live (mem_blocks_of_call hc))
  have hqueues : (queues ⟨s, returned, ⟨tid, r, x.state.calls⟩ :: x.calls, x.serving,
      x.freed⟩).Perm (r :: x.queues) := queues_queueReq h hp
  have hnot : r ∉ x.queues := fun hin => by
    obtain ⟨-, c, hc, heq⟩ := h.queued r hin
    exact hold hc heq
  constructor
  · -- the request and its semaphore are new
    have hrest : x.calls.flatMap (fun c => [c.req, (s.req c.req).doneSem]) =
        x.calls.flatMap fun c => [c.req, (x.state.req c.req).doneSem] :=
      List.flatMap_congr fun c hc => by rw [hothers (hold hc)]
    have hportals : s.blocks = x.state.blocks := blocks_setReqs x.state p _
    refine h.blocks.grow hnew (hlive ▸ hcr.fresh.2) ?_ ?_ (b := sem)
    · change _ ⊆ sems'.kheap.live
      rw [hkheap, hcr.kheap]
      exact fun a ha => (congrArg (List.cons sem) hlive).symm ▸ ha
    · grind [HandleState.blocks]
  · intro c hc
    rcases List.mem_cons.mp hc with rfl | hc
    · exact ⟨hself.1, Nat.lt_succ_self _, fun hin => Nat.lt_irrefl _ (h.freed _ hin)⟩
    · obtain ⟨h₁, h₂, h₃⟩ := h.serial c hc
      rw [hothers (hold hc)]
      exact ⟨h₁, Nat.lt_succ_of_lt h₂, h₃⟩
  · intro c hc d hd heq
    rcases List.mem_cons.mp hc with rfl | hc <;> rcases List.mem_cons.mp hd with rfl | hd
    · rfl
    · exact absurd heq (Nat.ne_of_gt (h.serial d hd).2.1)
    · exact absurd heq (Nat.ne_of_lt (h.serial c hc).2.1)
    · exact h.apart c hc d hd heq
  · intro c hc
    obtain ⟨hdeq, c', hc', hreq, hserial⟩ := h.serving c hc
    rw [hothers (hreq ▸ hold hc')]
    exact ⟨hdeq, c', List.mem_cons_of_mem _ hc', hreq, hserial⟩
  · exact hqueues.nodup_iff.mpr (List.nodup_cons.mpr ⟨hnot, h.nodup⟩)
  · grind [List.mem_cons_self, h.queued]
  · exact fun k hk => Nat.lt_succ_of_lt (h.freed k hk)

/-- `PORTAL_CTRL_CALL`. -/
theorem Owned.callStep (h : x.Owned) (hcmd : PortalCtrlCmd.decode cfg.cmd = some .call) :
    (x.exec (.command env cfg n)).Owned := by
  have hexec : portalExec env x.state cfg =
      ((x.state.call env cfg.serverId cfg.vaSize).1,
        { cfg with
          out := (x.state.call env cfg.serverId cfg.vaSize).2.1.getD cfg.out
          req := if (x.state.call env cfg.serverId cfg.vaSize).1 = 0 then
            (x.state.call env cfg.serverId cfg.vaSize).2.2.1 else cfg.req },
        (x.state.call env cfg.serverId cfg.vaSize).2.2.2) := by
    unfold portalExec
    rw [hcmd]
  simp only [exec, hcmd, given, hexec]
  cases hget : x.state.portalGetById cfg.serverId with
  | none =>
    have hcall : x.state.call env cfg.serverId cfg.vaSize = (eNotfound, none, 0, x.state) := by
      unfold PortalState.call
      rw [hget]
    rw [hcall]
    exact h.same (.refl _) (List.Subset.refl _)
  | some p =>
    have hp : p ∈ x.state.portals := List.mem_of_find?_eq_some hget
    rcases Rpc.call_cases env cfg.vaSize hget with ⟨hret, sems, hun, hstate⟩ |
      ⟨r, sem, kheap, sems, hr, hnew, hlive, hcr, hret, hreq, hstate⟩
    · simp only [hret, false_and, if_false, List.nil_append, hstate]
      have hsame : Same x.state (x.state.withSems sems) :=
        ⟨rfl, rfl, fun _ => ⟨rfl, rfl, rfl⟩, rfl, fun a ha => hun.kheap.symm ▸ ha⟩
      exact h.same hsame (List.Subset.refl _)
    · have hserial : ((Rpc.queueReq x.state env p cfg.vaSize r sem sems).withSems
          (sems.signal (sems.sem (x.state.portal p).reqSem).id).2).req r = _ :=
        Function.update_self r _ x.state.req
      simp only [hret, hreq, hr, ne_eq, not_false_eq_true, and_self, if_true, hstate, hserial]
      exact h.queue hp hnew hlive hcr (SemState.signal_kheap _ _)

/-! ## The server takes a request -/

/-- `PORTAL_CTRL_GET_REQ`: nothing is queued, or the first request is taken. -/
theorem getReq_cases (s : PortalState) :
    s.getReq.2.1 = 0 ∧ s.getReq.2.2 = s ∨
      ∃ p ∈ s.portals, ∃ r rest, (s.portal p).reqs = r :: rest ∧
        s.getReq = (0, r, (s.setPortal p { s.portal p with reqs := rest }).setReq r
          { s.req r with dequeued := true }) := by
  unfold PortalState.getReq
  cases hget : s.portalGetByTid s.threadGetTid with
  | none => exact Or.inl ⟨rfl, rfl⟩
  | some p =>
    dsimp only
    cases hreqs : (s.portal p).reqs with
    | nil => exact Or.inl ⟨rfl, rfl⟩
    | cons r rest => exact Or.inr ⟨p, List.mem_of_find?_eq_some hget, r, rest, hreqs, rfl⟩

/-- The server gets the handle of a request that was queued. -/
theorem Owned.take (h : x.Owned) (tid : Nat) {p r : Nat} {rest : List Nat}
    (hp : p ∈ x.state.portals) (hreqs : (x.state.portal p).reqs = r :: rest)
    {returned serving : List Handle}
    (hserving : ∀ c ∈ serving, c ∈ x.serving ∨ c = ⟨tid, r, (x.state.req r).serial⟩) :
    Owned ⟨(x.state.setPortal p { x.state.portal p with reqs := rest }).setReq r
      { x.state.req r with dequeued := true }, returned, x.calls, serving, x.freed⟩ := by
  set s := (x.state.setPortal p { x.state.portal p with reqs := rest }).setReq r
    { x.state.req r with dequeued := true } with hs
  have hself : s.req r = { x.state.req r with dequeued := true } := Function.update_self _ _ _
  have hothers {r' : Nat} (hr : r' ≠ r) : s.req r' = x.state.req r' := Function.update_of_ne hr _ _
  have hreq (r' : Nat) : (s.req r').serial = (x.state.req r').serial ∧
      (s.req r').doneSem = (x.state.req r').doneSem := by grind
  have hqueues : x.queues.Perm (r :: queues ⟨s, returned, x.calls, serving, x.freed⟩) := by
    refine perm_flatMap_of_change [r] h.portals_nodup hp ?_ fun q _ hq => ?_
    · have hnow : s.portal p = { x.state.portal p with reqs := rest } := Function.update_self _ _ _
      rw [hnow, hreqs]
      rfl
    · exact (congrArg Portal.reqs (Function.update_of_ne hq _ x.state.portal)).symm
  have hin : r ∈ x.queues := hqueues.mem_iff.mpr List.mem_cons_self
  obtain ⟨hnot, hnodup⟩ := List.nodup_cons.mp (hqueues.nodup_iff.mp h.nodup)
  constructor
  · have hblocks : HandleState.blocks ⟨s, returned, x.calls, serving, x.freed⟩ = x.blocks := by
      have hportals : s.blocks = x.state.blocks := blocks_setReqs x.state p _
      unfold HandleState.blocks
      rw [hportals]
      simp only [hreq]
    rw [hblocks]
    exact h.blocks
  · intro c hc
    rw [(hreq c.req).1]
    exact h.serial c hc
  · exact h.apart
  · intro c hc
    rcases hserving c hc with hold | rfl
    · grind [h.serving]
    · obtain ⟨-, c', hc', rfl⟩ := h.queued r hin
      rw [hself]
      exact ⟨rfl, c', hc', rfl, (h.serial c' hc').1.symm⟩
  · exact hnodup
  · grind [h.queued]
  · exact h.freed

/-- The handle that the server gets is the one of the request that has been taken. -/
theorem given_getReq (hcmd : PortalCtrlCmd.decode cfg.cmd = some .getReq) {c : Handle}
    (hc : c ∈ x.given env cfg) : x.state.getReq.2.1 ≠ 0 ∧
      c = ⟨x.state.sched.run.getD 0, x.state.getReq.2.1,
        (x.state.getReq.2.2.req x.state.getReq.2.1).serial⟩ := by
  have hexec : portalExec env x.state cfg =
      if x.state.getReq.1 ≠ 0 then (x.state.getReq.1, cfg, x.state.getReq.2.2)
      else if x.state.getReq.2.1 = 0 then (0, { cfg with req := 0 }, x.state.getReq.2.2)
      else (0, { cfg with
          req := x.state.getReq.2.1
          va := (x.state.getReq.2.2.req x.state.getReq.2.1).shmVa
          vaSize := (x.state.getReq.2.2.req x.state.getReq.2.1).shmSize },
        x.state.getReq.2.2) := by
    unfold portalExec
    rw [hcmd]
  unfold given at hc
  rw [hexec] at hc
  split_ifs at hc with hret hzero
  · simp [hret] at hc
  · simp at hc
  · grind

/-- `PORTAL_CTRL_GET_REQ`. -/
theorem Owned.getReqStep (h : x.Owned) (hcmd : PortalCtrlCmd.decode cfg.cmd = some .getReq) :
    (x.exec (.command env cfg n)).Owned := by
  have hstate : (portalExec env x.state cfg).2.2 = x.state.getReq.2.2 := by
    unfold portalExec
    rw [hcmd]
    dsimp only
    split_ifs <;> rfl
  simp only [exec, hcmd, hstate]
  rcases getReq_cases x.state with ⟨hzero, heq⟩ | ⟨p, hp, r, rest, hreqs, heq⟩
  · have hgiven : x.given env cfg = [] :=
      List.eq_nil_iff_forall_not_mem.mpr fun c hc => (given_getReq hcmd hc).1 hzero
    rw [hgiven, heq]
    exact h.same (.refl _) (List.Subset.refl _)
  · rw [heq]
    refine h.take (x.state.sched.run.getD 0) hp hreqs fun c hc => ?_
    rcases List.mem_append.mp hc with hc | hc
    · refine Or.inr ((given_getReq hcmd hc).2.trans ?_)
      rw [heq]
      simp [PortalState.setReq]
    · exact Or.inl hc

/-! ## A client cleans up -/

/-- A request is freed after it has left its list, and so is its semaphore unless somebody waits
there. -/
structure Cleaned (s : PortalState) (r : Nat) (s' : PortalState) : Prop where
  portals : s'.portals = s.portals
  reqSem : ∀ p, (s'.portal p).reqSem = (s.portal p).reqSem
  reqs : ∀ p, (s'.portal p).reqs =
    if (s.req r).dequeued then (s.portal p).reqs else (s.portal p).reqs.erase r
  req : s'.req = s.req ∧ s'.calls = s.calls
  live : ∀ c ∈ s.sems.kheap.live, c ≠ (s.req r).doneSem → c ≠ r → c ∈ s'.sems.kheap.live

theorem mem_live_destroy {s : SemState} {a c : Nat} (hc : c ∈ s.kheap.live) (hne : c ≠ a) :
    c ∈ (s.destroy a).2.kheap.live := by
  unfold SemState.destroy
  split_ifs
  · exact hc
  · exact hc
  · exact (List.mem_erase_of_ne hne).mpr hc

theorem cleanup_cleaned (s : PortalState) (env : ShmEnv) {r : Nat} (hr : r ≠ 0) :
    Cleaned s r (s.cleanup env r).2 := by
  unfold PortalState.cleanup
  rw [if_neg hr]
  dsimp only
  -- the request leaves its list …
  set s₁ := if (s.req r).dequeued then s else s.unlinkReq r with hs₁
  have hfields : s₁.portals = s.portals ∧ s₁.sems = s.sems ∧ s₁.req = s.req ∧
      s₁.calls = s.calls := by
    rw [hs₁]
    split_ifs <;> exact ⟨rfl, rfl, rfl, rfl⟩
  have hportal (p : Nat) : (s₁.portal p).reqSem = (s.portal p).reqSem ∧ (s₁.portal p).reqs =
      if (s.req r).dequeued then (s.portal p).reqs else (s.portal p).reqs.erase r := by
    rw [hs₁]
    split_ifs <;> exact ⟨rfl, rfl⟩
  obtain ⟨hportals, hsems, hreq, hcalls⟩ := hfields
  -- … and then its semaphore and its block go
  split_ifs with hsem
  · refine ⟨hportals, fun p => (hportal p).1, fun p => (hportal p).2, ⟨hreq, hcalls⟩,
      fun c hc hne hcr => (List.mem_erase_of_ne hcr).mpr (mem_live_destroy ?_ hne)⟩
    rw [hsems]
    exact hc
  · refine ⟨hportals, fun p => (hportal p).1, fun p => (hportal p).2, ⟨hreq, hcalls⟩,
      fun c hc _ hcr => (List.mem_erase_of_ne hcr).mpr ?_⟩
    rw [hsems]
    exact hc

variable (h : x.Owned)

include h

/-- The queues after a request has been cleaned up. -/
theorem Owned.queues_cleaned {r : Nat} {s : PortalState} (hs : Cleaned x.state r s)
    {returned calls serving : List Handle} {freed : List Nat} :
    (queues ⟨s, returned, calls, serving, freed⟩).Sublist x.queues ∧
      r ∉ queues ⟨s, returned, calls, serving, freed⟩ := by
  have hsub (p : Nat) : ((s.portal p).reqs).Sublist (x.state.portal p).reqs := by
    rw [hs.reqs]
    split_ifs
    · exact List.Sublist.refl _
    · exact List.erase_sublist
  unfold queues
  rw [hs.portals]
  refine ⟨List.Sublist.flatMap_right _ fun p _ => hsub p, fun hin => ?_⟩
  obtain ⟨p, hp, hr⟩ := List.mem_flatMap.mp hin
  have hold : r ∈ x.queues := List.mem_flatMap.mpr ⟨p, hp, (hsub p).subset hr⟩
  rw [hs.reqs, (h.queued r hold).1] at hr
  have hnodup : (x.state.portal p).reqs.Nodup := (List.nodup_flatMap.mp h.nodup).1 p hp
  exact hnodup.not_mem_erase hr

/-- A client cleans up a request that no server has in hand. -/
theorem Owned.clean {c : Handle} (hc : c ∈ x.calls) (hnone : ∀ d ∈ x.serving, d.serial ≠ c.serial)
    {s : PortalState} (hs : Cleaned x.state c.req s) :
    Owned ⟨s, x.returned, x.calls.erase c, x.serving, (x.state.req c.req).serial :: x.freed⟩ := by
  obtain ⟨hsub, hgone⟩ : (queues ⟨s, x.returned, x.calls.erase c, x.serving,
      (x.state.req c.req).serial :: x.freed⟩).Sublist x.queues ∧
      c.req ∉ queues ⟨s, x.returned, x.calls.erase c, x.serving,
        (x.state.req c.req).serial :: x.freed⟩ := h.queues_cleaned hs
  have hperm := List.perm_cons_erase hc
  have hblocks : x.blocks.Perm (c.req :: (x.state.req c.req).doneSem ::
      HandleState.blocks ⟨s, x.returned, x.calls.erase c, x.serving,
        (x.state.req c.req).serial :: x.freed⟩) := by
    unfold HandleState.blocks PortalState.blocks
    rw [hs.portals, hs.req.1]
    simp only [hs.reqSem]
    exact (hperm.flatMap_right _).append_right _
  -- what is not freed is what it was, and it is another request
  have hothers {d : Handle} (hd : d ∈ x.calls.erase c) : d ∈ x.calls ∧ d.req ≠ c.req := by
    grind [h.blocks.nodup, mem_blocks_of_call]
  have hserial : (x.state.req c.req).serial = c.serial := (h.serial c hc).1
  constructor
  · exact h.blocks.shrink hblocks hs.live
  · intro d hd
    obtain ⟨hmem, hne⟩ := hothers hd
    obtain ⟨h₁, h₂, h₃⟩ := h.serial d hmem
    rw [hs.req.1, hs.req.2]
    refine ⟨h₁, h₂, fun hin => ?_⟩
    rcases List.mem_cons.mp hin with heq | hin
    · exact hne (h.apart d hmem c hc (heq.trans hserial))
    · exact h₃ hin
  · exact fun d hd e he => h.apart d (hothers hd).1 e (hothers he).1
  · intro d hd
    obtain ⟨hdeq, c', hc', hreq, heq⟩ := h.serving d hd
    rw [hs.req.1]
    refine ⟨hdeq, c', ?_, hreq, heq⟩
    exact (List.mem_erase_of_ne fun h' => hnone d hd (heq.symm.trans (congrArg _ h'))).mpr hc'
  · exact h.nodup.sublist hsub
  · intro r hr
    obtain ⟨hdeq, d, hd, rfl⟩ := h.queued r (hsub.subset hr)
    rw [hs.req.1]
    refine ⟨hdeq, d, (List.mem_erase_of_ne fun h' => hgone ?_).mpr hd, rfl⟩
    rw [← h']
    exact hr
  · intro k hk
    rw [hs.req.2]
    rcases List.mem_cons.mp hk with rfl | hk
    · rw [hserial]
      exact (h.serial c hc).2.1
    · exact h.freed k hk

/-! ## Portals come and go -/

/-- `PORTAL_CTRL_INIT`. -/
theorem Owned.init (serverId : Nat) :
    Owned { x with state := (x.state.init serverId).2.2 } := by
  rcases x.state.init_cases serverId with ⟨-, hf⟩ | ⟨-, -, p, sem, hd⟩
  · refine h.same ⟨hf.portals, hf.portal, fun r => ?_, hf.req.2, ?_⟩ (List.Subset.refl _)
    · rw [hf.req.1]
      exact ⟨rfl, rfl, rfl⟩
    · exact fun a ha => hf.live.symm ▸ ha
  set s := (x.state.init serverId).2.2 with hs
  have hne {q : Nat} (hq : q ∈ x.state.portals) : q ≠ p := fun heq =>
    hd.fresh (heq ▸ h.blocks.live (List.mem_append_right _ (List.mem_append_left _ hq)))
  have hqueues : queues { x with state := s } = x.queues := by
    grind [hd.portals, hd.self, List.flatMap_congr, hd.others, queues]
  constructor
  · -- the portal and its semaphore are new
    refine h.blocks.grow hd.fresh hd.freshSem ?_ ?_
    · exact fun a ha => hd.live.symm ▸ ha
    · have hrest : x.state.portals.map (fun q => (s.portal q).reqSem) =
          x.state.portals.map fun q => (x.state.portal q).reqSem :=
        List.map_congr_left fun q hq => congrArg Portal.reqSem (hd.others q (hne hq))
      unfold HandleState.blocks PortalState.blocks
      rw [hd.portals, List.map_cons, hd.self.2.1, hrest, hd.req.1]
      refine List.perm_iff_count.mpr fun a => ?_
      simp only [List.count_append, List.count_cons]
      omega
  · intro c hc
    rw [hd.req.1, hd.req.2]
    exact h.serial c hc
  · exact h.apart
  · intro c hc
    rw [hd.req.1]
    exact h.serving c hc
  · rw [hqueues]
    exact h.nodup
  · rw [hqueues]
    intro r hr
    rw [hd.req.1]
    exact h.queued r hr
  · rw [hd.req.2]
    exact h.freed

/-- A portal goes that has no requests. -/
theorem Owned.drop {p : Nat} {s : PortalState} (hs : PortalState.Dropped x.state p s)
    (hreqs : (x.state.portal p).reqs = []) : Owned { x with state := s } := by
  have hperm := List.perm_cons_erase hs.mem
  have hqueues : x.queues.Perm (queues { x with state := s }) := by
    grind [hs.portals, hs.portal, queues]
  constructor
  · have hblocks : x.blocks.Perm (p :: (x.state.portal p).reqSem ::
        HandleState.blocks { x with state := s }) := by
      grind [HandleState.blocks, PortalState.blocks, hs.portals, hs.portal, hs.req]
    refine h.blocks.shrink hblocks fun c hc hsem hp => ?_
    rcases hs.live with hlive | hlive <;> rw [hlive]
    · exact (List.mem_erase_of_ne hp).mpr hc
    · grind
  · intro c hc
    rw [hs.req.1, hs.req.2]
    exact h.serial c hc
  · exact h.apart
  · intro c hc
    rw [hs.req.1]
    exact h.serving c hc
  · exact hqueues.nodup_iff.mp h.nodup
  · intro r hr
    rw [hs.req.1]
    exact h.queued r (hqueues.mem_iff.mpr hr)
  · rw [hs.req.2]
    exact h.freed

/-- `PORTAL_CTRL_DESTROY` of a portal where no request is queued, or somebody is parked. -/
theorem Owned.destroyStep (hcmd : PortalCtrlCmd.decode cfg.cmd = some .destroy)
    (hreqs : ∀ p ∈ x.state.portalGetById cfg.serverId,
      (x.state.portal p).reqs = [] ∨ x.state.busy p) :
    (x.exec (.command env cfg n)).Owned := by
  have hexec : portalExec env x.state cfg =
      ((x.state.destroy cfg.serverId).1, cfg, (x.state.destroy cfg.serverId).2) := by
    unfold portalExec
    rw [hcmd]
  simp only [exec, hcmd, dropped, hexec]
  rcases x.state.destroy_cases cfg.serverId hreqs with ⟨hret, heq⟩ | ⟨p, hget, hnil, hd⟩
  · rw [if_neg hret, heq]
    exact h
  · grind [h.drop]

/-! ## Every step -/

/-- `PORTAL_CTRL_CLEANUP` by the client, while no server has the request in hand. -/
theorem Owned.cleanupStep (hcmd : PortalCtrlCmd.decode cfg.cmd = some .cleanup)
    (hgood : cfg.req = 0 ∨ x.used cfg n ∈ x.calls ∧ ∀ d ∈ x.serving, d.serial ≠ n) :
    (x.exec (.command env cfg n)).Owned := by
  have hstate : (portalExec env x.state cfg).2.2 = (x.state.cleanup env cfg.req).2 := by
    unfold portalExec
    rw [hcmd]
  simp only [exec, hcmd, hstate]
  split_ifs with hzero
  · have hsame : (x.state.cleanup env cfg.req).2 = x.state := by
      unfold PortalState.cleanup
      rw [if_pos hzero]
    rw [hsame]
    exact h
  · obtain ⟨hc, hnone⟩ := hgood.resolve_left hzero
    exact h.clean hc hnone (cleanup_cleaned x.state env hzero)

theorem Owned.step {op : HandleOp} (hop : op.Minded x) : (x.exec op).Owned := by
  cases op with
  | threads sched =>
    have hsame : Same x.state (x.state.withSems (x.state.sems.withSched sched)) := .withSems _ rfl
    exact h.same hsame (List.Subset.refl _)
  | command env cfg n =>
    obtain ⟨-, hcleanup, hdestroy⟩ := hop
    have hsame {s : PortalState} (hs : Same x.state s) : Owned { x with state := s } :=
      h.same hs (List.Subset.refl _)
    cases hcmd : PortalCtrlCmd.decode cfg.cmd with
    | none =>
      have hstate : (portalExec env x.state cfg).2.2 = x.state := by
        unfold portalExec
        rw [hcmd]
      simp only [exec, hcmd, hstate]
      exact h
    | some cmd =>
      cases cmd with
      | call => exact h.callStep hcmd
      | getReq => exact h.getReqStep hcmd
      | cleanup => exact h.cleanupStep hcmd (hcleanup hcmd)
      | destroy => exact h.destroyStep hcmd (hdestroy hcmd)
      | init => grind [h.init, portalExec, exec]
      | waitReply => grind [same_waitReply, portalExec, exec]
      | getResult =>
        simp only [exec, hcmd]
        exact hsame (same_getResult hcmd _)
      | wait => grind [same_wait, portalExec, exec]
      | reply => grind [h.same, same_reply, portalExec, exec]

end HandleState

/-! ## Runs -/

/-- In every run in which handles are used while they are good, whatever a command touches has not
been freed: its block is in use, for the request that the handle was given out for. -/
theorem portal_handles_live (x : HandleState) (ops : List HandleOp) (hs : x.Start)
    (hops : mindedSystem.Legal x ops) :
    let y := mindedSystem.run x ops
    ∀ op, mindedSystem.enabled y op → ∀ e ∈ y.uses op,
      e.2 ∉ y.freed ∧ e.1 ∈ y.state.sems.kheap.live ∧ (y.state.req e.1).serial = e.2 := by
  intro y op hop e he
  have h : y.Owned := mindedSystem.run_invariant (fun _ _ h hop => h.step hop.2) hs.owned hops
  exact h.uses hop.2 he

/-- Two threads, of which one runs. -/
def turnOf (t : Nat) : Sched := ⟨[1, 2], fun u => ⟨u, .ready, false, 0, 0⟩, some t, fun _ => []⟩

/-- No portal, and two threads. -/
def handless : HandleState :=
  ⟨portalless.withSems (portalless.sems.withSched (turnOf 1)), [], [], [], []⟩

theorem handless_start : handless.Start := ⟨rfl, rfl, rfl, rfl, rfl⟩

/-- Thread 1 makes portal 7, and thread 2 calls it: its request is the block 48. -/
def calledOps : List HandleOp :=
  [.command .ok (portalConfig 0 7) 0, .threads (turnOf 2), .command .ok (portalConfig 2 7) 0,
    .threads (turnOf 1)]

/-- Thread 1 replies, and thread 2 takes the result. -/
def repliedOps : List HandleOp :=
  calledOps ++ [.command .ok (requestConfig 6 0 0) 0, .command .ok (requestConfig 7 0 0) 0,
    .command .ok (requestConfig 8 48 42) 0, .threads (turnOf 2),
    .command .ok (requestConfig 3 48 0) 0, .command .ok (requestConfig 4 48 0) 0]

/-- Thread 2 may clean up. -/
theorem portal_handles_live_cleanup :
    let y := mindedSystem.run handless repliedOps
    mindedSystem.enabled y (.command .ok (requestConfig 5 48 0) 0) ∧
      (0 ∉ y.freed ∧ 48 ∈ y.state.sems.kheap.live ∧ (y.state.req 48).serial = 0) := by
  have hops : mindedSystem.Legal handless repliedOps := by decide
  have hop : mindedSystem.enabled (mindedSystem.run handless repliedOps)
      (.command .ok (requestConfig 5 48 0) 0) := by decide
  exact ⟨hop, portal_handles_live handless repliedOps handless_start hops _ hop (48, 0) (by decide)⟩

/-- Thread 1 destroys the portal while thread 2 has not come to its wait, and thread 2 waits; or
thread 1 takes the request, thread 2 cleans up, and thread 1 replies. -/
theorem portal_handles_stale :
    handless.Start ∧
      ∀ e ∈ [(calledOps ++ [.command .ok (portalConfig 1 7) 0, .threads (turnOf 2)],
            requestConfig 3 48 0),
          (calledOps ++ [.command .ok (requestConfig 7 0 0) 0, .threads (turnOf 2),
              .command .ok (requestConfig 5 48 0) 0, .threads (turnOf 1)],
            requestConfig 8 48 42)],
        handleSystem.Legal handless (e.1 ++ [.command .ok e.2 0]) ∧
          let y := handleSystem.run handless e.1
          (48, 0) ∈ y.uses (.command .ok e.2 0) ∧ 0 ∈ y.freed ∧ 48 ∉ y.state.sems.kheap.live :=
  ⟨handless_start, by decide⟩

end Ukernel.Ipc
