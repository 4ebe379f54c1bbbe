import Ukernel.Ipc.PortalRuns

/-!
# The order in which a portal serves its requests

A call puts its request in front of the list of the portal, and the server takes the request in
front. With two requests in the list the newer one is served first. (A mailbox, whose senders put
mails in front in the same way, hands them out from the other end.)

## Why the commands need no loops here

The order does not depend on what the callers do between their commands, so that the runs here are
those of arbitrary `portal_exec` commands by whatever thread runs, on a portal that stays. Requests
are told apart by their numbers: the address of a request may come again once it is cleaned up.

## Main definitions

* `Traffic`: portals with the requests that have been posted to one of them and those handed out
* `trafficSystem`: runs of commands that do not take queued requests back
* `calmSystem`: the runs in which a call finds the list of the portal empty

## Main results

* `portal_served_in_order`: in such runs requests are handed out in the order of the calls
* `portal_newest_first`: in others they are not
-/

namespace Ukernel.Ipc

open Kernel Lib Machine Mm Sync

/-- Portals and, for the record, the requests posted to one of them and those handed to its server,
the last one at the end. -/
structure Traffic where
  state : PortalState
  posted : List Nat
  handed : List Nat

/-- A command of the thread that runs, or the timer. -/
inductive TrafficOp where
  | exec (env : ShmEnv) (cfg : PortalCtrlConfig)
  | timer

namespace Traffic

/-- The requests that the portal at `K` has queued. -/
def reqs (K : Nat) (x : Traffic) : List Nat := (x.state.portal K).reqs

/-- What a step does; `K` is the address of the portal that is watched. -/
def exec (K : Nat) (x : Traffic) : TrafficOp → Traffic
  | .exec env cfg =>
    let (ret, out, s) := portalExec env x.state cfg
    match PortalCtrlCmd.decode cfg.cmd with
    | some .call =>
      if ret = 0 then { x with state := s, posted := x.posted ++ [(s.req out.req).serial] }
      else { x with state := s }
    | some .getReq =>
      if x.state.portalGetByTid x.state.threadGetTid = some K ∧ out.req ≠ 0 then
        { x with state := s, handed := x.handed ++ [(s.req out.req).serial] }
      else { x with state := s }
    | _ => { x with state := s }
  | .timer =>
    let sems := x.state.sems.withSched x.state.sched.scheduleIfNeeded
    { x with state := x.state.withSems sems }

/-- Calls are to the portal, which is not destroyed; requests are not cleaned up while they are
queued. -/
def Fits (K : Nat) (x : Traffic) : TrafficOp → Prop
  | .exec _ cfg =>
    match PortalCtrlCmd.decode cfg.cmd with
    | some .init => False
    | some .destroy => False
    | some .call => x.state.portalGetById cfg.serverId = some K
    | some .cleanup => cfg.req ∉ x.reqs K
    | _ => True
  | .timer => True

/-- A call finds no request in the list of the portal. -/
def Calm (K : Nat) (x : Traffic) : TrafficOp → Prop
  | .exec _ cfg => PortalCtrlCmd.decode cfg.cmd = some .call → x.reqs K = []
  | .timer => True

end Traffic

/-- All runs of a portal. -/
def trafficSystem (K : Nat) : System Traffic TrafficOp := ⟨Traffic.exec K, Traffic.Fits K⟩

/-- The runs in which a call finds the list of the portal empty. -/
def calmSystem (K : Nat) : System Traffic TrafficOp :=
  ⟨Traffic.exec K, fun x op => x.Fits K op ∧ x.Calm K op⟩

namespace PortalState

variable {K : Nat} {s s' : PortalState}

/-- The list of a portal and the numbers of the requests stay. -/
structure SameQueue (K : Nat) (s s' : PortalState) : Prop where
  reqs : (s'.portal K).reqs = (s.portal K).reqs
  serial : ∀ r, (s'.req r).serial = (s.req r).serial

theorem sameQueue_withSems (s : PortalState) (sems : SemState) : SameQueue K s (s.withSems sems) :=
  ⟨rfl, fun _ => rfl⟩

theorem sameQueue_waitReply (s : PortalState) (r : Nat) : SameQueue K s (s.waitReply r).2 := by
  unfold waitReply
  split_ifs
  · exact ⟨rfl, fun _ => rfl⟩
  · exact sameQueue_withSems s _

theorem sameQueue_wait (s : PortalState) : SameQueue K s s.wait.2 := by
  unfold wait
  split
  · exact ⟨rfl, fun _ => rfl⟩
  · exact sameQueue_withSems s _

theorem sameQueue_reply (s : PortalState) (r : Nat) (ret : Int) :
    SameQueue K s (s.reply r ret).2 := by
  unfold reply
  split_ifs
  · exact ⟨rfl, fun _ => rfl⟩
  · refine ⟨rfl, fun r' => ?_⟩
    change (Function.update s.req r _ r').serial = _
    by_cases hr : r' = r
    · rw [hr, Function.update_self]
    · rw [Function.update_of_ne hr]

/-- A request that is not queued is cleaned up. -/
theorem sameQueue_cleanup (s : PortalState) (env : ShmEnv) {r : Nat} (hr : r ∉ (s.portal K).reqs) :
    SameQueue K s (s.cleanup env r).2 := by
  have hunlink : SameQueue K s (s.unlinkReq r) := ⟨List.erase_of_not_mem hr, fun _ => rfl⟩
  unfold cleanup
  split_ifs
  · exact ⟨rfl, fun _ => rfl⟩
  · -- what is freed is neither looked up nor read
    dsimp only
    split_ifs
    · exact ⟨rfl, fun _ => rfl⟩
    · exact ⟨hunlink.reqs, hunlink.serial⟩
    · exact ⟨rfl, fun _ => rfl⟩
    · exact ⟨hunlink.reqs, hunlink.serial⟩

/-- The server takes the request in front, if there is one; other callers leave the list alone. -/
theorem getReq_cases (s : PortalState) :
    ((s.portalGetByTid s.threadGetTid = some K → s.getReq.1 = 0 ∧ s.getReq.2.1 = 0) ∧
        SameQueue K s s.getReq.2.2) ∨
      ∃ r rest, s.portalGetByTid s.threadGetTid = some K ∧ (s.portal K).reqs = r :: rest ∧
        s.getReq.1 = 0 ∧ s.getReq.2.1 = r ∧ (s.getReq.2.2.portal K).reqs = rest ∧
        ∀ r', (s.getReq.2.2.req r').serial = (s.req r').serial := by
  unfold getReq
  cases hp : s.portalGetByTid s.threadGetTid with
  | none => exact Or.inl ⟨fun h => (nomatch h), rfl, fun _ => rfl⟩
  | some p =>
    dsimp only
    cases hreqs : (s.portal p).reqs with
    | nil =>
      exact Or.inl ⟨fun _ => ⟨rfl, rfl⟩, rfl, fun _ => rfl⟩
    | cons r rest =>
      -- the request is marked; its number stays
      have hserial (r' : Nat) :
          (Function.update s.req r { s.req r with dequeued := true } r').serial =
            (s.req r').serial := by grind
      by_cases hK : p = K
      · subst hK
        refine Or.inr ⟨r, rest, rfl, hreqs, rfl, rfl, ?_, hserial⟩
        change (Function.update s.portal p _ p).reqs = rest
        rw [Function.update_self]
      · refine Or.inl ⟨fun h => absurd (Option.some.inj h) hK, ?_, hserial⟩
        change (Function.update s.portal p _ K).reqs = _
        rw [Function.update_of_ne (Ne.symm hK)]

end PortalState

/-- What the caller of `PORTAL_CTRL_GET_REQ` sees. -/
theorem portalExec_getReq (env : ShmEnv) (s : PortalState) {cfg : PortalCtrlConfig}
    (hcmd : PortalCtrlCmd.decode cfg.cmd = some .getReq) :
    (portalExec env s cfg).2.2 = s.getReq.2.2 ∧
      (s.getReq.1 = 0 → (portalExec env s cfg).2.1.req = s.getReq.2.1) := by
  unfold portalExec
  rw [hcmd]
  dsimp only
  split_ifs with hret hzero
  · exact ⟨rfl, fun h => absurd h hret⟩
  · exact ⟨rfl, fun _ => hzero.symm⟩
  · exact ⟨rfl, fun _ => rfl⟩

namespace Traffic

variable {K : Nat} {x : Traffic}

/-- The requests posted are those handed out, in order, and then the one that is queued, if any. -/
structure InOrder (K : Nat) (x : Traffic) : Prop where
  posted : x.posted = x.handed ++ (x.reqs K).map fun r => (x.state.req r).serial
  short : (x.reqs K).length ≤ 1
  nonnull : ∀ r ∈ x.reqs K, r ≠ 0

theorem InOrder.of_same (h : x.InOrder K) {s : PortalState} (hs : x.state.SameQueue K s) :
    InOrder K { x with state := s } := by
  have hreqs : reqs K { x with state := s } = x.reqs K := hs.reqs
  refine ⟨?_, hreqs ▸ h.short, hreqs ▸ h.nonnull⟩
  rw [hreqs]
  exact h.posted.trans (congrArg _ (List.map_congr_left fun r _ => (hs.serial r).symm))

/-- A call that finds the list empty. -/
theorem InOrder.call (h : x.InOrder K) (env : ShmEnv) {cfg : PortalCtrlConfig}
    (hcmd : PortalCtrlCmd.decode cfg.cmd = some .call)
    (hid : x.state.portalGetById cfg.serverId = some K) (hempty : x.reqs K = []) :
    (Traffic.exec K x (.exec env cfg)).InOrder K := by
  unfold Traffic.exec portalExec
  dsimp only
  rw [hcmd]
  dsimp only
  rcases Rpc.call_cases env cfg.vaSize hid with ⟨hret, sems, -, hstate⟩ |
    ⟨r, sem, kheap, sems, hr, -, -, -, hret, hreq, hstate⟩
  · rw [if_neg hret, hstate]
    exact h.of_same (PortalState.sameQueue_withSems _ sems)
  · have hposted : x.posted = x.handed := by
      rw [h.posted, hempty, List.map_nil, List.append_nil]
    rw [if_pos hret, if_pos hret, hreq, hstate]
    -- the new request is the only one
    have hreqs : (((Rpc.queueReq x.state env K cfg.vaSize r sem sems).withSems
        (sems.signal (sems.sem (x.state.portal K).reqSem).id).2).portal K).reqs = [r] := by
      change (Function.update x.state.portal K _ K).reqs = [r]
      rw [Function.update_self]
      exact congrArg (List.cons r) hempty
    refine ⟨?_, ?_, ?_⟩
    · dsimp only [reqs]
      rw [hreqs, hposted]
      rfl
    · dsimp only [reqs]
      rw [hreqs]
      exact Nat.le_refl 1
    · grind [reqs]

theorem InOrder.getReq (h : x.InOrder K) (env : ShmEnv) {cfg : PortalCtrlConfig}
    (hcmd : PortalCtrlCmd.decode cfg.cmd = some .getReq) :
    (Traffic.exec K x (.exec env cfg)).InOrder K := by
  obtain ⟨hstate, hout⟩ := portalExec_getReq env x.state hcmd
  unfold Traffic.exec
  dsimp only
  rw [hcmd]
  dsimp only
  rw [hstate]
  rcases x.state.getReq_cases (K := K) with ⟨hnone, hsame⟩ |
    ⟨r, rest, hserver, hreqs, hret, hr, hrest, hserial⟩
  · rw [if_neg]
    · exact h.of_same hsame
    · grind
  · have hreqs' : x.reqs K = r :: rest := hreqs
    have hr₀ : r ≠ 0 := h.nonnull r (hreqs' ▸ List.mem_cons_self)
    have hposted := h.posted
    have hshort := h.short
    rw [hreqs'] at hposted hshort
    -- the request in front is the only one
    have hnil : rest = [] :=
      List.length_eq_zero_iff.mp (Nat.le_zero.mp (Nat.le_of_succ_le_succ hshort))
    subst hnil
    rw [hout hret, hr, if_pos ⟨hserver, hr₀⟩]
    have hempty : (x.state.getReq.2.2.portal K).reqs = [] := hrest
    refine ⟨?_, ?_, ?_⟩
    · grind [reqs]
    · dsimp only [reqs]
      rw [hempty]
      exact Nat.zero_le 1
    · grind [reqs]

theorem InOrder.exec (h : x.InOrder K) {op : TrafficOp} (hfits : x.Fits K op)
    (hcalm : x.Calm K op) : (Traffic.exec K x op).InOrder K := by
  cases op with
  | timer => exact h.of_same (PortalState.sameQueue_withSems _ _)
  | exec env cfg =>
    dsimp only [Fits, Calm] at hfits hcalm
    cases hcmd : PortalCtrlCmd.decode cfg.cmd with
    | none =>
      unfold Traffic.exec portalExec
      dsimp only
      rw [hcmd]
      exact h
    | some cmd =>
      rw [hcmd] at hfits
      cases cmd with
      | init => exact hfits.elim
      | destroy => exact hfits.elim
      | call => exact h.call env hcmd hfits (hcalm hcmd)
      | getReq => exact h.getReq env hcmd
      | waitReply => grind [Traffic.exec, h.of_same, PortalState.sameQueue_waitReply, portalExec]
      | getResult =>
        unfold Traffic.exec portalExec PortalState.getResult
        dsimp only
        rw [hcmd]
        dsimp only
        split_ifs <;> exact h
      | cleanup =>
        unfold Traffic.exec portalExec
        dsimp only
        rw [hcmd]
        exact h.of_same (PortalState.sameQueue_cleanup _ env hfits)
      | wait =>
        unfold Traffic.exec portalExec
        dsimp only
        rw [hcmd]
        exact h.of_same (PortalState.sameQueue_wait _)
      | reply => grind [Traffic.exec, h.of_same, PortalState.sameQueue_reply, portalExec]

end Traffic

/-- In every run in which a call finds the list of the portal empty, the requests handed to the
server are the first ones posted, in the same order. -/
theorem portal_served_in_order (K : Nat) (s : PortalState) (hs : (s.portal K).reqs = [])
    (ops : List TrafficOp) (hops : (calmSystem K).Legal ⟨s, [], []⟩ ops) :
    ((calmSystem K).run ⟨s, [], []⟩ ops).handed <+:
      ((calmSystem K).run ⟨s, [], []⟩ ops).posted := by
  have hstart : Traffic.InOrder K ⟨s, [], []⟩ := by
    refine ⟨?_, ?_, ?_⟩ <;> simp [Traffic.reqs, hs]
  have h : ((calmSystem K).run ⟨s, [], []⟩ ops).InOrder K :=
    System.run_invariant (M := calmSystem K) (I := Traffic.InOrder K)
      (fun _ _ h hop => h.exec hop.1 hop.2) hstart hops
  rw [h.posted]
  exact List.prefix_append _ _

/-- Portal 7 of thread 1, and two threads that may call it; thread 2 runs. -/
def twoClients : PortalState :=
  servedState.withSems { servedState.sems with
    kheap := ⟨fun n => 16 * (n + 1), 2, [32, 16]⟩
    sched := ⟨[1, 2, 3], fun t => ⟨t, .ready, false, 0, 0⟩, some 2, fun _ => []⟩ }

/-- A call to portal 7. -/
def callOp : TrafficOp := .exec .ok ⟨2, 0, 7, 0, 64, 0, 0, 0⟩

/-- A server asks for a request. -/
def getReqOp : TrafficOp := .exec .ok ⟨7, 0, 0, 0, 0, 0, 0, 0⟩

theorem portal_served_in_order_two :
    ((calmSystem 16).run ⟨twoClients, [], []⟩
        [callOp, .timer, .timer, getReqOp, .timer, callOp]).posted = [0, 1] ∧
      ((calmSystem 16).run ⟨twoClients, [], []⟩
          [callOp, .timer, .timer, getReqOp, .timer, callOp]).handed <+:
        ((calmSystem 16).run ⟨twoClients, [], []⟩
          [callOp, .timer, .timer, getReqOp, .timer, callOp]).posted := by
  refine ⟨by decide +kernel, portal_served_in_order 16 twoClients (by decide) _ ?_⟩
  refine ⟨⟨rfl, fun _ => rfl⟩, ⟨trivial, trivial⟩, ⟨trivial, trivial⟩, ⟨trivial, fun h => ?_⟩,
    ⟨trivial, trivial⟩, ⟨rfl, fun _ => rfl⟩, trivial⟩
  cases h

/-- Threads 2 and 3 call, one after the other, and the server gets the request of thread 3 first. -/
theorem portal_newest_first :
    (twoClients.portal 16).reqs = [] ∧
      (trafficSystem 16).Legal ⟨twoClients, [], []⟩ [callOp, .timer, callOp, .timer, getReqOp] ∧
      ((trafficSystem 16).run ⟨twoClients, [], []⟩
        [callOp, .timer, callOp, .timer, getReqOp]).posted = [0, 1] ∧
      ((trafficSystem 16).run ⟨twoClients, [], []⟩
        [callOp, .timer, callOp, .timer, getReqOp]).handed = [1] := by
  refine ⟨by decide, ⟨rfl, trivial, rfl, trivial, trivial, trivial⟩, ?_, ?_⟩
  · decide +kernel
  · decide +kernel

end Ukernel.Ipc
