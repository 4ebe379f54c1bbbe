import Ukernel.Kernel.ProcessReady

/-!
# The directory of the thread that resumes

A switch is only requested inside a gate: `thread_ctx_info` holds the context to load and, if the
process changes, its address space. `arch_task_context_switch` loads both at the exit of the gate.

## Why one request may spoil another

A request compares the process of the next thread with that of the running one, and not with the
one whose directory is loaded. So if a first request in a gate crosses over to another process, and
a second one stays in that process, the second one clears the address space that the first one asked
for. Nothing is lost if no address space is pending, or if the second request leaves the process.
`proc_exit` always ends with such a request.

## Main definitions

* `ProcTable.Paired`: what is loaded, or is about to be, belongs to the running thread
* `ProcTable.Settled`: no address space is pending, or nobody else of the running process is ready

## Main results

* `resumed_thread_paired`: in runs whose requests are made in such states, the exit of a gate loads
  the context and the directory of the running thread
* `pending_directory_lost`: otherwise it may not
-/

namespace Ukernel.Kernel

open Arch Lib Machine Mm Sync

namespace ProcTable

/-- What is loaded, or about to be, belongs to the running thread; a process that is on its way out
is excepted. -/
structure PairedBut (gone : Option Nat) (s : ProcTable) : Prop where
  idle : s.sched.run = none → s.ctxInfo = ⟨0, 0⟩
  ctx : ∀ t, s.sched.run = some t →
    s.ctxInfo.currTaskCtx = t ∨ s.ctxInfo.currTaskCtx = 0 ∧ s.currTaskCtx = t
  dir : ∀ t, s.sched.run = some t → gone = some (s.tcb t).parent ∨
    s.ctxInfo.vcb = (s.tcb t).parent ∨
      s.ctxInfo.vcb = 0 ∧ s.cr3 = (s.pcb (s.tcb t).parent).vcb.cr3

/-- What is loaded, or about to be, belongs to the running thread. -/
def Paired (s : ProcTable) : Prop := s.PairedBut none

/-- No address space is pending, or nobody else of the running process is ready. -/
def Settled (s : ProcTable) : Prop :=
  s.ctxInfo.vcb = 0 ∨ ∀ t ∈ s.sched.run, ∀ u ∈ s.sched.order, u ≠ t →
    (s.tcb u).parent = (s.tcb t).parent → (s.sched.thread u).state ≠ .ready

instance decidableSettled (s : ProcTable) : Decidable s.Settled :=
  inferInstanceAs (Decidable (_ ∨ ∀ t ∈ s.sched.run, ∀ u ∈ s.sched.order, _ → _ → _))

variable {L : Layout} {s s' : ProcTable} {p t : Nat} {gone : Option Nat}

theorem boot_linked (mm : Resources) (cr3 : Nat) : (boot mm cr3).Linked := by
  have hnone {x : Nat} {P : Prop} (h : x ∈ ([] : List Nat)) : P := absurd h List.not_mem_nil
  refine ⟨⟨List.nodup_nil, fun _ h => (nomatch h),
    ⟨fun _ _ h => hnone h, fun _ => List.nodup_nil, rfl⟩, fun _ _ h => hnone h⟩, List.nodup_nil,
    ?_, ?_, ?_, ?_, ?_, ?_, ?_, ?_, ?_, ?_, ?_⟩
  all_goals exact fun _ h => hnone h

theorem boot_paired (mm : Resources) (cr3 : Nat) : (boot mm cr3).Paired :=
  ⟨fun _ => rfl, fun _ h => (nomatch h), fun _ h => (nomatch h)⟩

namespace PairedBut

section

variable (h : s.PairedBut gone)

include h

/-- The running thread, what is loaded and what is pending are the same. -/
theorem congr (hrun : s'.sched.run = s.sched.run) (hinfo : s'.ctxInfo = s.ctxInfo)
    (hcr3 : s'.cr3 = s.cr3) (hctx : s'.currTaskCtx = s.currTaskCtx)
    (hthread : ∀ t, s.sched.run = some t → (s'.tcb t).parent = (s.tcb t).parent ∧
      (s'.pcb (s.tcb t).parent).vcb.cr3 = (s.pcb (s.tcb t).parent).vcb.cr3) :
    s'.PairedBut gone := by
  refine ⟨fun hnone => hinfo.trans (h.idle (hrun ▸ hnone)), fun t ht => ?_, fun t ht => ?_⟩
  · rw [hinfo, hctx]
    exact h.ctx t (hrun ▸ ht)
  · grind [h.dir]

theorem same (hl : s.Linked) (hs : SameTable s s') : s'.PairedBut gone :=
  h.congr (by rw [hs.sched]) hs.ctxInfo hs.cr3 hs.currTaskCtx fun t ht =>
    ⟨by rw [hs.tcb], (hs.pcb _ (hl.parent_le (hl.run ht))).cr3⟩

/-- Only the scheduler has changed, and the same thread runs. -/
theorem resched {sched : Sched} (hrun : sched.run = s.sched.run) :
    (s.withSched sched).PairedBut gone :=
  h.congr hrun rfl rfl rfl fun _ _ => ⟨rfl, rfl⟩

/-- A request: it loses no address space that is pending if it leaves the process. -/
theorem runNext {old next : Nat} (hrun : s.sched.run = some old)
    (hstay : (s.tcb old).parent = (s.tcb next).parent →
      gone = some (s.tcb next).parent ∨ s.ctxInfo.vcb = 0) (sched : Sched) :
    (s.runNext old next sched).PairedBut gone := by
  refine ⟨fun hnone => (nomatch hnone), fun t ht => ?_, fun t ht => ?_⟩
  · cases ht
    exact Or.inl rfl
  · cases ht
    change gone = some (s.tcb next).parent ∨
      (if (s.tcb old).parent ≠ (s.tcb next).parent then (s.tcb next).parent else 0) =
        (s.tcb next).parent ∨
      (if (s.tcb old).parent ≠ (s.tcb next).parent then (s.tcb next).parent else 0) = 0 ∧
        s.cr3 = (s.pcb (s.tcb next).parent).vcb.cr3
    by_cases heq : (s.tcb old).parent = (s.tcb next).parent
    · grind [h.dir]
    · rw [if_pos heq]
      exact Or.inr (Or.inl rfl)

/-- A thread that does not run is unlinked. -/
theorem unlinkThread (t : Nat) : (s.unlinkThread t).PairedBut gone := by
  have hrun : (s.sched.unlink t).run = s.sched.run := by
    change (s.sched.detachWait t).run = _
    unfold Sched.detachWait
    split_ifs <;> rfl
  exact h.congr hrun rfl rfl rfl fun u _ => ⟨rfl, by rw [unlinkThread_pcb]⟩

end

/-- One thread of the process that exits goes. -/
theorem exitThread (h : s.PairedBut (some p)) (hl : s.Linked) (ht : t ∈ s.sched.order)
    (hp : (s.tcb t).parent = p) (hs : s.exitThread t = some s') : s'.PairedBut (some p) := by
  rcases hl.exitThread_cases ht hs with ⟨hrun, hsame⟩ | ⟨hrun, next, hnext, -, hsame⟩
  · exact (h.unlinkThread t).same (hl.unlinkThread hrun) hsame
  · obtain ⟨hlinked, hother⟩ := hl.handOver hnext
    have hstay (heq : (s.tcb t).parent = (s.tcb next).parent) :
        some p = some (s.tcb next).parent ∨ s.ctxInfo.vcb = 0 :=
      Or.inl (congrArg some (hp.symm.trans heq))
    have hnext' := h.runNext hrun hstay
      (s.sched.modify next fun th => { th with wakePending := false })
    exact (hnext'.unlinkThread t).same (hlinked.unlinkThread hother) hsame

/-- When all threads of a process have gone, the one that runs belongs to another process. -/
theorem exitLoop (h : s.PairedBut (some p)) (hl : s.Linked) (hp : p ∈ s.procHead) {ts : List Nat}
    (hts : (s.pcb p).tcbs = ts) (hend : (exitLoop ts s).1 = true) :
    (exitLoop ts s).2.Paired := by
  induction ts generalizing s with
  | nil =>
    refine ⟨h.idle, h.ctx, fun t ht => Or.inr ?_⟩
    rcases h.dir t ht with hgone | hdir
    · have hmem := (hl.parent t (hl.run ht)).2
      rw [← Option.some.inj hgone, hts] at hmem
      exact absurd hmem List.not_mem_nil
    · exact hdir
  | cons t ts ih =>
    obtain ⟨hmem, hparent⟩ := hl.child p hp t (hts ▸ List.mem_cons_self)
    unfold ProcTable.exitLoop at hend ⊢
    cases hs : s.exitThread t with
    | none =>
      rw [hs] at hend
      cases hend
    | some s' => grind [hl.exitThread, h.exitThread]

end PairedBut

namespace Paired

/-- The exit of a gate loads what belongs to the running thread. -/
theorem commit (h : s.Paired) (hl : s.Linked) (ht : s.sched.run = some t) :
    s.archTaskContextSwitch.currTaskCtx = t ∧
      s.archTaskContextSwitch.cr3 = (s.pcb (s.tcb t).parent).vcb.cr3 := by
  obtain ⟨hproc, -⟩ := hl.parent t (hl.run ht)
  have hne : (s.tcb t).parent ≠ 0 := (hl.proc _ hproc).1
  have hcr3 := hl.cr3 _ hproc
  have hdir : (if s.ctxInfo.vcb ≠ 0 then s.vmmSwitch s.ctxInfo.vcb else s) =
      { s with cr3 := (s.pcb (s.tcb t).parent).vcb.cr3 } := by
    rcases h.dir t ht with hgone | hvcb | ⟨hzero, hloaded⟩
    · cases hgone
    · rw [hvcb, if_pos hne, vmmSwitch_eq, if_neg hcr3]
    · rw [hzero, if_neg (not_not.mpr rfl), ← hloaded]
  unfold ProcTable.archTaskContextSwitch
  dsimp only
  rw [hdir]
  rcases h.ctx t ht with hctx | ⟨hzero, hloaded⟩
  · rw [if_pos (by rw [hctx]; exact (hl.thread t (hl.run ht)).1)]
    exact ⟨hctx, rfl⟩
  · rw [if_neg (not_not.mpr hzero)]
    exact ⟨hloaded, rfl⟩

theorem archTaskContextSwitch_eq (s : ProcTable) : s.archTaskContextSwitch =
    { s with
      ctxInfo := ⟨0, 0⟩
      cr3 := s.archTaskContextSwitch.cr3
      currTaskCtx := s.archTaskContextSwitch.currTaskCtx } := by
  unfold ProcTable.archTaskContextSwitch
  simp only [vmmSwitch_eq]
  split_ifs <;> rfl

variable (h : s.Paired)

include h

theorem archTaskContextSwitch (hl : s.Linked) : s.archTaskContextSwitch.Paired := by
  have heq := archTaskContextSwitch_eq s
  have hcommit {t : Nat} (ht : s.sched.run = some t) := h.commit hl ht
  rw [heq]
  exact ⟨fun _ => rfl, fun t ht => Or.inr ⟨rfl, (hcommit ht).1⟩,
    fun t ht => Or.inr (Or.inr ⟨rfl, (hcommit ht).2⟩)⟩

/-! ## Scheduling -/

/-- Another ready thread takes over. -/
theorem takeOver (hl : s.Linked) (hs : s.Settled) {old next : Nat} (hrun : s.sched.run = some old)
    (hnext : next ∈ s.sched.candidates old) (hready : (s.sched.thread next).state = .ready)
    (sched : Sched) : (s.runNext old next sched).Paired := by
  refine PairedBut.runNext h hrun (fun hsame => Or.inr ?_) sched
  rcases hs with hzero | hnone
  · exact hzero
  · grind [Sched.not_mem_candidates, hl.sched.nodup, Sched.mem_candidates]

theorem threadYield (hl : s.Linked) (hs : s.Settled) : s.threadYield.Paired := by
  unfold ProcTable.threadYield
  cases hrun : s.sched.run with
  | none => exact h
  | some old =>
    dsimp only
    rcases s.sched.findNextRunnable_cases old with ⟨-, heq⟩ | ⟨next, hnext, hready, heq⟩
    · rw [heq]
      exact h
    · rw [heq]
      exact h.takeOver hl hs hrun hnext hready _

theorem scheduleIsr (hl : s.Linked) (hs : s.Settled) (locked : Bool) :
    (s.scheduleIsr locked).Paired := by
  unfold ProcTable.scheduleIsr
  dsimp only
  have hslice (timeslice : Nat) : Paired { s with timeslice } := ⟨h.idle, h.ctx, h.dir⟩
  split_ifs
  · exact hslice _
  · exact hslice _
  · exact (hslice 0).threadYield (hl.reload s.ctxInfo s.cr3 s.currTaskCtx 0) hs

theorem blockThread (hl : s.Linked) (hs : s.Settled) (t : Nat) :
    (s.blockThread t).Paired := by
  unfold ProcTable.blockThread
  dsimp only
  have hpending : (s.withSched (s.sched.modify t fun th => { th with state := .pending })).Paired :=
    PairedBut.resched h rfl
  split_ifs
  · exact PairedBut.resched h rfl
  · refine hpending.threadYield (hl.modify t _ (fun _ => rfl) (fun _ => rfl) fun _ => rfl) ?_
    refine hs.imp id fun hnone u hu w hw hne hsame hready => ?_
    refine hnone u hu w hw hne hsame ?_
    change ((s.sched.modify t fun th => { th with state := .pending }).thread w).state = _ at hready
    rw [Sched.modify_thread] at hready
    split_ifs at hready
    exact hready
  · exact hpending

theorem threadBlock (hl : s.Linked) (hs : s.Settled) (tid : Nat) :
    (s.threadBlock tid).Paired := by
  unfold ProcTable.threadBlock
  split_ifs
  · exact h
  · split
    · exact h
    · exact h.blockThread hl hs _

theorem threadUnblock (tid : Nat) : (s.threadUnblock tid).Paired := by
  unfold ProcTable.threadUnblock
  split_ifs
  · exact h
  · split
    · exact h
    · exact PairedBut.resched h rfl

theorem waitQueueSleepLocked (hl : s.Linked) (hs : s.Settled) {wq : Nat} (hwq : wq ≠ 0) :
    (s.waitQueueSleepLocked wq).Paired := by
  unfold ProcTable.waitQueueSleepLocked
  cases s.sched.run with
  | none => exact h
  | some run =>
    dsimp only
    split
    · exact h
    · rename_i curr hcurr
      split_ifs with hfree
      · exact h
      · have htidy := hl.sched.enlist (Linked.mem_of_findThread hcurr) (not_not.mp hfree) hwq
        have henlist : (s.withSched (s.sched.enlist curr wq)).Paired := PairedBut.resched h rfl
        refine henlist.threadBlock (hl.resched htidy (s.sched.sameThreads_enlist curr wq)) ?_ _
        refine hs.imp id fun hnone u hu w hw hne hsame hready => ?_
        refine hnone u hu w hw hne hsame (hready ▸ ?_)
        change _ = ((s.sched.enlist curr wq).thread w).state
        rw [Sched.enlist, Sched.setWaiters_thread, Sched.modify_thread]
        split_ifs with heq
        · rw [heq]
        · rfl

theorem waitQueueWakeOne (wq : Nat) : (s.waitQueueWakeOne wq).Paired := by
  unfold ProcTable.waitQueueWakeOne
  split
  · exact h
  · rename_i t ht
    have hdelist : (s.withSched (s.sched.delist t wq)).Paired := PairedBut.resched h rfl
    exact hdelist.threadUnblock _

theorem setStates (p : Nat) (blocked : Bool) (state : ThreadState) :
    (s.setStates p blocked state).Paired := by
  have hloop (ts : List Nat) (sched : Sched) :
      (ts.foldl (fun sched t => sched.modify t fun th => { th with state }) sched).run =
        sched.run := by
    induction ts generalizing sched with
    | nil => rfl
    | cons t ts ih => exact ih _
  refine PairedBut.congr h (hloop _ _) rfl rfl rfl fun t _ => ⟨rfl, ?_⟩
  change (Function.update s.pcb p _ _).vcb.cr3 = _
  by_cases hq : (s.tcb t).parent = p
  · rw [hq, Function.update_self]
  · rw [Function.update_of_ne hq]

/-! ## Creation and deletion -/

/-- A new thread is linked; if it is the first one, it is switched to directly. -/
theorem enroll (hl : s.Linked) {f : TcbFields} (hnew : t ∉ s.sched.order)
    (hp : f.parent ∈ s.procHead) (initial : ThreadState) : (s.enroll t f initial).Paired := by
  have hlink : (s.linkThread t f initial).Paired := by
    refine PairedBut.congr h rfl rfl rfl rfl fun u hu => ⟨?_, by rw [linkThread_pcb]⟩
    have hne : u ≠ t := fun heq => hnew (heq ▸ hl.run hu)
    change (Function.update s.tcb t f u).parent = _
    rw [Function.update_of_ne hne]
  have hbox (s₁ : ProcTable) (h₁ : s₁.Paired) : (s₁.giveMailbox t).Paired := by
    have hmade := s₁.giveMailbox_made t
    rw [hmade.rest]
    obtain ⟨mb, ⟨-, heq⟩ | ⟨-, heq⟩⟩ := hmade.sched
    all_goals
      rw [heq]
      exact PairedBut.congr h₁ rfl rfl rfl rfl fun _ _ => ⟨rfl, rfl⟩
  unfold ProcTable.enroll
  dsimp only
  split_ifs with hnone
  · -- nobody ran, so that nothing is pending
    refine hbox _ ?_
    have hinfo : s.ctxInfo = ⟨0, 0⟩ := h.idle hnone
    have hvcb : ((s.linkThread t f initial).pcb f.parent).vcb = (s.pcb f.parent).vcb := by
      rw [linkThread_pcb]
    unfold ProcTable.startFirst
    rw [vmmSwitch_eq]
    refine ⟨fun hrun => (nomatch hrun), fun u hu => ?_, fun u hu => ?_⟩
    · cases hu
      exact Or.inr ⟨congrArg SwitchInfo.currTaskCtx hinfo, rfl⟩
    · cases hu
      refine Or.inr (Or.inr ⟨congrArg SwitchInfo.vcb hinfo, ?_⟩)
      change (if ((s.linkThread t f initial).pcb f.parent).vcb.cr3 = 0 then s.cr3
        else ((s.linkThread t f initial).pcb f.parent).vcb.cr3) =
          ((s.linkThread t f initial).pcb (Function.update s.tcb t f t).parent).vcb.cr3
      rw [Function.update_self, if_neg (hvcb ▸ hl.cr3 _ hp)]
  · exact hbox _ hlink

theorem threadCreateEx (hl : s.Linked) (hp : p ∈ s.procHead) (ring : Priv) (initial : ThreadState) :
    (s.threadCreateEx L p ring initial).2.Paired := by
  rcases threadCreateEx_cases L s p ring initial with ⟨-, hsame⟩ |
    ⟨-, s₁, t, stack, lock, hsame, hlt, hle, heq⟩
  · exact PairedBut.same h hl hsame
  · rw [heq]
    have hpaired : s₁.Paired := PairedBut.same h hl hsame
    refine hpaired.enroll (hl.same hsame) (fun hmem => ?_) (hsame.procHead.symm ▸ hp) initial
    rw [hsame.sched] at hmem
    exact absurd (hl.thread t hmem).2 (by omega)

theorem pCreateEx (hl : s.Linked) (priv : Priv) (initial : ThreadState)
    (hcount : s.nextTid < 2 ^ 31 ∧ s.nextPid < 2 ^ 31) :
    (s.pCreateEx L priv initial).2.Paired := by
  rcases pCreateEx_cases L s priv initial hcount.1 with ⟨-, hsame | hsame⟩ |
    ⟨s₁, p, hlisted, -, heq⟩
  · exact PairedBut.same h hl hsame
  · have hbump : s.bumpPid.Paired := ⟨h.idle, h.ctx, h.dir⟩
    exact PairedBut.same hbump (hl.bumpPid hcount.2) hsame
  · rw [heq]
    have hlist : s₁.Paired := by
      refine PairedBut.congr h (by rw [hlisted.sched]) hlisted.ctxInfo hlisted.cr3
        hlisted.currTaskCtx fun t ht => ⟨by rw [hlisted.tcb], ?_⟩
      have hle := hl.parent_le (hl.run ht)
      have hlt := hlisted.fresh
      rw [hlisted.pcb _ (by omega)]
    refine hlist.threadCreateEx (hl.procListed hlisted hcount.2) ?_ priv initial
    rw [hlisted.procHead]
    exact List.mem_cons_self

theorem reapThread (hl : s.Linked) (ht : t ∈ s.sched.order) (hrun : s.sched.run ≠ some t) :
    (s.reapThread t).Paired := by
  have hunlink := PairedBut.unlinkThread h t
  have hclear (mb : Nat) : ((s.unlinkThread t).clearQueue mb).Paired := by
    unfold clearQueue
    split_ifs
    · exact hunlink
    · exact PairedBut.resched hunlink rfl
  exact PairedBut.same (hclear _) ((hl.unlinkThread hrun).clearQueue _)
    (reapThread_same (hl.parent_le ht))

theorem threadDelete (hl : s.Linked) (hs : s.Settled) (tid : Nat) :
    (s.threadDelete tid).Paired := by
  rcases s.threadDelete_cases tid with heq | ⟨t, ht, hgone⟩
  · rw [heq]
    exact h
  have hmem := Linked.mem_of_findThread ht
  rcases hgone with ⟨hrun, heq⟩ | ⟨s', ⟨hrun, next, hnext, hready, rfl⟩, heq⟩
  · rw [heq]
    exact h.reapThread hl hmem hrun
  · rw [heq]
    obtain ⟨hlinked, hother⟩ := hl.handOver hnext
    exact Paired.reapThread (h.takeOver hl hs hrun hnext hready _) hlinked hmem hother

theorem procExit (hl : s.Linked) (L : Layout) (pid : Nat)
    (hlive : (s.procExit L pid).halted = false) : (s.procExit L pid).Paired := by
  unfold ProcTable.procExit at hlive ⊢
  split
  · exact h.archTaskContextSwitch hl
  · rename_i p hp
    rw [hp] at hlive
    dsimp only at hlive
    have hmem : p ∈ s.procHead := List.mem_of_find?_eq_some hp
    have hbut : s.PairedBut (some p) := ⟨h.idle, h.ctx, fun t ht => by
      rcases h.dir t ht with hgone | hdir
      · cases hgone
      · exact Or.inr hdir⟩
    have hloop := hbut.exitLoop hl hmem rfl
    obtain ⟨hlinked, hnone⟩ := hl.exitLoop hmem rfl
    generalize ProcTable.exitLoop (s.pcb p).tcbs s = res at hloop hlinked hnone hlive ⊢
    obtain ⟨_ | _, s₁⟩ := res
    · cases hlive
    · have hunlist : Paired { s₁ with procHead := s₁.procHead.erase p } :=
        ⟨(hloop rfl).idle, (hloop rfl).ctx, (hloop rfl).dir⟩
      have hl₁ := hlinked.unlist (hnone rfl)
      exact PairedBut.same (hunlist.archTaskContextSwitch hl₁) hl₁.archTaskContextSwitch
        (reapProc_same L _ p)

end Paired

end ProcTable

/-! ## Runs -/

namespace ProcOp

/-- A request for a switch is made where none is pending that it could spoil. -/
def Settles (s : ProcTable) : ProcOp → Prop
  | .threadDelete _ | .threadBlock _ | .threadYield | .sleep _ | .tick _ => s.Settled
  | _ => True

instance decidableSettles (s : ProcTable) : (op : ProcOp) → Decidable (op.Settles s)
  | .threadDelete _ | .threadBlock _ | .threadYield | .sleep _ | .tick _ =>
    inferInstanceAs (Decidable s.Settled)
  | .procCreate _ | .threadCreate _ | .threadUnblock _ | .procExit _ | .procBlock _
  | .procUnblock _ | .wake _ | .gateExit => isTrue trivial

end ProcOp

/-- Processes and threads, as long as requests spoil no other. -/
def settledSystem (L : Layout) : System ProcTable ProcOp :=
  ⟨ProcOp.exec L, fun s op => op.Counted s ∧ op.Settles s⟩

instance decidableSettledSystem (L : Layout) (s : ProcTable) (op : ProcOp) :
    Decidable ((settledSystem L).enabled s op) :=
  inferInstanceAs (Decidable (op.Counted s ∧ op.Settles s))

theorem ProcTable.Paired.step {L : Layout} {s : ProcTable} (h : s.halted = false → s.Paired)
    (hl : s.Linked) {op : ProcOp} (hop : op.Counted s ∧ op.Settles s)
    (hlive : (op.exec L s).halted = false) : (op.exec L s).Paired := by
  unfold ProcOp.exec at hlive ⊢
  split_ifs at hlive ⊢ with hhalt
  · exact h hlive
  replace h := h (Bool.eq_false_of_not_eq_true hhalt)
  cases op with
  | procCreate priv => exact h.pCreateEx hl priv .pending hop.1
  | threadCreate ring => grind [ProcOp.step, h.threadCreateEx, hl.parent, hl.run]
  | threadDelete tid => exact h.threadDelete hl hop.2 tid
  | threadBlock tid => exact h.threadBlock hl hop.2 tid
  | threadUnblock tid => exact h.threadUnblock tid
  | threadYield => exact h.threadYield hl hop.2
  | procExit pid => exact h.procExit hl L pid hlive
  | procBlock pid =>
    change (s.procBlock pid).Paired
    unfold ProcTable.procBlock
    split
    · exact h
    · exact h.setStates _ _ _
  | procUnblock pid =>
    change (s.procUnblock pid).Paired
    unfold ProcTable.procUnblock
    split
    · exact h
    · exact h.setStates _ _ _
  | sleep wq => exact h.waitQueueSleepLocked hl hop.2 hop.1
  | wake wq => exact h.waitQueueWakeOne wq
  | tick locked => exact h.scheduleIsr hl hop.2 locked
  | gateExit => exact h.archTaskContextSwitch hl

/-- As long as requests spoil no other, the exit of a gate loads the context and the directory of
the running thread. -/
theorem resumed_thread_paired (L : Layout) (mm : Resources) (cr3 : Nat) (ops : List ProcOp)
    (hops : (settledSystem L).Legal (.boot mm cr3) ops)
    (hlive : ((settledSystem L).run (.boot mm cr3) ops).halted = false) :
    let s := ((settledSystem L).run (.boot mm cr3) ops).archTaskContextSwitch
    ∀ t, s.sched.run = some t →
      s.currTaskCtx = t ∧ s.cr3 = (s.pcb (s.tcb t).parent).vcb.cr3 := by
  obtain ⟨hl, hpaired⟩ := System.run_invariant (M := settledSystem L)
    (I := fun s => s.Linked ∧ (s.halted = false → s.Paired))
    (fun s op h hop => ⟨h.1.step hop.1, ProcTable.Paired.step h.2 h.1 hop⟩)
    ⟨ProcTable.boot_linked mm cr3, fun _ => ProcTable.boot_paired mm cr3⟩ hops
  intro s t ht
  have heq := ProcTable.Paired.archTaskContextSwitch_eq ((settledSystem L).run (.boot mm cr3) ops)
  have hrun : ((settledSystem L).run (.boot mm cr3) ops).sched.run = some t :=
    (congrArg (fun z => z.sched.run) heq).symm.trans ht
  obtain ⟨hctx, hcr3⟩ := (hpaired hlive).commit hl hrun
  refine ⟨hctx, hcr3.trans ?_⟩
  exact (congrArg (fun z => (z.pcb (z.tcb t).parent).vcb.cr3) heq).symm

/-- Two processes, the second one with two threads that are ready; a thread of the first one runs.
-/
def twoProcesses : List ProcOp :=
  [.procCreate .kernel, .procCreate .kernel, .procUnblock 1, .threadYield, .gateExit,
    .threadCreate .kernel, .threadUnblock 2, .threadYield, .gateExit]

/-- One request in the next gate. -/
def settledRun : List ProcOp := twoProcesses ++ [.threadYield]

theorem resumed_thread_paired_settledRun :
    let s := ((settledSystem .documented).run (.boot (crowded 4) 0)
      settledRun).archTaskContextSwitch
    s.sched.run = some 13 ∧ s.currTaskCtx = 13 ∧ s.cr3 = (s.pcb (s.tcb 13).parent).vcb.cr3 := by
  intro s
  have hlegal : (settledSystem .documented).Legal (.boot (crowded 4) 0) settledRun := by
    decide +kernel
  have hrun : s.sched.run = some 13 := by decide +kernel
  exact ⟨hrun, resumed_thread_paired .documented (crowded 4) 0 settledRun hlegal
    (by decide +kernel) 13 hrun⟩

/-- Two requests in one gate: the first one crosses over to the second process, the second one stays
there, and the directory of the first process is still loaded. -/
theorem pending_directory_lost :
    let s := (procSystem .documented).run (.boot (crowded 4) 0)
      (twoProcesses ++ [ProcOp.threadYield, ProcOp.threadYield, ProcOp.gateExit])
    s.sched.run = some 10 ∧ (s.tcb 10).parent = 7 ∧ s.cr3 = (s.pcb 1).vcb.cr3 ∧
      s.cr3 ≠ (s.pcb 7).vcb.cr3 := by
  decide +kernel

end Ukernel.Kernel
