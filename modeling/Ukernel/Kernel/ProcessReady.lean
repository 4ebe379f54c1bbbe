import Ukernel.Kernel.ProcessLinks
import Ukernel.Machine.System
import Ukernel.Mm.VmmConserve

/-!
# Who runs is ready

A thread that blocks itself, or falls asleep, hands over to a thread that is ready. Where there is
none it goes on running, though it is marked as blocked; and `proc_block` marks the threads of a
process without looking for the running one among them. Everything else keeps the running thread
ready: who is chosen is ready, deletion and exit choose before they unlink, and the first thread is
made ready.

## Main definitions

* `ProcTable.boot`: no processes
* `ProcTable.Ready`: the running thread is ready
* `ProcOp.Relieves`: who stops running has somebody to hand over to

## Main results

* `resumed_thread_ready`: in runs of such steps the running thread is ready
* `blocked_thread_runs`: a thread that blocks itself without anybody to hand over to runs on
-/

namespace Ukernel.Kernel

open Arch Lib Machine Mm Sync

namespace ProcTable

/-- No processes; some directory is loaded. -/
def boot (mm : Resources) (cr3 : Nat) : ProcTable where
  mm
  sched := ⟨[], fun _ => ⟨0, .null, false, 0, 0⟩, none, fun _ => []⟩
  tcb := fun _ => ⟨0, 0, .kernel, 0, 0⟩
  procHead := []
  pcb := fun _ => ⟨0, false, .kernel, [], 0, 0, (Pcb.bare .kernel []).vcb, []⟩
  boxLock := fun _ => 0
  ctxInfo := ⟨0, 0⟩
  cr3
  currTaskCtx := 0
  nextTid := 0
  nextPid := 0
  timeslice := 0
  halted := false

/-- Threads are listed once and have names that have been given out; the running thread is
listed. -/
structure Named (s : ProcTable) : Prop where
  nodup : s.sched.order.Nodup
  named : ∀ t ∈ s.sched.order, t ≤ s.mm.kheap.calls
  run : ∀ t, s.sched.run = some t → t ∈ s.sched.order

/-- The running thread is ready. -/
structure Ready (s : ProcTable) : Prop extends Named s where
  ready : ∀ t, s.sched.run = some t → (s.sched.thread t).state = .ready

variable {L : Layout} {s s' : ProcTable} {p t : Nat}

theorem boot_ready (mm : Resources) (cr3 : Nat) : (boot mm cr3).Ready :=
  ⟨⟨List.nodup_nil, fun _ h => absurd h List.not_mem_nil, fun _ h => nomatch h⟩,
    fun _ h => nomatch h⟩

/-- A thread that is ready takes over. -/
theorem Named.runNext (h : s.Named) (old : Nat) {next : Nat} (hnext : next ∈ s.sched.order)
    (hready : (s.sched.thread next).state = .ready) :
    (s.runNext old next
      (s.sched.modify next fun th => { th with wakePending := false })).Ready := by
  refine ⟨⟨h.nodup, h.named, fun t ht => ?_⟩, fun t ht => ?_⟩
  · cases ht
    exact hnext
  · cases ht
    change ((s.sched.modify next fun th => { th with wakePending := false }).thread next).state = _
    rw [Sched.modify_thread, if_pos rfl]
    exact hready

namespace Ready

variable (h : s.Ready)

include h

/-- The same threads are listed, the same one runs, and it is ready. -/
theorem congr (horder : s'.sched.order = s.sched.order) (hrun : s'.sched.run = s.sched.run)
    (hstate : ∀ t, s.sched.run = some t → (s'.sched.thread t).state = .ready)
    (hcalls : s.mm.kheap.calls ≤ s'.mm.kheap.calls) : s'.Ready where
  nodup := horder.symm ▸ h.nodup
  named t ht := (h.named t (horder ▸ ht)).trans hcalls
  run t ht := horder.symm ▸ h.run t (hrun ▸ ht)
  ready t ht := hstate t (hrun ▸ ht)

theorem same (hs : SameTable s s') : s'.Ready :=
  h.congr (by rw [hs.sched]) (by rw [hs.sched]) (fun t ht => hs.sched.symm ▸ h.ready t ht) hs.calls

/-- A change to a thread that leaves it ready. -/
theorem modify (t : Nat) (f : Thread → Thread)
    (hf : ∀ th : Thread, th.state = .ready → (f th).state = .ready) :
    (s.withSched (s.sched.modify t f)).Ready := by
  refine h.congr rfl rfl (fun u hu => ?_) (Nat.le_refl _)
  change ((s.sched.modify t f).thread u).state = .ready
  rw [Sched.modify_thread]
  split_ifs with heq
  · exact hf _ (heq ▸ h.ready u hu)
  · exact h.ready u hu

/-! ## Scheduling -/

theorem threadYield : s.threadYield.Ready := by
  unfold ProcTable.threadYield
  cases hrun : s.sched.run with
  | none => exact h
  | some old => grind [s.sched.findNextRunnable_cases, h.toNamed.runNext, Sched.mem_candidates]

theorem scheduleIsr (locked : Bool) : (s.scheduleIsr locked).Ready := by
  unfold ProcTable.scheduleIsr
  dsimp only
  have hslice (timeslice : Nat) : Ready { s with timeslice } :=
    h.congr rfl rfl h.ready (Nat.le_refl _)
  split_ifs
  · exact hslice _
  · exact hslice _
  · exact (hslice 0).threadYield

/-- A thread that is blocked hands over if it is the running one. -/
theorem blockThread (hrel : s.sched.run = some t → (s.sched.thread t).wakePending = false →
      ∃ u ∈ s.sched.candidates t, (s.sched.thread u).state = .ready) :
    (s.blockThread t).Ready := by
  unfold ProcTable.blockThread
  split_ifs with hwake
  · exact h.modify t _ fun _ hready => hready
  dsimp only
  have hother {u : Nat} (hu : u ≠ t) :
      (s.sched.modify t fun th => { th with state := .pending }).thread u = s.sched.thread u := by
    rw [Sched.modify_thread, if_neg hu]
  split_ifs with hrun
  · -- the thread is marked before its successor is chosen
    have hrun' : s.sched.run = some t := hrun
    obtain ⟨u, hu, hready⟩ := hrel hrun' (Bool.eq_false_of_not_eq_true hwake)
    have hne : u ≠ t := fun heq => Sched.not_mem_candidates h.nodup t (heq ▸ hu)
    unfold ProcTable.threadYield
    rw [hrun]
    dsimp only
    set s₁ := s.withSched (s.sched.modify t fun th => { th with state := .pending }) with hs₁
    rcases s₁.sched.findNextRunnable_cases t with ⟨hnone, -⟩ | ⟨next, hnext, hready', heq⟩
    · refine absurd ?_ (hnone u hu)
      exact (congrArg Thread.state (hother hne)).trans hready
    · rw [heq]
      have hnamed : s₁.Named := ⟨h.nodup, h.named, h.run⟩
      exact hnamed.runNext t (Sched.mem_candidates hnext) hready'
  · refine h.congr rfl rfl (fun u hu => ?_) (Nat.le_refl _)
    have hne : u ≠ t := fun heq => hrun (heq ▸ hu)
    exact (congrArg Thread.state (hother hne)).trans (h.ready u hu)

theorem threadBlock {tid : Nat} (hrel : ∀ t, s.findThread tid = some t → s.sched.run = some t →
      (s.sched.thread t).wakePending = false →
      ∃ u ∈ s.sched.candidates t, (s.sched.thread u).state = .ready) :
    (s.threadBlock tid).Ready := by
  unfold ProcTable.threadBlock
  split_ifs
  · exact h
  · split
    · exact h
    · rename_i t ht
      exact h.blockThread (hrel t ht)

theorem threadUnblock (tid : Nat) : (s.threadUnblock tid).Ready := by
  unfold ProcTable.threadUnblock
  split_ifs
  · exact h
  · split
    · exact h
    · exact h.modify _ _ fun _ _ => rfl

theorem waitQueueSleepLocked (wq : Nat)
    (hrel : ∀ t, s.sched.run = some t → (s.sched.thread t).waitingOn = 0 →
      (s.sched.thread t).wakePending = false →
      ∃ u ∈ s.sched.candidates t, (s.sched.thread u).state = .ready) :
    (s.waitQueueSleepLocked wq).Ready := by
  unfold ProcTable.waitQueueSleepLocked
  cases hrun : s.sched.run with
  | none => exact h
  | some run =>
    dsimp only
    split
    · exact h
    · rename_i curr hcurr
      split_ifs with hfree
      · exact h
      · -- entering the queue changes neither states nor wakeups
        have hthread (u : Nat) : ((s.sched.enlist curr wq).thread u).state =
            (s.sched.thread u).state ∧ ((s.sched.enlist curr wq).thread u).wakePending =
            (s.sched.thread u).wakePending := by
          rw [Sched.enlist, Sched.setWaiters_thread, Sched.modify_thread]
          split_ifs with heq
          · rw [heq]
            exact ⟨rfl, rfl⟩
          · exact ⟨rfl, rfl⟩
        have henlist : (s.withSched (s.sched.enlist curr wq)).Ready :=
          h.congr rfl rfl (fun u hu => (hthread u).1.trans (h.ready u hu)) (Nat.le_refl _)
        have hid : s.findThread (s.tcb curr).tid = some curr := by
          have heq := List.find?_some (p := fun u => (s.tcb u).tid == (s.tcb run).tid) hcurr
          rw [beq_iff_eq.mp heq]
          exact hcurr
        refine henlist.threadBlock fun t ht hself hwake => ?_
        have hcurr' : t = curr := Option.some.inj (ht.symm.trans hid)
        rw [hcurr'] at hself hwake ⊢
        obtain ⟨u, hu, hready⟩ := hrel curr hself (not_not.mp hfree) ((hthread curr).2 ▸ hwake)
        exact ⟨u, hu, (hthread u).1.trans hready⟩

theorem waitQueueWakeOne (wq : Nat) : (s.waitQueueWakeOne wq).Ready := by
  unfold ProcTable.waitQueueWakeOne
  split
  · exact h
  · rename_i t ht
    have hmod := h.modify t (fun th => { th with waitingOn := 0 }) fun _ hready => hready
    have hdelist : (s.withSched (s.sched.delist t wq)).Ready :=
      hmod.congr rfl rfl hmod.ready (Nat.le_refl _)
    exact hdelist.threadUnblock _

/-- The threads of a process get a state: the running one is not among them, or the state is
ready. -/
theorem setStates (blocked : Bool) {state : ThreadState}
    (hrun : ∀ t, s.sched.run = some t → t ∈ (s.pcb p).tcbs → state = .ready) :
    (s.setStates p blocked state).Ready := by
  -- the loop touches the threads of the list only
  have hloop (ts : List Nat) (sched : Sched) :
      let sched' := ts.foldl (fun sched t => sched.modify t fun th => { th with state }) sched
      sched'.order = sched.order ∧ sched'.run = sched.run ∧ ∀ u,
        (sched'.thread u).state = if u ∈ ts then state else (sched.thread u).state := by
    induction ts generalizing sched with
    | nil => exact ⟨rfl, rfl, fun u => (if_neg List.not_mem_nil).symm⟩
    | cons t ts ih =>
      obtain ⟨h₁, h₂, h₃⟩ := ih (sched.modify t fun th => { th with state })
      refine ⟨h₁, h₂, fun u => (h₃ u).trans ?_⟩
      rw [Sched.modify_thread]
      by_cases hu : u = t <;> simp [hu]
  have htcbs : ((s.setPcb p { s.pcb p with blocked }).pcb p).tcbs = (s.pcb p).tcbs := by
    change (Function.update s.pcb p _ p).tcbs = _
    rw [Function.update_self]
  obtain ⟨h₁, h₂, h₃⟩ := hloop ((s.setPcb p { s.pcb p with blocked }).pcb p).tcbs s.sched
  refine h.congr h₁ h₂ (fun u hu => (h₃ u).trans ?_) (Nat.le_refl _)
  rw [htcbs]
  split_ifs with hmem
  · exact hrun u hu hmem
  · exact h.ready u hu

/-! ## Creation -/

/-- A new thread is listed, and it runs only if nobody did. -/
theorem enroll (ht : t ≤ s.mm.kheap.calls) (hnew : t ∉ s.sched.order) (f : TcbFields)
    (initial : ThreadState) : (s.enroll t f initial).Ready := by
  have hlink : (s.linkThread t f initial).Ready := by
    refine ⟨⟨List.nodup_cons.mpr ⟨hnew, h.nodup⟩, fun u hu => ?_,
      fun u hu => List.mem_cons_of_mem _ (h.run u hu)⟩, fun u hu => ?_⟩
    · rcases List.mem_cons.mp hu with rfl | hu
      · exact ht
      · exact h.named u hu
    · have hne : u ≠ t := fun heq => hnew (heq ▸ h.run u hu)
      change (Function.update s.sched.thread t _ u).state = .ready
      rw [Function.update_of_ne hne]
      exact h.ready u hu
  have hstarted : (if (s.linkThread t f initial).sched.run = none then
      (s.linkThread t f initial).startFirst t f.parent else s.linkThread t f initial).Ready := by
    split_ifs
    · unfold ProcTable.startFirst
      rw [vmmSwitch_eq]
      refine ⟨⟨hlink.nodup, hlink.named, fun u hu => ?_⟩, fun u hu => ?_⟩
      · cases hu
        exact List.mem_cons_self
      · cases hu
        change (((s.linkThread t f initial).sched.modify t fun th =>
          { th with state := .ready }).thread t).state = _
        rw [Sched.modify_thread, if_pos rfl]
    · exact hlink
  unfold ProcTable.enroll
  dsimp only
  generalize (if (s.linkThread t f initial).sched.run = none then
      (s.linkThread t f initial).startFirst t f.parent else s.linkThread t f initial) = s₁
    at hstarted ⊢
  have hmade := s₁.giveMailbox_made t
  obtain ⟨mb, ⟨-, heq⟩ | ⟨-, heq⟩⟩ := hmade.sched
  all_goals
    have hmod := hstarted.modify t (fun th => { th with mailbox := mb }) fun _ hready => hready
    exact hmod.congr (by rw [heq]; rfl) (by rw [heq]; rfl)
      (fun u hu => by rw [heq]; exact hmod.ready u hu) hmade.calls

theorem threadCreateEx (p : Nat) (ring : Priv) (initial : ThreadState) :
    (s.threadCreateEx L p ring initial).2.Ready := by
  rcases threadCreateEx_cases L s p ring initial with ⟨-, hsame⟩ |
    ⟨-, s₁, t, stack, lock, hsame, hlt, hle, heq⟩
  · exact h.same hsame
  · rw [heq]
    refine (h.same hsame).enroll hle (fun hmem => ?_) _ initial
    rw [hsame.sched] at hmem
    exact absurd (h.named t hmem) (by omega)

theorem pCreateEx (priv : Priv) (initial : ThreadState) :
    (s.pCreateEx L priv initial).2.Ready := by
  rcases pCreateEx_listed L s priv initial with ⟨-, hsame | hsame⟩ | ⟨s₁, p, hlisted, heq⟩
  · exact h.same hsame
  · have hbump : s.bumpPid.Ready := h.congr rfl rfl h.ready (Nat.le_refl _)
    exact hbump.same hsame
  · have hle : s.mm.kheap.calls ≤ s₁.mm.kheap.calls := hlisted.fresh.le.trans hlisted.named
    have hsched : s₁.sched = s.sched := hlisted.sched
    have hready : Ready { s₁ with procHead := p :: s₁.procHead } :=
      h.congr (congrArg Sched.order hsched) (congrArg Sched.run hsched)
        (fun t ht => (congrArg (fun z : Sched => (z.thread t).state) hsched).trans (h.ready t ht))
        hle
    have hthread := hready.threadCreateEx (L := L) p (s₁.pcb p).priv initial
    rw [heq]
    unfold startProc
    dsimp only
    generalize ProcTable.threadCreateEx L { s₁ with procHead := p :: s₁.procHead } p
        (s₁.pcb p).priv initial =
      res at hthread ⊢
    obtain ⟨ret, s₂⟩ := res
    split_ifs
    · exact hthread
    · -- whatever went wrong, the record of the process goes
      exact hthread.congr rfl rfl hthread.ready (vmmDestroy_calls L s₂.mm (s₂.pcb p).vcb).ge

/-! ## Deletion and exit -/

theorem dropThread (hrun : s.sched.run ≠ some t) : (s.dropThread t).Ready := by
  have hunlink (s : ProcTable) (h : s.Ready) (hrun : s.sched.run ≠ some t) :
      (s.unlinkThread t).Ready := by
    have hsame : (s.sched.detachWait t).run = s.sched.run ∧
        ∀ u, ((s.sched.detachWait t).thread u).state = (s.sched.thread u).state := by
      unfold Sched.detachWait
      split_ifs
      · exact ⟨rfl, fun _ => rfl⟩
      · refine ⟨rfl, fun u => ?_⟩
        rw [Sched.delist, Sched.setWaiters_thread, Sched.modify_thread]
        split_ifs with heq
        · rw [heq]
        · rfl
    have hback {u : Nat} (hu : (s.unlinkThread t).sched.run = some u) : s.sched.run = some u :=
      hsame.1.symm.trans hu
    refine ⟨⟨h.nodup.erase t, fun u hu => h.named u (List.mem_of_mem_erase hu), fun u hu => ?_⟩,
      fun u hu => (hsame.2 u).trans (h.ready u (hback hu))⟩
    exact h.nodup.mem_erase_iff.mpr ⟨fun heq => hrun (heq ▸ hback hu), h.run u (hback hu)⟩
  have hsame := archTaskContextRelease_same s (s.tcb t).parent (s.tcb t).ring (s.tcb t).stack
  exact (hunlink _ (h.same hsame) (hsame.sched.symm ▸ hrun)).same (SameTable.spinlockRelease _ _)

theorem reapThread (hrun : s.sched.run ≠ some t) : (s.reapThread t).Ready := by
  have hdrop := h.dropThread hrun
  have hclear (mb : Nat) : ((s.dropThread t).clearQueue mb).Ready := by
    unfold clearQueue
    split_ifs
    · exact hdrop
    · exact hdrop.congr rfl rfl hdrop.ready (Nat.le_refl _)
  exact ((hclear _).same (releaseMailbox_same _ _)).same (SameTable.kfree _ _)

/-- The running thread hands over to another one, which is not itself. -/
theorem handOver {next : Nat} (hnext : next ∈ s.sched.candidates t)
    (hready : (s.sched.thread next).state = .ready) :
    let s' := s.runNext t next (s.sched.modify next fun th => { th with wakePending := false })
    s'.Ready ∧ s'.sched.run ≠ some t := by
  refine ⟨h.toNamed.runNext t (Sched.mem_candidates hnext) hready, fun heq => ?_⟩
  have hnt : next = t := Option.some.inj heq
  exact Sched.not_mem_candidates h.nodup t (hnt ▸ hnext)

theorem threadDelete (tid : Nat) : (s.threadDelete tid).Ready := by
  rcases s.threadDelete_cases tid with heq | ⟨t, -, ⟨hrun, heq⟩ | ⟨s', hover, heq⟩⟩
  · rw [heq]
    exact h
  · rw [heq]
    exact h.reapThread hrun
  · obtain ⟨-, next, hnext, hready, rfl⟩ := hover
    rw [heq]
    obtain ⟨hready', hother⟩ := h.handOver hnext hready
    exact hready'.reapThread hother

theorem exitThread (hs : s.exitThread t = some s') : s'.Ready := by
  rcases exitThread_some hs with ⟨hrun, rfl⟩ | ⟨s₁, ⟨-, next, hnext, hready, rfl⟩, rfl⟩
  · exact (h.dropThread hrun).same (SameTable.kfree _ _)
  · obtain ⟨hready', hother⟩ := h.handOver hnext hready
    exact (hready'.dropThread hother).same (SameTable.kfree _ _)

theorem exitLoop (ts : List Nat) : (exitLoop ts s).2.Ready := by
  induction ts generalizing s with
  | nil => exact h
  | cons t ts ih => grind [ProcTable.exitLoop, h.exitThread]

theorem archTaskContextSwitch : s.archTaskContextSwitch.Ready := by
  unfold ProcTable.archTaskContextSwitch
  simp only [vmmSwitch_eq]
  split_ifs
  all_goals exact h.congr rfl rfl h.ready (Nat.le_refl _)

theorem procExit (L : Layout) (pid : Nat) : (s.procExit L pid).Ready := by
  unfold ProcTable.procExit
  split
  · exact h.archTaskContextSwitch
  · rename_i p hp
    have hloop := h.exitLoop (s.pcb p).tcbs
    generalize ProcTable.exitLoop (s.pcb p).tcbs s = res at hloop ⊢
    obtain ⟨_ | _, s₁⟩ := res
    · exact hloop.congr rfl rfl hloop.ready (Nat.le_refl _)
    · have hunlist : Ready { s₁ with procHead := s₁.procHead.erase p } :=
        hloop.congr rfl rfl hloop.ready (Nat.le_refl _)
      exact hunlist.archTaskContextSwitch.same (reapProc_same L _ p)

end Ready

end ProcTable

/-! ## Runs -/

namespace ProcOp

/-- Who stops running has somebody to hand over to: a thread that blocks itself, or falls asleep,
without a wakeup that is pending finds a ready one, and `proc_block` does not name the process that
runs. -/
def Relieves (s : ProcTable) : ProcOp → Prop
  | .threadBlock tid => ∀ t ∈ s.findThread tid, s.sched.run = some t →
      (s.sched.thread t).wakePending = false →
      ∃ u ∈ s.sched.candidates t, (s.sched.thread u).state = .ready
  | .sleep _ => ∀ t ∈ s.sched.run, (s.sched.thread t).waitingOn = 0 →
      (s.sched.thread t).wakePending = false →
      ∃ u ∈ s.sched.candidates t, (s.sched.thread u).state = .ready
  | .procBlock pid => ∀ p ∈ s.findProc pid, ∀ t ∈ s.sched.run, t ∉ (s.pcb p).tcbs
  | _ => True

instance decidableRelieves (s : ProcTable) : (op : ProcOp) → Decidable (op.Relieves s)
  | .threadBlock tid => inferInstanceAs (Decidable (∀ t ∈ s.findThread tid, _ → _ → _))
  | .sleep _ => inferInstanceAs (Decidable (∀ t ∈ s.sched.run, _ → _ → _))
  | .procBlock pid => inferInstanceAs (Decidable (∀ p ∈ s.findProc pid, ∀ t ∈ s.sched.run, _))
  | .procCreate _ | .threadCreate _ | .threadDelete _ | .threadUnblock _ | .threadYield
  | .procExit _ | .procUnblock _ | .wake _ | .tick _ | .gateExit => isTrue trivial

end ProcOp

/-- Processes and threads, in any order. -/
def procSystem (L : Layout) : System ProcTable ProcOp := ⟨ProcOp.exec L, fun _ _ => True⟩

/-- Processes and threads, as long as who stops running has somebody to hand over to. -/
def relievedSystem (L : Layout) : System ProcTable ProcOp :=
  ⟨ProcOp.exec L, fun s op => op.Relieves s⟩

theorem ProcTable.Ready.step {L : Layout} {s : ProcTable} (h : s.Ready) {op : ProcOp}
    (hop : op.Relieves s) : (op.exec L s).Ready := by
  unfold ProcOp.exec
  split_ifs
  · exact h
  cases op with
  | procCreate priv => exact h.pCreateEx priv .pending
  | threadCreate ring => grind [ProcOp.step, h.threadCreateEx]
  | threadDelete tid => exact h.threadDelete tid
  | threadBlock tid => exact h.threadBlock hop
  | threadUnblock tid => exact h.threadUnblock tid
  | threadYield => exact h.threadYield
  | procExit pid => exact h.procExit L pid
  | procBlock pid =>
    change (s.procBlock pid).Ready
    unfold ProcTable.procBlock
    split
    · exact h
    · rename_i p hp
      exact h.setStates true fun t ht hmem => absurd hmem (hop p hp t ht)
  | procUnblock pid =>
    change (s.procUnblock pid).Ready
    unfold ProcTable.procUnblock
    split
    · exact h
    · exact h.setStates false fun _ _ _ => rfl
  | sleep wq => exact h.waitQueueSleepLocked wq hop
  | wake wq => exact h.waitQueueWakeOne wq
  | tick locked => exact h.scheduleIsr locked
  | gateExit => exact h.archTaskContextSwitch

/-- As long as who stops running has somebody to hand over to, the thread that resumes is ready. -/
theorem resumed_thread_ready (L : Layout) (mm : Resources) (cr3 : Nat) (ops : List ProcOp)
    (hops : (relievedSystem L).Legal (.boot mm cr3) ops) :
    let s := (relievedSystem L).run (.boot mm cr3) ops
    ∀ t, s.sched.run = some t → (s.sched.thread t).state = .ready := by
  intro s
  have hready : s.Ready := System.run_invariant (I := ProcTable.Ready)
    (fun _ _ h hop => h.step hop) (ProcTable.boot_ready mm cr3) hops
  exact hready.ready

instance decidableRelieved (L : Layout) (s : ProcTable) (op : ProcOp) :
    Decidable ((relievedSystem L).enabled s op) :=
  ProcOp.decidableRelieves s op

/-- Two processes; the second one is started, and the thread of the first one blocks itself. -/
def relievedRun : List ProcOp :=
  [.procCreate .kernel, .procCreate .kernel, .procUnblock 1, .threadBlock 0, .gateExit]

theorem resumed_thread_ready_relievedRun :
    let s := (relievedSystem .documented).run (.boot (crowded 4) 0) relievedRun
    s.sched.run = some 10 ∧ (s.sched.thread 10).state = .ready := by
  intro s
  have hlegal : (relievedSystem .documented).Legal (.boot (crowded 4) 0) relievedRun := by
    decide +kernel
  have hrun : s.sched.run = some 10 := by decide +kernel
  exact ⟨hrun, resumed_thread_ready .documented (crowded 4) 0 relievedRun hlegal 10 hrun⟩

/-- A thread that blocks itself though nobody else is ready runs on, and is resumed. -/
theorem blocked_thread_runs :
    let s := (procSystem .documented).run (.boot (crowded 4) 0)
      [.procCreate .kernel, .threadBlock 0, .gateExit]
    s.sched.run = some 4 ∧ (s.sched.thread 4).state = .pending := by
  decide +kernel

end Ukernel.Kernel
