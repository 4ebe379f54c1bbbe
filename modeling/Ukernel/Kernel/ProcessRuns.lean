import Ukernel.Kernel.ProcessHeap

/-!
# The structures of the scheduler are consistent

Whatever is created, fails to be created, is deleted, exits or is scheduled: the lists of threads
and processes agree, their records are live, identifiers are distinct, and somebody runs.

## Main definitions

* `ProcTable.Known`: a thread that some structure of the scheduler refers to
* `ProcTable.Consistent`: every such thread is linked where it should be, once
* `ProcTable.Busy`: somebody runs where there are threads

## Main results

* `scheduler_structures_consistent`: in every run
-/

namespace Ukernel.Kernel

open Arch Lib Machine Mm Sync

namespace ProcTable

variable {L : Layout} {s s' : ProcTable} {p t : Nat}

/-! ## Somebody runs -/

/-- Some thread runs where there are threads. -/
def Busy (s : ProcTable) : Prop := s.sched.run = none → s.sched.order = []

/-- Where nobody runs, nobody has run before, and threads have come from nowhere. -/
structure Wakes (s s' : ProcTable) : Prop where
  run : s'.sched.run = none → s.sched.run = none
  order : s'.sched.run = none → s.sched.order = [] → s'.sched.order = []

namespace Wakes

theorem refl (s : ProcTable) : Wakes s s := ⟨id, fun _ => id⟩

theorem trans {s'' : ProcTable} (h : Wakes s s') (h' : Wakes s' s'') : Wakes s s'' :=
  ⟨h.run ∘ h'.run, fun hnone horder => h'.order hnone (h.order (h'.run hnone) horder)⟩

theorem same (hs : SameTable s s') : Wakes s s' := by
  refine ⟨fun hnone => ?_, fun _ horder => ?_⟩
  · rwa [hs.sched] at hnone
  · rwa [hs.sched]

theorem calm (hs : Calm s s') : Wakes s s' :=
  ⟨hs.run, fun _ horder => hs.threads.order.trans horder⟩

/-- A thread that is made runs, or another one does. -/
theorem enroll (s : ProcTable) (t : Nat) (f : TcbFields) (initial : ThreadState) :
    Wakes s (s.enroll t f initial) := by
  have hrun : (s.enroll t f initial).sched.run ≠ none := by
    have hbox (s₁ : ProcTable) : (s₁.giveMailbox t).sched.run = s₁.sched.run := by
      obtain ⟨mb, ⟨-, heq⟩ | ⟨-, heq⟩⟩ := (s₁.giveMailbox_made t).sched
      all_goals
        rw [heq]
        rfl
    unfold ProcTable.enroll
    rw [hbox]
    split_ifs with hnone
    · unfold startFirst
      rw [vmmSwitch_eq]
      exact Option.some_ne_none t
    · exact hnone
  exact ⟨fun hnone => absurd hnone hrun, fun hnone => absurd hnone hrun⟩

theorem threadCreateEx (L : Layout) (s : ProcTable) (p : Nat) (ring : Priv)
    (initial : ThreadState) : Wakes s (s.threadCreateEx L p ring initial).2 := by
  rcases threadCreateEx_cases L s p ring initial with ⟨-, hsame⟩ |
    ⟨-, s₁, t, stack, lock, hsame, -, -, heq⟩
  · exact same hsame
  · rw [heq]
    exact (same hsame).trans (enroll s₁ t _ initial)

theorem pCreateEx (priv : Priv) (initial : ThreadState) (hcount : s.nextTid < 2 ^ 31) :
    Wakes s (s.pCreateEx L priv initial).2 := by
  have hbump : Wakes s s.bumpPid := ⟨id, fun _ => id⟩
  rcases pCreateEx_cases L s priv initial hcount with ⟨-, hsame | hsame⟩ |
    ⟨s₁, p, hlisted, -, heq⟩
  · exact same hsame
  · exact hbump.trans (same hsame)
  · rw [heq]
    have hlist : Wakes s s₁ := by
      refine ⟨fun hnone => ?_, fun _ horder => ?_⟩
      · rwa [hlisted.sched] at hnone
      · rwa [hlisted.sched]
    exact hlist.trans (threadCreateEx L s₁ p priv initial)

/-- A thread that does not run leaves. -/
theorem unlinkThread (s : ProcTable) (t : Nat) : Wakes s (s.unlinkThread t) := by
  have hrun : (s.sched.unlink t).run = s.sched.run := by
    change (s.sched.detachWait t).run = _
    unfold Sched.detachWait
    split_ifs <;> rfl
  refine ⟨fun hnone => hrun.symm.trans hnone, fun _ horder => ?_⟩
  change s.sched.order.erase t = []
  rw [horder]
  rfl

theorem clearQueue (s : ProcTable) (mb : Nat) : Wakes s (s.clearQueue mb) := by
  unfold ProcTable.clearQueue
  split_ifs
  · exact refl s
  · exact ⟨id, fun _ => id⟩

variable (hl : s.Linked)

include hl

theorem reapThread (ht : t ∈ s.sched.order) : Wakes s (s.reapThread t) :=
  ((unlinkThread s t).trans (clearQueue _ _)).trans (same (reapThread_same (hl.parent_le ht)))

theorem threadDelete (tid : Nat) : Wakes s (s.threadDelete tid) := by
  rcases s.threadDelete_cases tid with heq | ⟨t, ht, hgone⟩
  · rw [heq]
    exact refl s
  have hmem := Linked.mem_of_findThread ht
  rcases hgone with ⟨-, heq⟩ | ⟨s', ⟨-, next, hnext, -, rfl⟩, heq⟩
  · rw [heq]
    exact reapThread hl hmem
  · rw [heq]
    obtain ⟨hlinked, -⟩ := hl.handOver hnext
    exact (calm (Calm.runNext s t next)).trans (reapThread hlinked hmem)

theorem exitThread (ht : t ∈ s.sched.order) (hs : s.exitThread t = some s') :
    Wakes s s' := by
  rcases hl.exitThread_cases ht hs with ⟨-, hsame⟩ | ⟨-, next, -, -, hsame⟩
  · exact (unlinkThread s t).trans (same hsame)
  · exact ((calm (Calm.runNext s t next)).trans (unlinkThread _ t)).trans (same hsame)

theorem exitLoop (hp : p ∈ s.procHead) {ts : List Nat} (hts : (s.pcb p).tcbs = ts) :
    Wakes s (exitLoop ts s).2 := by
  induction ts generalizing s with
  | nil => exact refl s
  | cons t ts ih =>
    obtain ⟨hmem, hparent⟩ := hl.child p hp t (hts ▸ List.mem_cons_self)
    unfold ProcTable.exitLoop
    cases hs : s.exitThread t with
    | none => exact refl s
    | some s' =>
      obtain ⟨hlinked, hprocs, htcbs⟩ := hl.exitThread hmem hs
      rw [hparent, hts, List.erase_cons_head] at htcbs
      exact (exitThread hl hmem hs).trans (ih hlinked (hprocs.symm ▸ hp) htcbs)

theorem procExit (L : Layout) (pid : Nat) : Wakes s (s.procExit L pid) := by
  unfold ProcTable.procExit
  split
  · exact calm (Calm.archTaskContextSwitch s)
  · rename_i p hp
    have hloop := exitLoop hl (List.mem_of_find?_eq_some hp) rfl
    generalize ProcTable.exitLoop (s.pcb p).tcbs s = res at hloop ⊢
    obtain ⟨_ | _, s₁⟩ := res
    · exact ⟨hloop.run, hloop.order⟩
    · have hunlist : Wakes s { s₁ with procHead := s₁.procHead.erase p } :=
        ⟨hloop.run, hloop.order⟩
      exact (hunlist.trans (calm (Calm.archTaskContextSwitch _))).trans
        (same (reapProc_same L _ p))

theorem step {op : ProcOp} (hop : op.Counted s) : Wakes s (op.exec L s) := by
  unfold ProcOp.exec
  split_ifs
  · exact refl s
  cases op with
  | procCreate priv => exact pCreateEx priv .pending hop.1
  | threadCreate ring =>
    unfold ProcOp.step
    cases s.sched.run with
    | none => exact refl s
    | some t => exact threadCreateEx L s _ ring .pending
  | threadDelete tid => exact threadDelete hl tid
  | procExit pid => exact procExit hl L pid
  | threadBlock _ | threadUnblock _ | threadYield | procBlock _ | procUnblock _ | sleep _ | wake _
  | tick _ | gateExit => exact calm (Calm.step L s trivial)

end Wakes

/-! ## Consistency -/

/-- The thread is one that some structure of the scheduler refers to. -/
def Known (s : ProcTable) (t : Nat) : Prop :=
  t ∈ s.sched.order ∨ (∃ p ∈ s.procHead, t ∈ (s.pcb p).tcbs) ∨ s.sched.run = some t ∨
    ∃ wq, t ∈ s.sched.waiters wq

/-- Every thread that is referred to is live and linked once in `thread_head` and once in the list
of its process and in no other; its process is live and linked once; and identifiers are distinct.
-/
structure Consistent (s : ProcTable) : Prop where
  thread : ∀ t, s.Known t → t ∈ s.mm.kheap.live ∧ s.sched.order.count t = 1 ∧
    (s.pcb (s.tcb t).parent).tcbs.count t = 1 ∧ (s.tcb t).parent ∈ s.procHead ∧
    ∀ p ∈ s.procHead, p ≠ (s.tcb t).parent → t ∉ (s.pcb p).tcbs
  proc : ∀ p ∈ s.procHead, p ∈ s.mm.kheap.live ∧ s.procHead.count p = 1 ∧ p ∉ s.sched.order
  tids : ∀ t ∈ s.sched.order, ∀ u ∈ s.sched.order, (s.tcb t).tid = (s.tcb u).tid → t = u
  pids : ∀ p ∈ s.procHead, ∀ q ∈ s.procHead, (s.pcb p).pid = (s.pcb q).pid → p = q

theorem Linked.known (h : s.Linked) (ht : s.Known t) : t ∈ s.sched.order := by
  rcases ht with ht | ⟨p, hp, ht⟩ | ht | ⟨wq, ht⟩
  · exact ht
  · exact (h.child p hp t ht).1
  · exact h.run ht
  · exact h.sched.live wq t ht

theorem Linked.consistent (h : s.Linked) (hh : s.Housed []) : s.Consistent := by
  have hdisj : s.sched.order.Disjoint s.procHead := List.disjoint_of_nodup_append hh.nodup
  refine ⟨fun t ht => ?_, fun p hp => ?_, h.tids, h.pids⟩
  · have hmem := h.known ht
    obtain ⟨hproc, hin⟩ := h.parent t hmem
    refine ⟨hh.live t (List.mem_append_right [] (List.mem_append_left _ hmem)),
      List.count_eq_one_of_mem h.sched.nodup hmem,
      List.count_eq_one_of_mem (h.tcbs _ hproc) hin, hproc, fun p hp hne hin' => ?_⟩
    exact hne (h.child p hp t hin').2.symm
  · exact ⟨hh.live p (List.mem_append_right [] (List.mem_append_right _ hp)),
      List.count_eq_one_of_mem h.procs hp, fun hmem => hdisj hmem hp⟩

end ProcTable

namespace ProcOp

/-- Who falls asleep does so at a wait queue that does not go with somebody else. -/
def Grounded (s : ProcTable) : ProcOp → Prop
  | .sleep wq => ∀ t ∈ s.sched.order, (s.sched.thread t).mailbox = wq → s.sched.run = some t
  | _ => True

instance decidableGrounded (s : ProcTable) : (op : ProcOp) → Decidable (op.Grounded s)
  | .sleep wq => inferInstanceAs (Decidable (∀ t ∈ s.sched.order,
      (s.sched.thread t).mailbox = wq → s.sched.run = some t))
  | .procCreate _ | .threadCreate _ | .threadDelete _ | .threadBlock _ | .threadUnblock _
  | .threadYield | .procExit _ | .procBlock _ | .procUnblock _ | .wake _ | .tick _
  | .gateExit => isTrue trivial

end ProcOp

/-- Processes and threads, with counters that do not come round. -/
def countedSystem (L : Layout) : System ProcTable ProcOp :=
  ⟨ProcOp.exec L, fun s op => op.Counted s ∧ op.Grounded s⟩

instance decidableCountedSystem (L : Layout) (s : ProcTable) (op : ProcOp) :
    Decidable ((countedSystem L).enabled s op) :=
  inferInstanceAs (Decidable (op.Counted s ∧ op.Grounded s))

/-- What the structures keep. -/
structure ProcTable.Steady (s : ProcTable) : Prop where
  linked : s.Linked
  housed : s.Housed []
  busy : s.Busy

theorem ProcTable.Steady.run {L : Layout} {s : ProcTable} {ops : List ProcOp} (h : s.Steady)
    (hops : (countedSystem L).Legal s ops) : ((countedSystem L).run s ops).Steady := by
  refine System.run_invariant (fun s op h hop => ?_) h hops
  have hwakes : Wakes s (op.exec L s) := Wakes.step h.linked hop.1
  exact ⟨h.linked.step hop.1, h.housed.step h.linked hop.1,
    fun hnone => hwakes.order hnone (h.busy (hwakes.run hnone))⟩

/-- Once somebody runs, somebody runs. -/
theorem ProcTable.Steady.run_ne_none {L : Layout} {s : ProcTable} {ops : List ProcOp}
    (h : s.Steady) (hrun : s.sched.run ≠ none) (hops : (countedSystem L).Legal s ops) :
    ((countedSystem L).run s ops).sched.run ≠ none := by
  induction ops generalizing s with
  | nil => exact hrun
  | cons op ops ih =>
    have hstep : ((countedSystem L).run s [op]).Steady := h.run ⟨hops.1, trivial⟩
    refine ih hstep (fun hnone => ?_) hops.2
    exact hrun ((Wakes.step h.linked hops.1.1).run hnone)

/-- Once there is a thread, everything that the structures of the scheduler refer to is live and
linked once, identifiers are distinct, and the running thread is one of the threads. -/
theorem scheduler_structures_consistent (L : Layout) (mm : Resources) (cr3 : Nat)
    (ops ops' : List ProcOp) (hops : (countedSystem L).Legal (.boot mm cr3) ops)
    (hfirst : ((countedSystem L).run (.boot mm cr3) ops).sched.order ≠ [])
    (hops' : (countedSystem L).Legal ((countedSystem L).run (.boot mm cr3) ops) ops') :
    let s := (countedSystem L).run ((countedSystem L).run (.boot mm cr3) ops) ops'
    s.Consistent ∧ ∃ t ∈ s.sched.order, s.sched.run = some t := by
  have hboot : (ProcTable.boot mm cr3).Steady :=
    ⟨ProcTable.boot_linked mm cr3, ProcTable.boot_housed mm cr3, fun _ => rfl⟩
  have hsteady := hboot.run hops
  intro s
  have hs : s.Steady := hsteady.run hops'
  have hrun : s.sched.run ≠ none :=
    hsteady.run_ne_none (fun hnone => hfirst (hsteady.busy hnone)) hops'
  obtain ⟨t, ht⟩ := Option.ne_none_iff_exists'.mp hrun
  exact ⟨hs.linked.consistent hs.housed, t, hs.linked.run ht, ht⟩

/-- A second process comes, its two threads run, and the first thread goes. -/
def changeOfGuard : List ProcOp :=
  [.procCreate .kernel, .procUnblock 1, .threadYield, .gateExit, .threadCreate .kernel,
    .threadUnblock 2, .threadDelete 0, .threadYield]

theorem scheduler_structures_consistent_changeOfGuard :
    let s₁ := (countedSystem .documented).run (.boot (crowded 4) 0) [.procCreate .kernel]
    let s := (countedSystem .documented).run s₁ changeOfGuard
    s.sched.order = [13, 10] ∧ s.Consistent ∧ ∃ t ∈ s.sched.order, s.sched.run = some t := by
  have hfirst : (countedSystem .documented).Legal (.boot (crowded 4) 0) [.procCreate .kernel] := by
    decide +kernel
  have hrest : (countedSystem .documented).Legal
      ((countedSystem .documented).run (.boot (crowded 4) 0) [.procCreate .kernel])
      changeOfGuard := by
    decide +kernel
  have hthread : ((countedSystem .documented).run (.boot (crowded 4) 0)
      [.procCreate .kernel]).sched.order ≠ [] := by
    decide +kernel
  have horder : ((countedSystem .documented).run ((countedSystem .documented).run
      (.boot (crowded 4) 0) [.procCreate .kernel]) changeOfGuard).sched.order = [13, 10] := by
    decide +kernel
  exact ⟨horder, scheduler_structures_consistent .documented (crowded 4) 0 [.procCreate .kernel]
    changeOfGuard hfirst hthread hrest⟩

end Ukernel.Kernel
