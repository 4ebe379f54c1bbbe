import Ukernel.Kernel.ProcessSwitch
import Ukernel.Mm.VmmBlocks

/-!
# The records of processes and threads on the kernel heap

The records that are linked are blocks of the kernel heap, and the functions that link them also
allocate and free other blocks: stacks, mailboxes, capabilities, the trees of address spaces and
their nodes. A record that is linked is never freed, since a block is freed only by who holds it,
and nothing that is held otherwise is a record.

## How blocks change hands

A block that has been requested and not yet linked is in the hands of the code that runs. `Housed`
has a list of these: `kmalloc` puts a block there, linking it or giving it to a record takes it out
again, and so does `kfree`. So the paths on which a creation fails need no argument of their own.

## Main definitions

* `ProcTable.Calm`: a step of the scheduler, which the heap does not see
* `ProcTable.Held`: the block belongs to a record
* `ProcTable.Housed`: the records are live, and nothing that is held is a record

## Main results

* `ProcTable.Housed.step`: every step keeps it
-/

namespace Ukernel.Mm

open Kernel Resources

theorem mem_kmalloc_live {mm : Resources} {x : Nat} (hx : x ∈ mm.kheap.live) :
    x ∈ mm.kmalloc.2.kheap.live := by
  by_cases h : mm.kmalloc.1 = 0
  · rwa [kmalloc_live_of_zero h]
  · rw [kmalloc_live h]
    exact List.mem_cons_of_mem _ hx

end Ukernel.Mm

namespace Ukernel.Kernel

open Arch Lib Machine Mm Sync

/-- The step neither creates nor deletes anything. -/
def ProcOp.Schedules : ProcOp → Prop
  | .procCreate _ | .threadCreate _ | .threadDelete _ | .procExit _ => False
  | _ => True

namespace ProcTable

variable {L : Layout} {s s' s'' : ProcTable} {p t x : Nat} {e e' : List Nat} {ring : Priv}

/-! ## Steps of the scheduler -/

/-- The scheduler has changed who runs, who may run and who waits. -/
structure Calm (s s' : ProcTable) : Prop where
  mm : s'.mm = s.mm
  threads : s.sched.SameThreads s'.sched
  tcb : s'.tcb = s.tcb
  procHead : s'.procHead = s.procHead
  pcb : ∀ q, s'.pcb q = { s.pcb q with blocked := (s'.pcb q).blocked }
  boxLock : s'.boxLock = s.boxLock
  nextTid : s'.nextTid = s.nextTid
  nextPid : s'.nextPid = s.nextPid
  run : s'.sched.run = none → s.sched.run = none

namespace Calm

theorem refl (s : ProcTable) : Calm s s :=
  ⟨rfl, Sched.SameThreads.refl _, rfl, rfl, fun _ => rfl, rfl, rfl, rfl, id⟩

theorem trans (h : Calm s s') (h' : Calm s' s'') : Calm s s'' := by
  refine ⟨h'.mm.trans h.mm, h.threads.trans h'.threads, h'.tcb.trans h.tcb,
    h'.procHead.trans h.procHead, fun q => ?_, h'.boxLock.trans h.boxLock,
    h'.nextTid.trans h.nextTid, h'.nextPid.trans h.nextPid, h.run ∘ h'.run⟩
  have hq := h'.pcb q
  rw [h.pcb q] at hq
  exact hq

theorem withSched {sched : Sched} (h : s.sched.SameThreads sched)
    (hrun : sched.run = s.sched.run) : Calm s (s.withSched sched) :=
  ⟨rfl, h, rfl, rfl, fun _ => rfl, rfl, rfl, rfl, hrun.symm.trans⟩

theorem runNext (s : ProcTable) (old next : Nat) :
    Calm s (s.runNext old next (s.sched.modify next fun th => { th with wakePending := false })) :=
  ⟨rfl, (s.sched.sameWaits_switchTo next).sameThreads, rfl, rfl, fun _ => rfl, rfl, rfl, rfl,
    fun hrun => nomatch hrun⟩

theorem threadYield (s : ProcTable) : Calm s s.threadYield := by
  unfold ProcTable.threadYield
  cases hrun : s.sched.run with
  | none => exact refl s
  | some old =>
    dsimp only
    rcases s.sched.findNextRunnable_cases old with ⟨-, heq⟩ | ⟨next, -, -, heq⟩
    · rw [heq]
      exact refl s
    · rw [heq]
      exact runNext s old next

theorem scheduleIsr (s : ProcTable) (locked : Bool) : Calm s (s.scheduleIsr locked) := by
  unfold ProcTable.scheduleIsr
  dsimp only
  have hslice (timeslice : Nat) : Calm s { s with timeslice } :=
    ⟨rfl, Sched.SameThreads.refl _, rfl, rfl, fun _ => rfl, rfl, rfl, rfl, id⟩
  split_ifs
  · exact hslice _
  · exact hslice _
  · exact (hslice 0).trans (threadYield _)

theorem modify (s : ProcTable) (t : Nat) (f : Thread → Thread) (hpid : ∀ th, (f th).pid = th.pid)
    (hbox : ∀ th, (f th).mailbox = th.mailbox) : Calm s (s.withSched (s.sched.modify t f)) :=
  withSched (Sched.sameThreads_modify hpid hbox) rfl

theorem blockThread (s : ProcTable) (t : Nat) : Calm s (s.blockThread t) := by
  unfold ProcTable.blockThread
  dsimp only
  have hpending : Calm s (s.withSched (s.sched.modify t fun th => { th with state := .pending })) :=
    modify s t _ (fun _ => rfl) fun _ => rfl
  split_ifs
  · exact modify s t _ (fun _ => rfl) fun _ => rfl
  · exact hpending.trans (threadYield _)
  · exact hpending

theorem threadBlock (s : ProcTable) (tid : Nat) : Calm s (s.threadBlock tid) := by
  unfold ProcTable.threadBlock
  split_ifs
  · exact refl s
  · split
    · exact refl s
    · exact blockThread s _

theorem threadUnblock (s : ProcTable) (tid : Nat) : Calm s (s.threadUnblock tid) := by
  unfold ProcTable.threadUnblock
  split_ifs
  · exact refl s
  · split
    · exact refl s
    · exact modify s _ _ (fun _ => rfl) fun _ => rfl

theorem waitQueueSleepLocked (s : ProcTable) (wq : Nat) : Calm s (s.waitQueueSleepLocked wq) := by
  unfold ProcTable.waitQueueSleepLocked
  cases s.sched.run with
  | none => exact refl s
  | some run =>
    dsimp only
    split
    · exact refl s
    · split_ifs
      · exact refl s
      · exact (withSched (s.sched.sameThreads_enlist _ wq) rfl).trans (threadBlock _ _)

theorem waitQueueWakeOne (s : ProcTable) (wq : Nat) : Calm s (s.waitQueueWakeOne wq) := by
  unfold ProcTable.waitQueueWakeOne
  split
  · exact refl s
  · exact (withSched (s.sched.sameThreads_delist _ wq) rfl).trans (threadUnblock _ _)

theorem setStates (s : ProcTable) (p : Nat) (blocked : Bool) (state : ThreadState) :
    Calm s (s.setStates p blocked state) := by
  have hloop (ts : List Nat) (sched : Sched) :
      let sched' := ts.foldl (fun sched t => sched.modify t fun th => { th with state }) sched
      sched.SameThreads sched' ∧ sched'.run = sched.run := by
    induction ts generalizing sched with
    | nil => exact ⟨Sched.SameThreads.refl sched, rfl⟩
    | cons t ts ih =>
      have hstep : sched.SameThreads (sched.modify t fun th => { th with state }) :=
        Sched.sameThreads_modify (fun _ => rfl) fun _ => rfl
      obtain ⟨h₁, h₂⟩ := ih (sched.modify t fun th => { th with state })
      exact ⟨hstep.trans h₁, h₂⟩
  refine ⟨rfl, (hloop _ _).1, rfl, rfl, fun q => ?_, rfl, rfl, rfl, (hloop _ _).2.symm.trans⟩
  have hpcb : (s.setStates p blocked state).pcb q =
    Function.update s.pcb p { s.pcb p with blocked } q := rfl
  rw [hpcb]
  by_cases hq : q = p
  · rw [hq, Function.update_self]
  · rw [Function.update_of_ne hq]

theorem archTaskContextSwitch (s : ProcTable) : Calm s s.archTaskContextSwitch := by
  rw [Paired.archTaskContextSwitch_eq]
  exact ⟨rfl, Sched.SameThreads.refl _, rfl, rfl, fun _ => rfl, rfl, rfl, rfl, id⟩

theorem procBlock (s : ProcTable) (pid : Nat) : Calm s (s.procBlock pid) := by
  unfold ProcTable.procBlock
  split
  · exact refl s
  · exact setStates s _ _ _

theorem procUnblock (s : ProcTable) (pid : Nat) : Calm s (s.procUnblock pid) := by
  unfold ProcTable.procUnblock
  split
  · exact refl s
  · exact setStates s _ _ _

end Calm

theorem Calm.step (L : Layout) (s : ProcTable) {op : ProcOp} (h : op.Schedules) :
    Calm s (op.step L s) := by
  cases op with
  | procCreate _ | threadCreate _ | threadDelete _ | procExit _ => exact absurd h id
  | threadBlock tid => exact Calm.threadBlock s tid
  | threadUnblock tid => exact Calm.threadUnblock s tid
  | threadYield => exact Calm.threadYield s
  | procBlock pid => exact Calm.procBlock s pid
  | procUnblock pid => exact Calm.procUnblock s pid
  | sleep wq => exact Calm.waitQueueSleepLocked s wq
  | wake wq => exact Calm.waitQueueWakeOne s wq
  | tick locked => exact Calm.scheduleIsr s locked
  | gateExit => exact Calm.archTaskContextSwitch s

/-! ## What is held -/

/-- The block of a stack in the kernel. -/
def stackBlocks : (ring : Priv) → (stack : Nat) → List Nat
  | .kernel, stack => [stack]
  | .user, _ => []

/-- The blocks of a thread besides its record. -/
def threadBlocks (s : ProcTable) (t : Nat) : List Nat :=
  stackBlocks (s.tcb t).ring (s.tcb t).stack ++
    if (s.sched.thread t).mailbox = 0 then [] else [(s.sched.thread t).mailbox]

/-- The block belongs to a process and is not its record. -/
def ProcHolds (s : ProcTable) (p x : Nat) : Prop :=
  (s.pcb p).vcb.Holds x ∨ x ∈ (s.pcb p).capabilities.map Capability.addr

/-- The block belongs to a record that is linked. -/
def Held (s : ProcTable) (x : Nat) : Prop :=
  (∃ p ∈ s.procHead, s.ProcHolds p x) ∨ ∃ t ∈ s.sched.order, x ∈ s.threadBlocks t

/-- The records that are linked, and the blocks in the hands of the code that runs. -/
def records (s : ProcTable) (e : List Nat) : List Nat := e ++ (s.sched.order ++ s.procHead)

/-- The records are live and distinct, and nothing that is held is a record. -/
structure Housed (e : List Nat) (s : ProcTable) : Prop where
  trees : ∀ p ∈ s.procHead, (s.pcb p).vcb.Ok s.mm.kheap.calls
  nodup : (s.records e).Nodup
  live : ∀ x ∈ s.records e, x ∈ s.mm.kheap.live
  named : ∀ x ∈ s.records e, x ≤ s.mm.kheap.calls
  held : ∀ x, s.Held x → x ≤ s.mm.kheap.calls
  apart : ∀ x ∈ s.records e, ¬s.Held x

namespace Housed

/-- Records are old or new, and what is held has been held, is new, or has been in hand. -/
theorem frame (h : s.Housed e) (hcalls : s.mm.kheap.calls ≤ s'.mm.kheap.calls)
    (htrees : ∀ p ∈ s'.procHead, (s'.pcb p).vcb.Ok s'.mm.kheap.calls)
    (hnodup : (s'.records e').Nodup)
    (hrec : ∀ x ∈ s'.records e', x ∈ s'.mm.kheap.live ∧
      (x ∈ s.records e ∨ s.mm.kheap.calls < x ∧ x ≤ s'.mm.kheap.calls))
    (hheld : ∀ x, s'.Held x → s.Held x ∨ x ≤ s'.mm.kheap.calls ∧ x ∉ s'.records e') :
    s'.Housed e' := by
  refine ⟨htrees, hnodup, fun x hx => (hrec x hx).1, fun x hx => ?_, fun x hx => ?_,
    fun x hx hx' => ?_⟩
  · rcases (hrec x hx).2 with hold | ⟨-, hle⟩
    · exact (h.named x hold).trans hcalls
    · exact hle
  · rcases hheld x hx with hold | ⟨hle, -⟩
    · exact (h.held x hold).trans hcalls
    · exact hle
  · rcases hheld x hx' with hheld | ⟨-, hnot⟩
    · rcases (hrec x hx).2 with hold | ⟨hlt, -⟩
      · exact h.apart x hold hheld
      · exact absurd (h.held x hheld) (by omega)
    · exact hnot hx

/-- Nothing has changed hands but blocks that were in hand; they may have become mailboxes. -/
theorem relabel (e' : List Nat) (h : s.Housed (e' ++ e)) (hmm : s'.mm = s.mm)
    (htcb : s'.tcb = s.tcb) (hproc : s'.procHead = s.procHead)
    (hpcb : ∀ q, (s'.pcb q).vcb = (s.pcb q).vcb ∧
      (s'.pcb q).capabilities = (s.pcb q).capabilities)
    (horder : s'.sched.order = s.sched.order)
    (hbox : ∀ u, (s'.sched.thread u).mailbox = (s.sched.thread u).mailbox ∨
      (s'.sched.thread u).mailbox = 0 ∨ (s'.sched.thread u).mailbox ∈ e') :
    s'.Housed e := by
  have hrec : s'.records e = s.records e := by
    unfold records
    rw [horder, hproc]
  have hsplit : s.records (e' ++ e) = e' ++ s.records e := List.append_assoc _ _ _
  have hnodup := h.nodup
  rw [hsplit] at hnodup
  refine h.frame (by rw [hmm]) (fun p hp => ?_) (hrec ▸ hnodup.of_append_right) (fun x hx => ?_)
    fun x hx => ?_
  · rw [hmm, (hpcb p).1]
    exact h.trees p (hproc ▸ hp)
  · grind [h.live]
  · rcases hx with ⟨p, hp, hx⟩ | ⟨u, hu, hx⟩
    · refine Or.inl (Or.inl ⟨p, hproc ▸ hp, ?_⟩)
      unfold ProcHolds at hx ⊢
      rwa [(hpcb p).1, (hpcb p).2] at hx
    · rw [horder] at hu
      unfold threadBlocks at hx
      rw [htcb] at hx
      rcases List.mem_append.mp hx with hx | hx
      · exact Or.inl (Or.inr ⟨u, hu, List.mem_append_left _ hx⟩)
      · split_ifs at hx with hzero
        · exact absurd hx List.not_mem_nil
        · rw [List.mem_singleton] at hx
          rcases hbox u with hsame | hnone | hmem
          · refine Or.inl (Or.inr ⟨u, hu, List.mem_append_right _ ?_⟩)
            rw [if_neg (hsame ▸ hzero), List.mem_singleton]
            exact hx.trans hsame
          · exact absurd hnone hzero
          · -- the mailbox has been in hand
            rw [← hx] at hmem
            refine Or.inr ⟨?_, fun hx' => ?_⟩
            · rw [hmm]
              exact h.named x (hsplit ▸ List.mem_append_left _ hmem)
            · grind

theorem calm (h : s.Housed e) (hs : Calm s s') : s'.Housed e :=
  relabel [] h hs.mm hs.tcb hs.procHead
    (fun q => ⟨by rw [hs.pcb q], by rw [hs.pcb q]⟩) hs.threads.order
    fun u => Or.inl (hs.threads.mailbox u)

/-- A block in hand is forgotten. -/
theorem forget (h : s.Housed (x :: e)) : s.Housed e :=
  relabel [x] h rfl rfl rfl (fun _ => ⟨rfl, rfl⟩) rfl fun _ => Or.inl rfl

/-- A block that is not a record goes back. -/
theorem kfree (h : s.Housed e) (hx : x ∉ s.records e) : (s.kfree x).Housed e := by
  refine h.frame (Nat.le_refl _) h.trees h.nodup (fun y hy => ⟨?_, Or.inl hy⟩)
    fun y hy => Or.inl hy
  have hne : y ≠ x := fun heq => hx (heq ▸ hy)
  exact (List.mem_erase_of_ne hne).mpr (h.live y hy)

/-- A block in hand goes back. -/
theorem kfree_hand (h : s.Housed (x :: e)) : (s.kfree x).Housed e :=
  h.forget.kfree (List.nodup_cons.mp h.nodup).1

section

variable (h : s.Housed e)

include h

/-- The heap plays no part. -/
theorem withMm {mm : Resources} (hk : mm.kheap = s.mm.kheap) :
    (s.withMm mm).Housed e := by
  have hcalls : mm.kheap.calls = s.mm.kheap.calls := by rw [hk]
  refine h.frame hcalls.ge (fun p hp => ?_) h.nodup (fun x hx => ⟨?_, Or.inl hx⟩)
    fun x hx => Or.inl hx
  · exact hcalls.symm ▸ h.trees p hp
  · change x ∈ mm.kheap.live
    rw [hk]
    exact h.live x hx

theorem spinlockRelease (i : Nat) : (s.spinlockRelease i).Housed e := h.withMm rfl

theorem spinlockAlloc : (s.withMm s.mm.spinlockAlloc.2).Housed e :=
  h.withMm (spinlockAlloc_kheap s.mm)

/-- A request; if there is an answer, it is in hand. -/
theorem kmalloc : (s.withMm s.mm.kmalloc.2).Housed e ∧
    (s.mm.kmalloc.1 ≠ 0 → (s.withMm s.mm.kmalloc.2).Housed (s.mm.kmalloc.1 :: e)) := by
  have hcalls := kmalloc_calls s.mm
  have hle : s.mm.kheap.calls ≤ s.mm.kmalloc.2.kheap.calls := hcalls ▸ Nat.le_succ _
  refine ⟨h.frame hle (fun p hp => (h.trees p hp).mono hle) h.nodup
    (fun x hx => ⟨mem_kmalloc_live (h.live x hx), Or.inl hx⟩) fun x hx => Or.inl hx, fun hne => ?_⟩
  have hname : s.mm.kmalloc.1 = s.mm.kheap.calls + 1 := Arena.kmalloc_name hne
  refine h.frame hle (fun p hp => (h.trees p hp).mono hle) ?_ (fun x hx => ?_) fun x hx => Or.inl hx
  · refine List.nodup_cons.mpr ⟨fun hmem => ?_, h.nodup⟩
    exact absurd (h.named _ hmem) (by omega)
  · rcases List.mem_cons.mp hx with rfl | hx
    · refine ⟨?_, Or.inr ⟨by omega, ?_⟩⟩
      · change s.mm.kmalloc.1 ∈ s.mm.kmalloc.2.kheap.live
        rw [kmalloc_live hne]
        exact List.mem_cons_self
      · change s.mm.kmalloc.1 ≤ s.mm.kmalloc.2.kheap.calls
        omega
    · exact ⟨mem_kmalloc_live (h.live x hx), Or.inl hx⟩

/-- An operation on the address space of a process that is listed. -/
theorem withSpace (hp : p ∈ s.procHead) {mm : Resources} {vcb : Vcb}
    (hs : Blocks s.mm (s.pcb p).vcb mm vcb) : (s.withSpace p mm vcb).Housed e := by
  have hself : (s.withSpace p mm vcb).pcb p = { s.pcb p with vcb } := Function.update_self _ _ _
  have hother {q : Nat} (hq : q ≠ p) : (s.withSpace p mm vcb).pcb q = s.pcb q :=
    Function.update_of_ne hq _ _
  have hfree {x : Nat} (hx : x ∈ s.records e) : ¬(s.pcb p).vcb.Holds x := fun hholds =>
    h.apart x hx (Or.inl ⟨p, hp, Or.inl hholds⟩)
  refine h.frame hs.calls (fun q hq => ?_) h.nodup
    (fun x hx => ⟨hs.live x (h.named x hx) (hfree hx) (h.live x hx), Or.inl hx⟩) fun x hx => ?_
  · by_cases heq : q = p
    · rw [heq, hself]
      exact hs.ok
    · rw [hother heq]
      exact (h.trees q hq).mono hs.calls
  · rcases hx with ⟨q, hq, hx⟩ | ⟨u, hu, hx⟩
    · by_cases heq : q = p
      · unfold ProcHolds at hx
        rw [heq, hself] at hx
        rcases hx with hx | hx
        · rcases hs.holds x hx with hx | ⟨hlt, hle⟩
          · exact Or.inl (Or.inl ⟨p, hp, Or.inl hx⟩)
          · exact Or.inr ⟨hle, fun hrec => absurd (h.named x hrec) (by omega)⟩
        · exact Or.inl (Or.inl ⟨p, hp, Or.inr hx⟩)
      · unfold ProcHolds at hx
        rw [hother heq] at hx
        exact Or.inl (Or.inl ⟨q, hq, hx⟩)
    · exact Or.inl (Or.inr ⟨u, hu, hx⟩)

/-! ## Creation -/

/-- A context is made; the stack of a kernel thread is in hand then. -/
theorem archTaskContextInit (L : Layout) (hp : p ∈ s.procHead) (ring : Priv) :
    (s.archTaskContextInit L p ring).2.Housed
      (match (s.archTaskContextInit L p ring).1 with
      | none => e
      | some stack => stackBlocks ring stack ++ e) := by
  cases ring with
  | kernel =>
    unfold ProcTable.archTaskContextInit
    obtain ⟨hnone, hsome⟩ := h.kmalloc
    dsimp only
    split_ifs with hzero
    · exact hnone
    · exact hsome hzero
  | user =>
    unfold ProcTable.archTaskContextInit
    have hblocks := vmmAllocPages_blocks L (h.trees p hp) 1 pteUserPage
    generalize vmmAllocPages L s.mm (s.pcb p).vcb 1 pteUserPage = res at hblocks ⊢
    obtain ⟨stack, mm, vcb⟩ := res
    have hspace := h.withSpace hp hblocks
    dsimp only
    split_ifs
    · exact hspace
    · have hself : ((s.withSpace p mm vcb).pcb p).vcb = vcb := by
        change (Function.update s.pcb p _ p).vcb = vcb
        rw [Function.update_self]
      refine hspace.withSpace hp ?_
      rw [hself]
      exact vmmFreePages_blocks hblocks.ok stack
    · exact hspace

/-- A stack goes back that is not a record. -/
theorem archTaskContextRelease (hp : p ∈ s.procHead) {stack : Nat}
    (hstack : ∀ x ∈ stackBlocks ring stack, x ∉ s.records e) :
    (s.archTaskContextRelease p ring stack).Housed e := by
  unfold ProcTable.archTaskContextRelease
  split_ifs
  · exact h
  · cases ring with
    | user => exact h.withSpace hp (vmmFreePages_blocks (h.trees p hp) stack)
    | kernel => exact h.kfree (hstack stack List.mem_cons_self)

end

/-- A stack in hand goes back. -/
theorem archTaskContextRelease_hand {stack : Nat} (h : s.Housed (stackBlocks ring stack ++ e))
    (hp : p ∈ s.procHead) : (s.archTaskContextRelease p ring stack).Housed e := by
  have hforget : s.Housed e :=
    relabel _ h rfl rfl rfl (fun _ => ⟨rfl, rfl⟩) rfl fun _ => Or.inl rfl
  refine hforget.archTaskContextRelease hp fun x hx hmem => ?_
  have hnodup := h.nodup
  unfold records at hnodup
  rw [List.append_assoc] at hnodup
  exact List.disjoint_of_nodup_append hnodup hx hmem

/-- A new thread enters the lists, and its stack is its own. -/
theorem linkThread {f : TcbFields} (h : s.Housed (stackBlocks f.ring f.stack ++ t :: e))
    (initial : ThreadState) : (s.linkThread t f initial).Housed e := by
  have hsplit : s.records (stackBlocks f.ring f.stack ++ t :: e) =
      stackBlocks f.ring f.stack ++ t :: s.records e := by
    unfold records
    rw [List.append_assoc, List.cons_append]
  have hnodup := h.nodup
  rw [hsplit] at hnodup
  have hperm : ((s.linkThread t f initial).records e).Perm (t :: s.records e) :=
    List.perm_middle
  have hold {x : Nat} (hx : x ∈ (s.linkThread t f initial).records e) :
      x ∈ s.records (stackBlocks f.ring f.stack ++ t :: e) :=
    hsplit ▸ List.mem_append_right _ (hperm.mem_iff.mp hx)
  have hnew : t ∉ s.sched.order := fun hin =>
    (List.nodup_cons.mp hnodup.of_append_right).1
      (List.mem_append_right _ (List.mem_append_left _ hin))
  have hpcb (q : Nat) : ((s.linkThread t f initial).pcb q).vcb = (s.pcb q).vcb ∧
      ((s.linkThread t f initial).pcb q).capabilities = (s.pcb q).capabilities := by
    rw [linkThread_pcb]
    exact ⟨rfl, rfl⟩
  have hself : (s.linkThread t f initial).threadBlocks t = stackBlocks f.ring f.stack := by
    change stackBlocks (Function.update s.tcb t f t).ring (Function.update s.tcb t f t).stack ++
      (if (Function.update s.sched.thread t _ t).mailbox = 0 then [] else _) = _
    rw [Function.update_self, Function.update_self, if_pos rfl, List.append_nil]
  refine h.frame (Nat.le_refl _) (fun p hp => (hpcb p).1 ▸ h.trees p hp)
    (hperm.nodup_iff.mpr hnodup.of_append_right)
    (fun x hx => ⟨h.live x (hold hx), Or.inl (hold hx)⟩) fun x hx => ?_
  rcases hx with ⟨p, hp, hx⟩ | ⟨u, hu, hx⟩
  · unfold ProcHolds at hx
    rw [(hpcb p).1, (hpcb p).2] at hx
    exact Or.inl (Or.inl ⟨p, hp, hx⟩)
  · rcases List.mem_cons.mp hu with rfl | hu
    · rw [hself] at hx
      refine Or.inr ⟨h.named x (hsplit ▸ List.mem_append_left _ hx), fun hrec => ?_⟩
      exact List.disjoint_of_nodup_append hnodup hx (hperm.mem_iff.mp hrec)
    · have hne : u ≠ t := fun heq => hnew (heq ▸ hu)
      refine Or.inl (Or.inr ⟨u, hu, ?_⟩)
      change x ∈ stackBlocks (Function.update s.tcb t f u).ring
        (Function.update s.tcb t f u).stack ++
        (if (Function.update s.sched.thread t _ u).mailbox = 0 then []
          else [(Function.update s.sched.thread t _ u).mailbox]) at hx
      rwa [Function.update_of_ne hne, Function.update_of_ne hne] at hx

/-- A thread gets a mailbox, or has none. -/
theorem giveMailbox (h : s.Housed e) (t : Nat) : (s.giveMailbox t).Housed e := by
  -- only the mailbox of the thread changes
  have hbox (sched : Sched) (mb u : Nat) :
      ((sched.modify t fun th => { th with mailbox := mb }).thread u).mailbox =
        (sched.thread u).mailbox ∨
      ((sched.modify t fun th => { th with mailbox := mb }).thread u).mailbox = mb := by
    grind [Sched.modify_thread]
  have hzero {s₁ : ProcTable} (h₁ : s₁.Housed e) :
      (s₁.withSched (s₁.sched.modify t fun th => { th with mailbox := 0 })).Housed e :=
    relabel [] h₁ rfl rfl rfl (fun _ => ⟨rfl, rfl⟩) rfl
      fun u => (hbox s₁.sched 0 u).imp_right Or.inl
  obtain ⟨hnone, hsome⟩ := h.kmalloc
  unfold ProcTable.giveMailbox ProcTable.allocMailbox
  dsimp only
  by_cases hmb : s.mm.kmalloc.1 = 0
  · rw [if_pos hmb]
    exact hzero hnone
  rw [if_neg hmb]
  have hlock := (hsome hmb).spinlockAlloc
  generalize (s.withMm s.mm.kmalloc.2).mm.spinlockAlloc = res at hlock ⊢
  obtain ⟨_ | lock, mm⟩ := res
  · exact hzero hlock.kfree_hand
  · exact relabel [s.mm.kmalloc.1] hlock rfl rfl rfl (fun _ => ⟨rfl, rfl⟩) rfl
      fun u => (hbox (s.sched.setWaiters s.mm.kmalloc.1 []) _ u).imp_right fun heq =>
        Or.inr (List.mem_singleton.mpr heq)

theorem enroll {f : TcbFields} (h : s.Housed (stackBlocks f.ring f.stack ++ t :: e))
    (initial : ThreadState) : (s.enroll t f initial).Housed e := by
  have hlink := h.linkThread initial
  have hstart : ((s.linkThread t f initial).startFirst t f.parent).Housed e := by
    unfold ProcTable.startFirst
    rw [vmmSwitch_eq]
    refine relabel [] hlink rfl rfl rfl (fun _ => ⟨rfl, rfl⟩) rfl fun u => Or.inl ?_
    change (((s.linkThread t f initial).sched.modify t fun th =>
      { th with state := .ready }).thread u).mailbox = _
    rw [Sched.modify_thread]
    split_ifs with heq
    · rw [heq]
    · rfl
  unfold ProcTable.enroll
  dsimp only
  split_ifs
  · exact hstart.giveMailbox t
  · exact hlink.giveMailbox t

theorem threadCreateEx (h : s.Housed e) (hp : p ∈ s.procHead) (ring : Priv)
    (initial : ThreadState) : (s.threadCreateEx L p ring initial).2.Housed e := by
  unfold ProcTable.threadCreateEx
  split_ifs
  · exact h
  dsimp only
  obtain ⟨hnone, hsome⟩ := h.kmalloc
  split_ifs with ht
  · exact hnone
  have hctx := (hsome ht).archTaskContextInit L hp ring
  have hprocs := (archTaskContextInit_same L (s.withMm s.mm.kmalloc.2) p ring).procHead
  generalize (s.withMm s.mm.kmalloc.2).archTaskContextInit L p ring = res at hctx hprocs ⊢
  obtain ⟨_ | stack, s₁⟩ := res
  · exact hctx.kfree_hand
  have hp₁ : p ∈ s₁.procHead := hprocs.symm ▸ hp
  dsimp only at hctx ⊢
  have hlock := hctx.spinlockAlloc
  generalize s₁.mm.spinlockAlloc = res at hlock ⊢
  obtain ⟨_ | lock, mm⟩ := res
  · exact (hlock.archTaskContextRelease_hand hp₁).kfree_hand
  · exact hlock.enroll (f := ⟨s₁.nextTid, p, ring, stack, lock⟩) initial

/-- Inheritance takes new blocks and leaves the others alone. -/
theorem capInheritAll_blocks (mm : Resources) (caps parent : List Capability) :
    (∀ x ∈ mm.kheap.live, x ∈ (capInheritAll mm caps parent).1.kheap.live) ∧
      ∀ c ∈ (capInheritAll mm caps parent).2, c ∈ caps ∨
        mm.kheap.calls < c.addr ∧ c.addr ≤ (capInheritAll mm caps parent).1.kheap.calls := by
  induction parent generalizing mm caps with
  | nil => exact ⟨fun _ hx => hx, fun _ hc => Or.inl hc⟩
  | cons src parent ih =>
    unfold capInheritAll
    dsimp only
    split_ifs with hzero
    · exact ⟨fun _ hx => mem_kmalloc_live hx, fun _ hc => Or.inl hc⟩
    · have hname : mm.kmalloc.1 = mm.kheap.calls + 1 := Arena.kmalloc_name hzero
      have hcalls := kmalloc_calls mm
      have hmono := (capInheritAll_spec mm.kmalloc.2 (⟨mm.kmalloc.1, src.cap⟩ :: caps)
        parent).1.calls
      obtain ⟨hlive, hnew⟩ := ih mm.kmalloc.2 (⟨mm.kmalloc.1, src.cap⟩ :: caps)
      refine ⟨fun x hx => hlive x (mem_kmalloc_live hx), fun c hc => ?_⟩
      rcases hnew c hc with hin | ⟨hlt, hle⟩
      · grind
      · exact Or.inr ⟨by omega, hle⟩

theorem inheritAll_blocks (hcaps : (s.pcb p).capabilities = []) :
    (∀ x ∈ s.mm.kheap.live, x ∈ (s.inheritAll p).mm.kheap.live) ∧
      s.mm.kheap.calls ≤ (s.inheritAll p).mm.kheap.calls ∧
      ((s.inheritAll p).pcb p).vcb = (s.pcb p).vcb ∧
      ∀ c ∈ ((s.inheritAll p).pcb p).capabilities,
        s.mm.kheap.calls < c.addr ∧ c.addr ≤ (s.inheritAll p).mm.kheap.calls := by
  unfold inheritAll
  cases s.sched.run with
  | none => grind
  | some t =>
    obtain ⟨hlive, hnew⟩ := capInheritAll_blocks s.mm [] (s.pcb (s.tcb t).parent).capabilities
    have hcalls := (capInheritAll_spec s.mm [] (s.pcb (s.tcb t).parent).capabilities).1.calls
    dsimp only
    generalize capInheritAll s.mm [] (s.pcb (s.tcb t).parent).capabilities = res
      at hlive hnew hcalls ⊢
    obtain ⟨mm, capabilities⟩ := res
    have hself : ((s.withMm mm).setPcb p { s.pcb p with capabilities }).pcb p =
      { s.pcb p with capabilities } := Function.update_self _ _ _
    refine ⟨hlive, hcalls, by rw [hself], fun c hc => ?_⟩
    rw [hself] at hc
    rcases hnew c hc with hnil | hnew
    · exact absurd hnil List.not_mem_nil
    · exact hnew

/-- A new process is listed: its record is live, and what it holds is newer. -/
theorem procListed {priv : Priv} (h : s.Housed e) (hl : ProcListed s p priv s')
    (hlive : ∀ x ≤ s.mm.kheap.calls, x ∈ s.mm.kheap.live → x ∈ s'.mm.kheap.live)
    (hself : p ∈ s'.mm.kheap.live) (hok : (s'.pcb p).vcb.Ok s'.mm.kheap.calls)
    (hnew : ∀ x, s'.ProcHolds p x → p < x ∧ x ≤ s'.mm.kheap.calls) : s'.Housed e := by
  have hle : s.mm.kheap.calls ≤ s'.mm.kheap.calls := hl.fresh.le.trans hl.named
  have hfresh {x : Nat} (hx : s.mm.kheap.calls < x) : x ∉ s.records e := fun hmem =>
    absurd (h.named x hmem) (by omega)
  have hperm : (s'.records e).Perm (p :: s.records e) := by grind [hl.sched, hl.procHead, records]
  have hne {q : Nat} (hq : q ∈ s.procHead) : q ≠ p := fun heq =>
    hfresh hl.fresh (heq ▸ List.mem_append_right _ (List.mem_append_right _ hq))
  refine h.frame hle (fun q hq => ?_)
    (hperm.nodup_iff.mpr (List.nodup_cons.mpr ⟨hfresh hl.fresh, h.nodup⟩)) (fun x hx => ?_)
    fun x hx => ?_
  · rw [hl.procHead] at hq
    rcases List.mem_cons.mp hq with rfl | hq
    · exact hok
    · rw [hl.pcb q (hne hq)]
      exact (h.trees q hq).mono hle
  · grind [hl.fresh, hl.named, h.live]
  · rcases hx with ⟨q, hq, hx⟩ | ⟨u, hu, hx⟩
    · rw [hl.procHead] at hq
      rcases List.mem_cons.mp hq with rfl | hq
      · grind [hl.fresh]
      · unfold ProcHolds at hx
        rw [hl.pcb q (hne hq)] at hx
        exact Or.inl (Or.inl ⟨q, hq, hx⟩)
    · unfold threadBlocks at hx
      rw [hl.sched] at hu hx
      rw [hl.tcb] at hx
      exact Or.inl (Or.inr ⟨u, hu, hx⟩)

/-! ## Deletion and exit -/

/-- A process leaves its list: its record is in hand, and what it held is no record. -/
theorem unlist (h : s.Housed e) (hp : p ∈ s.procHead) :
    Housed (p :: e) { s with procHead := s.procHead.erase p } ∧
      ∀ x, s.ProcHolds p x → x ∉ ({ s with procHead := s.procHead.erase p } : ProcTable).records
        (p :: e) := by
  have hmem {q : Nat} (hq : q ∈ s.procHead.erase p) : q ∈ s.procHead := List.mem_of_mem_erase hq
  have hperm : (({ s with procHead := s.procHead.erase p } : ProcTable).records (p :: e)).Perm
      (s.records e) := by grind [records]
  refine ⟨h.frame (Nat.le_refl _) (fun q hq => h.trees q (hmem hq))
    (hperm.nodup_iff.mpr h.nodup)
    (fun x hx => ⟨h.live x (hperm.mem_iff.mp hx), Or.inl (hperm.mem_iff.mp hx)⟩)
    fun x hx => Or.inl ?_, fun x hx hrec => ?_⟩
  · exact hx.imp_left fun ⟨q, hq, hholds⟩ => ⟨q, hmem hq, hholds⟩
  · exact h.apart x (hperm.mem_iff.mp hrec) (Or.inl ⟨p, hp, hx⟩)

/-- An address space goes that holds no record. -/
theorem destroySpace (h : s.Housed e) (L : Layout) {v : Vcb} (hv : v.Ok s.mm.kheap.calls)
    (hfree : ∀ x, v.Holds x → x ∉ s.records e) :
    (s.withMm (vmmDestroy L s.mm v)).Housed e := by
  have hcalls := vmmDestroy_calls L s.mm v
  refine h.frame hcalls.ge (fun q hq => ?_) h.nodup (fun x hx => ⟨?_, Or.inl hx⟩)
    fun x hx => Or.inl hx
  · exact hcalls.symm ▸ h.trees q hq
  · exact vmmDestroy_blocks L hv (fun hholds => hfree x hholds hx) (h.live x hx)

/-- Capabilities go whose blocks are no records. -/
theorem revokeAll (h : s.Housed e) {caps : List Capability}
    (hfree : ∀ x ∈ caps.map Capability.addr, x ∉ s.records e) :
    (s.withMm (capRevokeAll s.mm caps).1).Housed e := by
  induction caps generalizing s with
  | nil => exact h
  | cons c caps ih =>
    refine ih (h.kfree (hfree c.addr List.mem_cons_self)) fun x hx => ?_
    exact hfree x (List.mem_cons_of_mem _ hx)

/-- A process that has just been listed gets its first thread, or goes again. -/
theorem startProc {s₀ : ProcTable} {priv : Priv}
    (h : Housed e { s with procHead := p :: s.procHead })
    (hl : ProcListed s₀ p priv { s with procHead := p :: s.procHead })
    (hcount : s₀.nextTid < 2 ^ 31) (initial : ThreadState) :
    (s.startProc L p initial).2.Housed e := by
  unfold ProcTable.startProc
  dsimp only
  set s₁ : ProcTable := { s with procHead := p :: s.procHead } with hs₁
  have hmem : p ∈ s₁.procHead := List.mem_cons_self
  have hthread := h.threadCreateEx (L := L) hmem (s.pcb p).priv initial
  have hcases := threadCreateEx_cases L s₁ p (s.pcb p).priv initial
  generalize s₁.threadCreateEx L p (s.pcb p).priv initial = res at hthread hcases ⊢
  obtain ⟨ret, s₂⟩ := res
  split_ifs with hret
  · exact hthread
  · have hsame : SameTable s₁ s₂ := by
      rcases hcases with ⟨-, hsame⟩ | ⟨-, s₃, t, stack, lock, -, -, -, heq⟩
      · exact hsame
      · -- an identifier does not look like an error
        have hlt : s₁.nextTid < 2 ^ 31 := hl.nextTid.symm ▸ hcount
        have hpos : ret = (s₁.nextTid : Int) := (congrArg Prod.fst heq).trans (if_pos hlt)
        exact absurd (hpos ▸ Int.natCast_nonneg _) hret
    have hmem₂ : p ∈ s₂.procHead := hsame.procHead.symm ▸ hmem
    obtain ⟨hunlist, hfree⟩ := hthread.unlist hmem₂
    have hspace := hunlist.destroySpace L (hthread.trees p hmem₂)
      fun x hx => hfree x (Or.inl hx)
    exact ((hspace.spinlockRelease _).spinlockRelease _).kfree_hand

section

variable (h : s.Housed e)

include h

/-- `p_create_ex`. -/
theorem pCreateEx (priv : Priv) (initial : ThreadState) (hcount : s.nextTid < 2 ^ 31) :
    (s.pCreateEx L priv initial).2.Housed e := by
  unfold ProcTable.pCreateEx
  dsimp only
  obtain ⟨hnone, hsome⟩ := h.kmalloc
  split_ifs with hp
  · exact hnone
  have hname : s.mm.kmalloc.1 = s.mm.kheap.calls + 1 := Arena.kmalloc_name hp
  have hk₀ := kmalloc_calls s.mm
  have hin : s.mm.kmalloc.1 ∈ s.mm.kmalloc.2.kheap.live := kmalloc_live hp ▸ List.mem_cons_self
  have hlock₁ := (hsome hp).spinlockAlloc
  have hk₁ : (s.withMm s.mm.kmalloc.2).mm.spinlockAlloc.2.kheap = s.mm.kmalloc.2.kheap :=
    spinlockAlloc_kheap _
  generalize (s.withMm s.mm.kmalloc.2).mm.spinlockAlloc = res at hlock₁ hk₁ ⊢
  obtain ⟨_ | spLock, mm₁⟩ := res
  · exact hlock₁.kfree_hand
  dsimp only at hk₁ ⊢
  have hlock₂ := hlock₁.spinlockAlloc
  have hk₂ : ((s.withMm s.mm.kmalloc.2).withMm mm₁).mm.spinlockAlloc.2.kheap = mm₁.kheap :=
    spinlockAlloc_kheap _
  generalize ((s.withMm s.mm.kmalloc.2).withMm mm₁).mm.spinlockAlloc = res at hlock₂ hk₂ ⊢
  obtain ⟨_ | capLock, mm₂⟩ := res
  · exact (hlock₂.spinlockRelease _).kfree_hand
  dsimp only at hk₂ ⊢
  rw [hk₁] at hk₂
  obtain ⟨hlive, hfresh⟩ := vmmCreate_blocks L mm₂
  have hspace := vmmCreate_calls L mm₂
  rw [hk₂] at hlive hfresh hspace
  have hbump : Housed (s.mm.kmalloc.1 :: e) (s.bumpPid.withMm mm₂) :=
    relabel [] hlock₂ rfl rfl rfl (fun _ => ⟨rfl, rfl⟩) rfl fun _ => Or.inl rfl
  generalize hcreate : vmmCreate L _ = res
  have hcreate' : vmmCreate L mm₂ = res := hcreate
  rw [hcreate'] at hlive hfresh hspace
  obtain ⟨err | vcb, mm₃⟩ := res
  · -- no address space
    have hback : Housed (s.mm.kmalloc.1 :: e) (s.bumpPid.withMm mm₃) := by
      refine hbump.frame (hk₂ ▸ hspace.1) (fun q hq => ?_) hbump.nodup
        (fun x hx => ⟨?_, Or.inl hx⟩) fun x hx => Or.inl hx
      · exact (hbump.trees q hq).mono (hk₂ ▸ hspace.1)
      · have hx' := hbump.named x hx
        have hx'' := hbump.live x hx
        change x ≤ mm₂.kheap.calls at hx'
        change x ∈ mm₂.kheap.live at hx''
        rw [hk₂] at hx' hx''
        exact hlive x hx' hx''
    exact ((hback.spinlockRelease _).spinlockRelease _).kfree_hand
  · obtain ⟨hok, hholds⟩ := hfresh vcb rfl
    dsimp only at hok hholds hlive hspace
    have hlisted := newPcb_listed (show s.mm.kheap.calls < s.mm.kmalloc.1 by omega)
      (show s.mm.kmalloc.1 ≤ mm₃.kheap.calls by omega) priv spLock capLock (hspace.2 vcb rfl)
    have hpcb : ((s.bumpPid.withMm mm₃).newPcb s.mm.kmalloc.1 s.nextPid priv spLock capLock vcb).pcb
        s.mm.kmalloc.1 = ⟨s.nextPid, false, priv, [], spLock, capLock, vcb, []⟩ :=
      Function.update_self _ _ _
    obtain ⟨hlive', hcalls', hvcb, hcaps⟩ :=
      inheritAll_blocks (congrArg PcbFields.capabilities hpcb)
    change mm₃.kheap.calls ≤ _ at hcalls'
    rw [hpcb] at hvcb
    refine startProc (h.procListed hlisted (fun x hle hx => ?_) ?_ ?_ fun x hx => ?_) hlisted
      hcount initial
    · exact hlive' x (hlive x (by omega) (mem_kmalloc_live hx))
    · exact hlive' _ (hlive _ (by omega) hin)
    · exact hvcb.symm ▸ hok.mono hcalls'
    · rcases hx with hx | hx
      · grind
      · obtain ⟨c, hc, rfl⟩ := List.mem_map.mp hx
        have hnew := hcaps c hc
        have hlt : mm₃.kheap.calls < c.addr := hnew.1
        exact ⟨by omega, hnew.2⟩

/-- A thread that leaves the lists is in hand, and its mailbox is no record. -/
theorem unlinkThread (ht : t ∈ s.sched.order) :
    (s.unlinkThread t).Housed (t :: e) ∧ ∀ x ∈ s.threadBlocks t,
      x ∉ (s.unlinkThread t).records (t :: e) := by
  have hperm : ((s.unlinkThread t).records (t :: e)).Perm (s.records e) := by
    refine List.Perm.trans ?_ (List.Perm.append_left e
      (List.Perm.append_right s.procHead (List.perm_cons_erase ht).symm))
    exact List.perm_middle.symm
  have hpcb (q : Nat) : ((s.unlinkThread t).pcb q).vcb = (s.pcb q).vcb ∧
      ((s.unlinkThread t).pcb q).capabilities = (s.pcb q).capabilities := by
    rw [unlinkThread_pcb]
    exact ⟨rfl, rfl⟩
  refine ⟨h.frame (Nat.le_refl _) (fun q hq => (hpcb q).1 ▸ h.trees q hq)
    (hperm.nodup_iff.mpr h.nodup)
    (fun x hx => ⟨h.live x (hperm.mem_iff.mp hx), Or.inl (hperm.mem_iff.mp hx)⟩)
    fun x hx => Or.inl ?_, fun x hx hrec => ?_⟩
  · rcases hx with ⟨q, hq, hx⟩ | ⟨u, hu, hx⟩
    · unfold ProcHolds at hx
      rw [(hpcb q).1, (hpcb q).2] at hx
      exact Or.inl ⟨q, hq, hx⟩
    · unfold threadBlocks at hx
      rw [(unlinkThread_thread s t u).2] at hx
      exact Or.inr ⟨u, List.mem_of_mem_erase hu, hx⟩
  · exact h.apart x (hperm.mem_iff.mp hrec) (Or.inr ⟨t, ht, hx⟩)

/-- A thread of a listed process goes, and its record is in hand. -/
theorem dropThread (ht : t ∈ s.sched.order) (hp : (s.tcb t).parent ∈ s.procHead) :
    (s.dropThread t).Housed (t :: e) ∧ ∀ x ∈ s.threadBlocks t,
      x ∉ (s.dropThread t).records (t :: e) := by
  have hstack (x : Nat) (hx : x ∈ stackBlocks (s.tcb t).ring (s.tcb t).stack) :
      x ∉ s.records e := fun hrec =>
    h.apart x hrec (Or.inr ⟨t, ht, List.mem_append_left _ hx⟩)
  have hsame := archTaskContextRelease_same s (s.tcb t).parent (s.tcb t).ring (s.tcb t).stack
  have hrel := h.archTaskContextRelease hp hstack
  obtain ⟨hunlink, hblocks⟩ := hrel.unlinkThread (t := t) (by rw [hsame.sched]; exact ht)
  refine ⟨hunlink.spinlockRelease _, fun x hx hrec => hblocks x ?_ hrec⟩
  unfold threadBlocks
  rw [hsame.tcb, hsame.sched]
  exact hx

theorem reapThread (ht : t ∈ s.sched.order) (hp : (s.tcb t).parent ∈ s.procHead) :
    (s.reapThread t).Housed e := by
  obtain ⟨hdrop, hblocks⟩ := h.dropThread ht hp
  unfold ProcTable.reapThread ProcTable.releaseMailbox
  split_ifs with hzero
  · exact hdrop.kfree_hand
  · have hclear : (((s.dropThread t).spinlockRelease ((s.dropThread t).boxLock
        (s.sched.thread t).mailbox)).withSched ((s.dropThread t).sched.setWaiters
          (s.sched.thread t).mailbox [])).Housed (t :: e) :=
      relabel [] (hdrop.spinlockRelease _) rfl rfl rfl (fun _ => ⟨rfl, rfl⟩) rfl
        fun _ => Or.inl rfl
    refine (hclear.kfree (hblocks _ ?_)).kfree_hand
    unfold threadBlocks
    rw [if_neg hzero]
    exact List.mem_append_right _ List.mem_cons_self

theorem threadDelete (hl : s.Linked) (tid : Nat) :
    (s.threadDelete tid).Housed e := by
  rcases s.threadDelete_cases tid with heq | ⟨t, ht, hgone⟩
  · rw [heq]
    exact h
  have hmem := Linked.mem_of_findThread ht
  have hparent := (hl.parent t hmem).1
  rcases hgone with ⟨-, heq⟩ | ⟨s', ⟨-, next, -, -, rfl⟩, heq⟩
  · rw [heq]
    exact h.reapThread hmem hparent
  · rw [heq]
    exact (h.calm (Calm.runNext s t next)).reapThread hmem hparent

theorem exitThread (ht : t ∈ s.sched.order) (hp : (s.tcb t).parent ∈ s.procHead)
    (hs : s.exitThread t = some s') : s'.Housed e := by
  rcases exitThread_some hs with ⟨-, rfl⟩ | ⟨s₁, ⟨-, next, -, -, rfl⟩, rfl⟩
  · exact (h.dropThread ht hp).1.kfree_hand
  · exact ((h.calm (Calm.runNext s t next)).dropThread ht hp).1.kfree_hand

theorem exitLoop (hl : s.Linked) (hp : p ∈ s.procHead) {ts : List Nat} (hts : (s.pcb p).tcbs = ts) :
    (exitLoop ts s).2.Housed e := by
  induction ts generalizing s with
  | nil => exact h
  | cons t ts ih =>
    obtain ⟨hmem, hparent⟩ := hl.child p hp t (hts ▸ List.mem_cons_self)
    unfold ProcTable.exitLoop
    cases hs : s.exitThread t with
    | none => exact h
    | some s' => grind [hl.exitThread, h.exitThread]

end

/-- The exit of a process keeps it in its list until all threads have gone. -/
theorem exitLoop_procHead (hl : s.Linked) (hp : p ∈ s.procHead) {ts : List Nat}
    (hts : (s.pcb p).tcbs = ts) : (ProcTable.exitLoop ts s).2.procHead = s.procHead := by
  induction ts generalizing s with
  | nil => rfl
  | cons t ts ih =>
    obtain ⟨hmem, hparent⟩ := hl.child p hp t (hts ▸ List.mem_cons_self)
    unfold ProcTable.exitLoop
    cases hs : s.exitThread t with
    | none => rfl
    | some s' => grind [hl.exitThread]

/-- A process that is in hand gives back what it holds, and its record. -/
theorem reapProc (h : s.Housed (p :: e)) (L : Layout) (hok : (s.pcb p).vcb.Ok s.mm.kheap.calls)
    (hfree : ∀ x, s.ProcHolds p x → x ∉ s.records (p :: e)) : (s.reapProc L p).Housed e := by
  have hrevoke := h.revokeAll fun x hx => hfree x (Or.inr hx)
  have hspace := hrevoke.destroySpace L
    (show (s.pcb p).vcb.Ok _ from (capRevokeAll_calls s.mm _).symm ▸ hok)
    fun x hx => hfree x (Or.inl hx)
  exact ((hspace.spinlockRelease _).spinlockRelease _).kfree_hand

theorem procExit (h : s.Housed e) (hl : s.Linked) (L : Layout) (pid : Nat) :
    (s.procExit L pid).Housed e := by
  unfold ProcTable.procExit
  split
  · exact h.calm (Calm.archTaskContextSwitch s)
  · rename_i p hp
    have hmem : p ∈ s.procHead := List.mem_of_find?_eq_some hp
    have hloop := h.exitLoop hl hmem rfl
    have hprocs := exitLoop_procHead hl hmem rfl
    generalize ProcTable.exitLoop (s.pcb p).tcbs s = res at hloop hprocs ⊢
    obtain ⟨_ | _, s₁⟩ := res
    · exact relabel [] hloop rfl rfl rfl (fun _ => ⟨rfl, rfl⟩) rfl fun _ => Or.inl rfl
    · have hmem₁ : p ∈ s₁.procHead := hprocs.symm ▸ hmem
      obtain ⟨hunlist, hfree⟩ := Housed.unlist hloop hmem₁
      dsimp only
      -- the switch changes neither the record of the process nor what is linked
      have hcalm := Calm.archTaskContextSwitch { s₁ with procHead := s₁.procHead.erase p }
      have hswitch := hunlist.calm hcalm
      generalize ProcTable.archTaskContextSwitch { s₁ with procHead := s₁.procHead.erase p } = s₂
        at hcalm hswitch ⊢
      have hvcb : (s₂.pcb p).vcb = (s₁.pcb p).vcb := by rw [hcalm.pcb p]
      have hcaps : (s₂.pcb p).capabilities = (s₁.pcb p).capabilities := by rw [hcalm.pcb p]
      refine hswitch.reapProc L ?_ fun x hx => ?_
      · rw [hcalm.mm, hvcb]
        exact hloop.trees p hmem₁
      · grind [hcalm.threads.order, hcalm.procHead, records, ProcHolds]

end Housed

/-! ## Runs -/

theorem boot_housed (mm : Resources) (cr3 : Nat) : (boot mm cr3).Housed [] := by
  have hnone {x : Nat} {P : Prop} (h : x ∈ ([] : List Nat)) : P := absurd h List.not_mem_nil
  refine ⟨fun _ h => hnone h, List.nodup_nil, fun _ h => hnone h, fun _ h => hnone h,
    fun x h => ?_, fun _ h => hnone h⟩
  rcases h with ⟨p, hp, -⟩ | ⟨t, ht, -⟩
  · exact hnone hp
  · exact hnone ht

theorem Housed.step (h : s.Housed []) (hl : s.Linked) {op : ProcOp} (hop : op.Counted s) :
    (op.exec L s).Housed [] := by
  unfold ProcOp.exec
  split_ifs
  · exact h
  cases op with
  | procCreate priv => exact h.pCreateEx priv .pending hop.1
  | threadCreate ring => grind [ProcOp.step, h.threadCreateEx, hl.parent, hl.run]
  | threadDelete tid => exact h.threadDelete hl tid
  | procExit pid => exact h.procExit hl L pid
  | threadBlock _ | threadUnblock _ | threadYield | procBlock _ | procUnblock _ | sleep _ | wake _
  | tick _ | gateExit => exact h.calm (Calm.step L s trivial)

end ProcTable

end Ukernel.Kernel
