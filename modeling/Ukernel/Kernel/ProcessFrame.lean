import Ukernel.Kernel.Process

/-!
# What memory management leaves alone

The functions of `kernel/process.c` interleave changes to their lists with requests for memory. The
requests leave the lists, the counters and the directories as they are (`SameTable`); so what a
function does to the table is what is left of it once the requests are taken out.

## Main definitions

* `SameTable`: only the resources and what lies in address spaces have changed

## Main results

* `threadCreateEx_cases`, `pCreateEx_cases`: creation fails and leaves the table alone, or links a
  record that is new
* `dropThread_same`, `reapThread_same`: deletion and exit unlink a thread
-/

namespace Ukernel.Mm

open Arch Lib Kernel

variable {L : Layout} {mm : Resources} {v : Vcb}

/-! ## Directories and the number of requests -/

theorem kfree_calls (mm : Resources) (a : Nat) : (mm.kfree a).kheap.calls = mm.kheap.calls := rfl

theorem kmalloc_calls (mm : Resources) : mm.kmalloc.2.kheap.calls = mm.kheap.calls + 1 :=
  mm.kheap.kmalloc_calls

theorem spinlockAlloc_kheap (mm : Resources) : mm.spinlockAlloc.2.kheap = mm.kheap := by
  unfold Resources.spinlockAlloc
  split <;> rfl

theorem placeRegion_cr3 (L : Layout) (mm : Resources) (v : Vcb) (node : Nat) (r : VmmRegion) :
    (placeRegion L mm v node r).2.2.cr3 = v.cr3 ∧
      (placeRegion L mm v node r).2.1.kheap = mm.kheap := by
  unfold placeRegion
  dsimp only
  split <;> exact ⟨rfl, rfl⟩

theorem vmmAllocPages_cr3 (L : Layout) (mm : Resources) (v : Vcb) (pageCnt flags : Nat) :
    (vmmAllocPages L mm v pageCnt flags).2.2.cr3 = v.cr3 ∧
      mm.kheap.calls ≤ (vmmAllocPages L mm v pageCnt flags).2.1.kheap.calls := by
  unfold vmmAllocPages
  dsimp only
  split_ifs
  · exact ⟨rfl, Nat.le_refl _⟩
  · exact ⟨rfl, Nat.le_refl _⟩
  · exact ⟨rfl, (Nat.le_succ _).trans_eq (kmalloc_calls _).symm⟩
  · split
    · exact ⟨rfl, (Nat.le_succ _).trans_eq (kmalloc_calls _).symm⟩
    · rename_i va hva
      generalize hplace : placeRegion L _ v _ _ = res
      obtain ⟨ok, mm', v'⟩ := res
      have h := placeRegion_cr3 L (mm.withPmm (mm.pmm.pmmAllocPages pageCnt).2).kmalloc.2 v
        (mm.withPmm (mm.pmm.pmmAllocPages pageCnt).2).kmalloc.1
        ⟨va, pageCnt * 4096 % 2 ^ 32, flags, (mm.pmm.pmmAllocPages pageCnt).1, true⟩
      rw [hplace] at h
      have hcalls : mm.kheap.calls ≤ mm'.kheap.calls := by
        rw [h.2]
        exact (Nat.le_succ _).trans_eq (kmalloc_calls _).symm
      cases ok with
      | true => exact ⟨h.1, hcalls⟩
      | false => exact ⟨h.1, hcalls⟩

theorem vmmFreePages_cr3 (mm : Resources) (v : Vcb) (va : Nat) :
    (vmmFreePages mm v va).2.cr3 = v.cr3 ∧
      (vmmFreePages mm v va).1.kheap.calls = mm.kheap.calls := by
  unfold vmmFreePages
  split <;> exact ⟨rfl, rfl⟩

theorem destroyLoop_calls {steps : Nat} {mm mm' : Resources} {v v' : Vcb} {pos n : Nat}
    (h : destroyLoop steps mm v pos n = some (mm', v')) :
    mm'.kheap.calls = mm.kheap.calls := by
  induction steps generalizing mm v pos n with
  | zero => cases h
  | succ steps ih =>
    unfold destroyLoop at h
    split at h
    · cases h
      rfl
    · rw [ih h]
      split <;> rfl

theorem vmmDestroy_calls (L : Layout) (mm : Resources) (v : Vcb) :
    (vmmDestroy L mm v).kheap.calls = mm.kheap.calls := by
  unfold vmmDestroy
  dsimp only
  generalize hloop : destroyLoop mm.fuel mm v _ _ = res
  cases res with
  | none => rfl
  | some res =>
    obtain ⟨mm', v'⟩ := res
    have hcalls : mm'.kheap.calls = mm.kheap.calls := destroyLoop_calls hloop
    exact hcalls

/-- A failure of `vmm_create` leaves at most requests behind, and success a directory. -/
theorem vmmCreate_calls (L : Layout) (mm : Resources) :
    mm.kheap.calls ≤ (vmmCreate L mm).2.kheap.calls ∧
      ∀ v, (vmmCreate L mm).1 = .ok v → v.cr3 ≠ 0 := by
  have htree (mm : Resources) : mm.kheap.calls ≤ (treeCreate mm).2.kheap.calls := by
    grind [kmalloc_calls, kfree_calls, treeCreate]
  unfold vmmCreate
  have hlock := spinlockAlloc_kheap mm
  split
  · grind
  · rename_i lock mm₁ heq
    rw [heq] at hlock
    have hcalls : mm.kheap.calls = mm₁.kheap.calls := (congrArg Arena.calls hlock).symm
    have hmore := htree mm₁
    rw [hcalls]
    split
    · rename_i mm₂ heq₂
      rw [heq₂] at hmore
      exact ⟨hmore, fun v h => nomatch h⟩
    · rename_i addr tree mm₂ heq₂
      rw [heq₂] at hmore
      dsimp only
      split_ifs with hpool hclone
      · exact ⟨hmore, fun v h => nomatch h⟩
      · exact ⟨hmore, fun v h => nomatch h⟩
      · refine ⟨hmore, fun v h => ?_⟩
        cases h
        exact hclone

end Ukernel.Mm

namespace Ukernel.Kernel

open Arch Lib Mm Sync

namespace ProcTable

variable {L : Layout} {s s' s'' : ProcTable} {p t : Nat} {priv : Priv}

/-! ## The frame -/

/-- A process whose address space may have changed, though not its directory. -/
structure SamePcb (v v' : PcbFields) : Prop where
  rest : v' = { v with vcb := v'.vcb }
  cr3 : v'.vcb.cr3 = v.vcb.cr3

theorem SamePcb.refl (v : PcbFields) : SamePcb v v := ⟨rfl, rfl⟩

theorem SamePcb.pid {v v' : PcbFields} (h : SamePcb v v') : v'.pid = v.pid := by rw [h.rest]

theorem SamePcb.tcbs {v v' : PcbFields} (h : SamePcb v v') : v'.tcbs = v.tcbs := by rw [h.rest]

theorem SamePcb.capabilities {v v' : PcbFields} (h : SamePcb v v') :
    v'.capabilities = v.capabilities := by rw [h.rest]

theorem SamePcb.trans {v v' v'' : PcbFields} (h : SamePcb v v') (h' : SamePcb v' v'') :
    SamePcb v v'' := by
  refine ⟨?_, h'.cr3.trans h.cr3⟩
  have hrest := h'.rest
  rw [h.rest] at hrest
  exact hrest

/-- Only the resources, and what lies in the address spaces of processes that are there, have
changed. -/
structure SameTable (s s' : ProcTable) : Prop where
  calls : s.mm.kheap.calls ≤ s'.mm.kheap.calls
  sched : s'.sched = s.sched
  tcb : s'.tcb = s.tcb
  procHead : s'.procHead = s.procHead
  pcb : ∀ p ≤ s.mm.kheap.calls, SamePcb (s.pcb p) (s'.pcb p)
  ctxInfo : s'.ctxInfo = s.ctxInfo
  cr3 : s'.cr3 = s.cr3
  currTaskCtx : s'.currTaskCtx = s.currTaskCtx
  nextTid : s'.nextTid = s.nextTid
  nextPid : s'.nextPid = s.nextPid
  halted : s'.halted = s.halted

namespace SameTable

theorem refl (s : ProcTable) : SameTable s s :=
  ⟨Nat.le_refl _, rfl, rfl, rfl, fun _ _ => SamePcb.refl _, rfl, rfl, rfl, rfl, rfl, rfl⟩

theorem trans (h : SameTable s s') (h' : SameTable s' s'') : SameTable s s'' where
  calls := h.calls.trans h'.calls
  sched := h'.sched.trans h.sched
  tcb := h'.tcb.trans h.tcb
  procHead := h'.procHead.trans h.procHead
  pcb p hp := (h.pcb p hp).trans (h'.pcb p (hp.trans h.calls))
  ctxInfo := h'.ctxInfo.trans h.ctxInfo
  cr3 := h'.cr3.trans h.cr3
  currTaskCtx := h'.currTaskCtx.trans h.currTaskCtx
  nextTid := h'.nextTid.trans h.nextTid
  nextPid := h'.nextPid.trans h.nextPid
  halted := h'.halted.trans h.halted

theorem withMm {mm : Resources} (h : s.mm.kheap.calls ≤ mm.kheap.calls) :
    SameTable s (s.withMm mm) :=
  ⟨h, rfl, rfl, rfl, fun _ _ => SamePcb.refl _, rfl, rfl, rfl, rfl, rfl, rfl⟩

theorem kmalloc (s : ProcTable) : SameTable s (s.withMm s.mm.kmalloc.2) :=
  withMm ((Nat.le_succ _).trans_eq (kmalloc_calls s.mm).symm)

theorem kfree (s : ProcTable) (a : Nat) : SameTable s (s.kfree a) := withMm (Nat.le_refl _)

theorem spinlockRelease (s : ProcTable) (i : Nat) : SameTable s (s.spinlockRelease i) :=
  withMm (Nat.le_refl _)

theorem spinlockAlloc (s : ProcTable) : SameTable s (s.withMm s.mm.spinlockAlloc.2) :=
  withMm (Nat.le_of_eq (congrArg Arena.calls (spinlockAlloc_kheap s.mm)).symm)

theorem withSpace {mm : Resources} {vcb : Vcb} (h : s.mm.kheap.calls ≤ mm.kheap.calls)
    (hcr3 : vcb.cr3 = (s.pcb p).vcb.cr3) : SameTable s (s.withSpace p mm vcb) := by
  refine ⟨h, rfl, rfl, rfl, fun q _ => ?_, rfl, rfl, rfl, rfl, rfl, rfl⟩
  change SamePcb (s.pcb q) (Function.update s.pcb p _ q)
  by_cases hq : q = p
  · rw [hq, Function.update_self]
    exact ⟨rfl, hcr3⟩
  · rw [Function.update_of_ne hq]
    exact SamePcb.refl _

theorem withSched (h : SameTable s s') (sched : Sched) :
    SameTable (s.withSched sched) (s'.withSched sched) :=
  ⟨h.calls, rfl, h.tcb, h.procHead, h.pcb, h.ctxInfo, h.cr3, h.currTaskCtx, h.nextTid, h.nextPid,
    h.halted⟩

/-- A thread can be unlinked before or after. -/
theorem unlinkThread (h : SameTable s s') (hp : (s.tcb t).parent ≤ s.mm.kheap.calls) :
    SameTable (s.unlinkThread t) (s'.unlinkThread t) := by
  refine ⟨h.calls, ?_, h.tcb, h.procHead, fun q hq => ?_, h.ctxInfo, h.cr3, h.currTaskCtx,
    h.nextTid, h.nextPid, h.halted⟩
  · change s'.sched.unlink t = s.sched.unlink t
    rw [h.sched]
  · change SamePcb (Function.update s.pcb (s.tcb t).parent _ q)
      (Function.update s'.pcb (s'.tcb t).parent _ q)
    rw [h.tcb]
    by_cases heq : q = (s.tcb t).parent
    · have hsame := h.pcb _ hp
      rw [heq, Function.update_self, Function.update_self, hsame.tcbs]
      refine ⟨?_, hsame.cr3⟩
      rw [hsame.rest]
    · rw [Function.update_of_ne heq, Function.update_of_ne heq]
      exact h.pcb q hq

end SameTable

theorem archTaskContextInit_same (L : Layout) (s : ProcTable) (p : Nat) (ring : Priv) :
    SameTable s (s.archTaskContextInit L p ring).2 := by
  cases ring with
  | kernel => exact SameTable.kmalloc s
  | user =>
    unfold archTaskContextInit
    have h := vmmAllocPages_cr3 L s.mm (s.pcb p).vcb 1 pteUserPage
    generalize vmmAllocPages L s.mm (s.pcb p).vcb 1 pteUserPage = res at h ⊢
    obtain ⟨stack, mm, vcb⟩ := res
    have hsame : SameTable s (s.withSpace p mm vcb) := SameTable.withSpace h.2 h.1
    dsimp only
    split_ifs
    · exact hsame
    · -- the address of the stack is not found, and it goes again
      have h' := vmmFreePages_cr3 mm vcb stack
      have hself : ((s.withSpace p mm vcb).pcb p).vcb = vcb :=
        congrArg PcbFields.vcb (Function.update_self p _ s.pcb)
      refine hsame.trans (SameTable.withSpace (Nat.le_of_eq h'.2.symm) ?_)
      rw [hself]
      exact h'.1
    · exact hsame

theorem archTaskContextRelease_same (s : ProcTable) (p : Nat) (ring : Priv) (stack : Nat) :
    SameTable s (s.archTaskContextRelease p ring stack) := by
  unfold archTaskContextRelease
  split_ifs
  · exact SameTable.refl s
  · grind [SameTable.kfree, vmmFreePages_cr3, SameTable.withSpace]

/-! ## Deletion -/

theorem unlinkThread_pcb (s : ProcTable) (t q : Nat) : (s.unlinkThread t).pcb q = { s.pcb q with
    tcbs := if q = (s.tcb t).parent then (s.pcb q).tcbs.erase t else (s.pcb q).tcbs } := by
  simp only [unlinkThread, setPcb, withSched, Function.update_apply]
  split_ifs with hq
  · rw [hq]
  · rfl

/-- A thread that is unlinked keeps its process and its mailbox, and so do the others. -/
theorem unlinkThread_thread (s : ProcTable) (t u : Nat) :
    ((s.unlinkThread t).sched.thread u).pid = (s.sched.thread u).pid ∧
      ((s.unlinkThread t).sched.thread u).mailbox = (s.sched.thread u).mailbox := by
  change ((s.sched.detachWait t).thread u).pid = _ ∧ ((s.sched.detachWait t).thread u).mailbox = _
  unfold Sched.detachWait
  split_ifs
  · exact ⟨rfl, rfl⟩
  · have hsame := s.sched.sameThreads_delist t (s.sched.thread t).waitingOn
    exact ⟨hsame.pid u, hsame.mailbox u⟩

/-- The wait queue of a mailbox, if there is one, is cleared. -/
def clearQueue (s : ProcTable) (mb : Nat) : ProcTable :=
  if mb = 0 then s else s.withSched (s.sched.setWaiters mb [])

/-- Without its stack and its lock, a thread is unlinked. -/
theorem dropThread_same (hp : (s.tcb t).parent ≤ s.mm.kheap.calls) :
    SameTable (s.unlinkThread t) (s.dropThread t) :=
  ((archTaskContextRelease_same s _ _ _).unlinkThread hp).trans (SameTable.spinlockRelease _ _)

theorem releaseMailbox_same (s : ProcTable) (mb : Nat) :
    SameTable (s.clearQueue mb) (s.releaseMailbox mb) := by
  unfold clearQueue releaseMailbox
  split_ifs
  · exact SameTable.refl s
  · exact ((SameTable.spinlockRelease s _).withSched _).trans (SameTable.kfree _ _)

theorem SameTable.clearQueue (h : SameTable s s') (mb : Nat) :
    SameTable (s.clearQueue mb) (s'.clearQueue mb) := by
  unfold ProcTable.clearQueue
  split_ifs
  · exact h
  · rw [h.sched]
    exact h.withSched _

/-- Deletion also clears the wait queue of the mailbox. -/
theorem reapThread_same (hp : (s.tcb t).parent ≤ s.mm.kheap.calls) :
    SameTable ((s.unlinkThread t).clearQueue (s.sched.thread t).mailbox) (s.reapThread t) :=
  (((dropThread_same hp).clearQueue _).trans (releaseMailbox_same _ _)).trans
    (SameTable.kfree _ _)

/-- Another ready thread takes over from the running thread `t`. -/
def HandsOver (s : ProcTable) (t : Nat) (s' : ProcTable) : Prop :=
  s.sched.run = some t ∧ ∃ next ∈ s.sched.candidates t, (s.sched.thread next).state = .ready ∧
    s' = s.runNext t next (s.sched.modify next fun th => { th with wakePending := false })

/-- A thread is not deleted, or it goes, after another one has taken over if it was running. -/
theorem threadDelete_cases (s : ProcTable) (tid : Nat) :
    s.threadDelete tid = s ∨ ∃ t, s.findThread tid = some t ∧
      (s.sched.run ≠ some t ∧ s.threadDelete tid = s.reapThread t ∨
        ∃ s', HandsOver s t s' ∧ s.threadDelete tid = s'.reapThread t) := by
  unfold ProcTable.threadDelete
  cases hrun : s.sched.run with
  | none => exact Or.inl rfl
  | some run =>
    dsimp only
    split
    · exact Or.inl rfl
    · rename_i t ht
      split_ifs with hne
      · exact Or.inr ⟨t, ht, Or.inl ⟨fun heq => hne (Option.some.inj heq).symm, rfl⟩⟩
      · rcases s.sched.findNextRunnable_cases t with ⟨-, heq⟩ | ⟨next, hnext, hready, heq⟩
        · rw [heq]
          exact Or.inl rfl
        · rw [heq]
          exact Or.inr ⟨t, ht, Or.inr ⟨_, ⟨by rw [hrun, not_not.mp hne], next, hnext, hready, rfl⟩,
            rfl⟩⟩

/-- A thread of a process that exits goes, after another one has taken over if it was running. -/
theorem exitThread_some (hs : s.exitThread t = some s') :
    s.sched.run ≠ some t ∧ s' = (s.dropThread t).kfree t ∨
      ∃ s₁, HandsOver s t s₁ ∧ s' = (s₁.dropThread t).kfree t := by
  unfold ProcTable.exitThread at hs
  split_ifs at hs with hrun
  · exact Or.inl ⟨hrun, (Option.some.inj hs).symm⟩
  · rcases s.sched.findNextRunnable_cases t with ⟨-, heq⟩ | ⟨next, hnext, hready, heq⟩
    · rw [heq] at hs
      cases hs
    · rw [heq] at hs
      exact Or.inr ⟨_, ⟨not_not.mp hrun, next, hnext, hready, rfl⟩, (Option.some.inj hs).symm⟩

theorem capRevokeAll_calls (mm : Resources) (caps : List Capability) :
    (capRevokeAll mm caps).1.kheap.calls = mm.kheap.calls := by
  induction caps generalizing mm with
  | nil => rfl
  | cons c caps ih => exact ih (mm.kfree c.addr)

/-- What a process holds goes back, and that is all. -/
theorem reapProc_same (L : Layout) (s : ProcTable) (p : Nat) : SameTable s (s.reapProc L p) := by
  have hcaps := capRevokeAll_calls s.mm (s.pcb p).capabilities
  have hspace := vmmDestroy_calls L (capRevokeAll s.mm (s.pcb p).capabilities).1 (s.pcb p).vcb
  exact ((((SameTable.withMm hcaps.ge).trans (SameTable.withMm hspace.ge)).trans
    (SameTable.spinlockRelease _ _)).trans (SameTable.spinlockRelease _ _)).trans
    (SameTable.kfree _ _)

/-! ## Creation -/

theorem linkThread_pcb (s : ProcTable) (t q : Nat) (f : TcbFields) (initial : ThreadState) :
    (s.linkThread t f initial).pcb q = { s.pcb q with
      tcbs := if q = f.parent then t :: (s.pcb q).tcbs else (s.pcb q).tcbs } := by
  simp only [linkThread, Function.update_apply]
  split_ifs with hq
  · rw [hq]
  · rfl

/-- A thread that is made: its record is new, it is listed, and it gets a mailbox. -/
def enroll (s : ProcTable) (t : Nat) (f : TcbFields) (initial : ThreadState) : ProcTable :=
  let s := s.linkThread t f initial
  (if s.sched.run = none then s.startFirst t f.parent else s).giveMailbox t

theorem threadCreateEx_cases (L : Layout) (s : ProcTable) (p : Nat) (ring : Priv)
    (initial : ThreadState) :
    (s.threadCreateEx L p ring initial).1 < 0 ∧
        SameTable s (s.threadCreateEx L p ring initial).2 ∨
      p ≠ 0 ∧ ∃ s₁ t stack lock, SameTable s s₁ ∧ s.mm.kheap.calls < t ∧
        t ≤ s₁.mm.kheap.calls ∧ s.threadCreateEx L p ring initial =
          (signedOf s.nextTid, s₁.enroll t ⟨s.nextTid, p, ring, stack, lock⟩ initial) := by
  unfold threadCreateEx
  split_ifs with hp
  · exact Or.inl ⟨(by decide : eInval < 0), SameTable.refl s⟩
  dsimp only
  have hnew := SameTable.kmalloc s
  split_ifs with ht
  · exact Or.inl ⟨(by decide : eNomem < 0), hnew⟩
  have hname : s.mm.kmalloc.1 = s.mm.kheap.calls + 1 := Arena.kmalloc_name ht
  have hctx := archTaskContextInit_same L (s.withMm s.mm.kmalloc.2) p ring
  generalize (s.withMm s.mm.kmalloc.2).archTaskContextInit L p ring = res at hctx ⊢
  obtain ⟨_ | stack, s₁⟩ := res
  · exact Or.inl ⟨(by decide : eThreadCreate < 0), (hnew.trans hctx).trans (SameTable.kfree s₁ _)⟩
  dsimp only
  have hlock := SameTable.spinlockAlloc s₁
  generalize s₁.mm.spinlockAlloc = res at hlock ⊢
  obtain ⟨_ | lock, mm⟩ := res
  · refine Or.inl ⟨(by decide : eLimit < 0), ?_⟩
    have hrel := archTaskContextRelease_same (s₁.withMm mm) p ring stack
    exact (((hnew.trans hctx).trans hlock).trans hrel).trans (SameTable.kfree _ _)
  · refine Or.inr ⟨hp, s₁.withMm mm, s.mm.kmalloc.1, stack, lock, (hnew.trans hctx).trans hlock,
      by omega, ?_, ?_⟩
    · have h₁ : s.mm.kmalloc.2.kheap.calls ≤ s₁.mm.kheap.calls := hctx.calls
      have h₂ : s₁.mm.kheap.calls ≤ mm.kheap.calls := hlock.calls
      rw [kmalloc_calls, ← hname] at h₁
      exact h₁.trans h₂
    · have htid : s₁.nextTid = s.nextTid := hctx.nextTid
      rw [htid]
      rfl

theorem vmmSwitch_eq (s : ProcTable) (p : Nat) : s.vmmSwitch p =
    { s with cr3 := if (s.pcb p).vcb.cr3 = 0 then s.cr3 else (s.pcb p).vcb.cr3 } := by
  unfold vmmSwitch
  split_ifs <;> rfl

/-- A mailbox is a new block with an empty wait queue, or there is none. -/
structure MailboxMade (s : ProcTable) (t : Nat) (s' : ProcTable) : Prop where
  calls : s.mm.kheap.calls ≤ s'.mm.kheap.calls
  sched : ∃ mb, (mb = 0 ∧ s'.sched = s.sched.modify t (fun th => { th with mailbox := mb })) ∨
    s.mm.kheap.calls < mb ∧
      s'.sched = (s.sched.setWaiters mb []).modify t (fun th => { th with mailbox := mb })
  rest : s' = { s with mm := s'.mm, sched := s'.sched, boxLock := s'.boxLock }

theorem giveMailbox_made (s : ProcTable) (t : Nat) : MailboxMade s t (s.giveMailbox t) := by
  unfold giveMailbox allocMailbox
  dsimp only
  have hcalls := kmalloc_calls s.mm
  split_ifs with hmb
  · exact ⟨(Nat.le_succ _).trans_eq hcalls.symm, ⟨0, Or.inl ⟨rfl, rfl⟩⟩, rfl⟩
  have hname : s.mm.kmalloc.1 = s.mm.kheap.calls + 1 := Arena.kmalloc_name hmb
  have hlock := SameTable.spinlockAlloc (s.withMm s.mm.kmalloc.2)
  generalize (s.withMm s.mm.kmalloc.2).mm.spinlockAlloc = res at hlock ⊢
  have hle : s.mm.kheap.calls ≤ res.2.kheap.calls :=
    ((Nat.le_succ _).trans_eq hcalls.symm).trans hlock.calls
  obtain ⟨_ | lock, mm⟩ := res
  · exact ⟨hle, ⟨0, Or.inl ⟨rfl, rfl⟩⟩, rfl⟩
  · exact ⟨hle, ⟨s.mm.kmalloc.1, Or.inr ⟨by omega, rfl⟩⟩, rfl⟩

/-- The records that a new thread leaves as they are. -/
theorem enroll_pcb (s : ProcTable) (t : Nat) (f : TcbFields) (initial : ThreadState) :
    (s.enroll t f initial).pcb = Function.update s.pcb f.parent
      { s.pcb f.parent with tcbs := t :: (s.pcb f.parent).tcbs } := by
  unfold enroll
  rw [(giveMailbox_made _ t).rest]
  split_ifs
  · unfold startFirst
    rw [vmmSwitch_eq]
    rfl
  · rfl

/-- The counter of processes moves on. -/
def bumpPid (s : ProcTable) : ProcTable := { s with nextPid := (s.nextPid + 1) % 2 ^ 32 }

/-- A process without threads is listed. -/
structure ProcListed (s : ProcTable) (p : Nat) (priv : Priv) (s' : ProcTable) : Prop where
  fresh : s.mm.kheap.calls < p
  named : p ≤ s'.mm.kheap.calls
  sched : s'.sched = s.sched
  tcb : s'.tcb = s.tcb
  procHead : s'.procHead = p :: s.procHead
  self : (s'.pcb p).pid = s.nextPid ∧ (s'.pcb p).tcbs = [] ∧ (s'.pcb p).priv = priv ∧
    (s'.pcb p).vcb.cr3 ≠ 0
  pcb : ∀ q ≠ p, s'.pcb q = s.pcb q
  ctxInfo : s'.ctxInfo = s.ctxInfo
  cr3 : s'.cr3 = s.cr3
  currTaskCtx : s'.currTaskCtx = s.currTaskCtx
  nextTid : s'.nextTid = s.nextTid
  nextPid : s'.nextPid = (s.nextPid + 1) % 2 ^ 32
  halted : s'.halted = s.halted

/-- A process that is listed goes again: the others are as they were. -/
theorem ProcListed.undo (h : ProcListed s p priv s') (h' : SameTable s' s'') {mm : Resources}
    (hcalls : s''.mm.kheap.calls ≤ mm.kheap.calls) :
    SameTable s.bumpPid { s'' with procHead := s''.procHead.erase p, mm } := by
  have hle : s.mm.kheap.calls ≤ s'.mm.kheap.calls := h.fresh.le.trans h.named
  refine ⟨(hle.trans h'.calls).trans hcalls, h'.sched.trans h.sched, h'.tcb.trans h.tcb, ?_,
    fun q hq => ?_, h'.ctxInfo.trans h.ctxInfo, h'.cr3.trans h.cr3,
    h'.currTaskCtx.trans h.currTaskCtx, h'.nextTid.trans h.nextTid, h'.nextPid.trans h.nextPid,
    h'.halted.trans h.halted⟩
  · change s''.procHead.erase p = s.procHead
    rw [h'.procHead, h.procHead, List.erase_cons_head]
  · have hq' : q ≤ s.mm.kheap.calls := hq
    have hne : q ≠ p := fun heq => absurd h.fresh (by omega)
    have hsame := h'.pcb q (hq'.trans hle)
    rw [h.pcb q hne] at hsame
    exact hsame

/-- Inheritance changes the capabilities of the new process and nothing else. -/
theorem inheritAll_eq (s : ProcTable) (p : Nat) : ∃ mm capabilities,
    s.mm.kheap.calls ≤ mm.kheap.calls ∧
      s.inheritAll p = (s.withMm mm).setPcb p { s.pcb p with capabilities } := by
  unfold inheritAll
  cases s.sched.run with
  | none =>
    refine ⟨s.mm, (s.pcb p).capabilities, Nat.le_refl _, ?_⟩
    have hself : Function.update s.pcb p (s.pcb p) = s.pcb := Function.update_eq_self p s.pcb
    exact congrArg (fun pcb => { s with pcb }) hself.symm
  | some t =>
    exact ⟨_, _, (capInheritAll_spec s.mm [] _).1.calls, rfl⟩

/-- The process that runs has no part in the records of a new one. -/
theorem newPcb_listed {mm : Resources} (hfresh : s.mm.kheap.calls < p)
    (hcalls : p ≤ mm.kheap.calls) (priv : Priv) (spLock capLock : Nat) {vcb : Vcb}
    (hcr3 : vcb.cr3 ≠ 0) :
    let s₁ := ((s.bumpPid.withMm mm).newPcb p s.nextPid priv spLock capLock vcb).inheritAll p
    ProcListed s p priv { s₁ with procHead := p :: s₁.procHead } := by
  obtain ⟨mm', capabilities, hle, heq⟩ :=
    ((s.bumpPid.withMm mm).newPcb p s.nextPid priv spLock capLock vcb).inheritAll_eq p
  have hself : ((s.bumpPid.withMm mm).newPcb p s.nextPid priv spLock capLock vcb).pcb p =
    ⟨s.nextPid, false, priv, [], spLock, capLock, vcb, []⟩ := Function.update_self _ _ _
  rw [hself] at heq
  rw [heq]
  intro s₁
  have hpcb : s₁.pcb p = ⟨s.nextPid, false, priv, [], spLock, capLock, vcb, capabilities⟩ :=
    Function.update_self _ _ _
  refine ⟨hfresh, hcalls.trans hle, rfl, rfl, rfl, ?_, fun q hq => ?_, rfl, rfl, rfl, rfl, rfl, rfl⟩
  · rw [hpcb]
    exact ⟨rfl, rfl, rfl, hcr3⟩
  · exact (Function.update_of_ne hq _ _).trans (Function.update_of_ne hq _ _)

/-- The first thread of a listed process is made, or the process goes again. -/
theorem startProc_cases {s₀ : ProcTable} {initial : ThreadState}
    (h : ProcListed s₀ p priv { s with procHead := p :: s.procHead })
    (htid : s₀.nextTid < 2 ^ 31) :
    (s.startProc L p initial).1 < 0 ∧ (SameTable s₀ (s.startProc L p initial).2 ∨
        SameTable s₀.bumpPid (s.startProc L p initial).2) ∨
      ∃ s₁ q, ProcListed s₀ q priv s₁ ∧ 0 ≤ (s₁.threadCreateEx L q priv initial).1 ∧
        s.startProc L p initial =
          (signedOf s₀.nextPid, (s₁.threadCreateEx L q priv initial).2) := by
  unfold startProc
  dsimp only
  set s₁ : ProcTable := { s with procHead := p :: s.procHead } with hs₁
  have hpriv : (s.pcb p).priv = priv := h.self.2.2.1
  rw [hpriv]
  rcases threadCreateEx_cases L s₁ p priv initial with ⟨hneg, hsame⟩ |
    ⟨-, s₂, t, stack, lock, hsame, hlt, hle, heq⟩
  · -- no thread: what has been made for the process goes back
    rw [if_neg (not_le.mpr hneg)]
    refine Or.inl ⟨hneg, Or.inr ?_⟩
    have hgone := h.undo hsame (Nat.le_of_eq (vmmDestroy_calls L
      (s₁.threadCreateEx L p priv initial).2.mm
      ((s₁.threadCreateEx L p priv initial).2.pcb p).vcb).symm)
    exact ((hgone.trans (SameTable.spinlockRelease _ _)).trans
      (SameTable.spinlockRelease _ _)).trans (SameTable.kfree _ _)
  · have hpos : 0 ≤ (s₁.threadCreateEx L p priv initial).1 := by
      rw [heq]
      exact signedOf_nonneg (h.nextTid.symm ▸ htid)
    have hpid : ((s₁.threadCreateEx L p priv initial).2.pcb p).pid = s₀.nextPid := by
      rw [heq]
      rw [enroll_pcb, Function.update_self]
      exact (hsame.pcb p h.named).pid.trans h.self.1
    rw [if_pos hpos, hpid]
    exact Or.inr ⟨s₁, p, h, hpos, rfl⟩

/-- `p_create_ex` fails early and nothing but a counter has changed, or the process is listed. -/
theorem pCreateEx_listed (L : Layout) (s : ProcTable) (priv : Priv) (initial : ThreadState) :
    (s.pCreateEx L priv initial).1 < 0 ∧ (SameTable s (s.pCreateEx L priv initial).2 ∨
        SameTable s.bumpPid (s.pCreateEx L priv initial).2) ∨
      ∃ (s₁ : ProcTable) (p : Nat), ProcListed s p priv { s₁ with procHead := p :: s₁.procHead } ∧
        s.pCreateEx L priv initial = s₁.startProc L p initial := by
  unfold pCreateEx
  dsimp only
  have hnew := SameTable.kmalloc s
  split_ifs with hp
  · exact Or.inl ⟨(by decide : eNomem < 0), Or.inl hnew⟩
  have hname : s.mm.kmalloc.1 = s.mm.kheap.calls + 1 := Arena.kmalloc_name hp
  have hlock₁ := SameTable.spinlockAlloc (s.withMm s.mm.kmalloc.2)
  generalize (s.withMm s.mm.kmalloc.2).mm.spinlockAlloc = res at hlock₁ ⊢
  obtain ⟨_ | spLock, mm₁⟩ := res
  · exact Or.inl ⟨(by decide : eLimit < 0),
      Or.inl ((hnew.trans hlock₁).trans (SameTable.kfree _ _))⟩
  dsimp only
  have hlock₂ := SameTable.spinlockAlloc ((s.withMm s.mm.kmalloc.2).withMm mm₁)
  generalize ((s.withMm s.mm.kmalloc.2).withMm mm₁).mm.spinlockAlloc = res at hlock₂ ⊢
  obtain ⟨_ | capLock, mm₂⟩ := res
  · exact Or.inl ⟨(by decide : eLimit < 0), Or.inl ((((hnew.trans hlock₁).trans hlock₂).trans
      (SameTable.spinlockRelease _ _)).trans (SameTable.kfree _ _))⟩
  have hle₂ : s.mm.kmalloc.1 ≤ mm₂.kheap.calls := by
    have h₁ : s.mm.kmalloc.2.kheap.calls ≤ mm₁.kheap.calls := hlock₁.calls
    have h₂ : mm₁.kheap.calls ≤ mm₂.kheap.calls := hlock₂.calls
    rw [kmalloc_calls] at h₁
    omega
  dsimp only
  have hspace := vmmCreate_calls L mm₂
  generalize hcreate : vmmCreate L _ = res
  have hcreate' : vmmCreate L mm₂ = res := hcreate
  rw [hcreate'] at hspace
  obtain ⟨err | vcb, mm₃⟩ := res
  · have hle₃ : s.mm.kheap.calls ≤ mm₃.kheap.calls := by
      have := hspace.1
      dsimp only at this
      omega
    have hbump : SameTable s.bumpPid (s.bumpPid.withMm mm₃) := SameTable.withMm hle₃
    exact Or.inl ⟨(by decide : eNomem < 0), Or.inr (((hbump.trans
      (SameTable.spinlockRelease _ _)).trans (SameTable.spinlockRelease _ _)).trans
      (SameTable.kfree _ _))⟩
  · have hlisted := newPcb_listed (show s.mm.kheap.calls < s.mm.kmalloc.1 by omega)
      (hle₂.trans hspace.1) priv spLock capLock (hspace.2 vcb rfl)
    exact Or.inr ⟨_, s.mm.kmalloc.1, hlisted, rfl⟩

/-- A process is not created and nothing but a counter has changed, or it is listed and gets its
first thread. -/
theorem pCreateEx_cases (L : Layout) (s : ProcTable) (priv : Priv) (initial : ThreadState)
    (htid : s.nextTid < 2 ^ 31) :
    (s.pCreateEx L priv initial).1 < 0 ∧ (SameTable s (s.pCreateEx L priv initial).2 ∨
        SameTable s.bumpPid (s.pCreateEx L priv initial).2) ∨
      ∃ s₁ p, ProcListed s p priv s₁ ∧ 0 ≤ (s₁.threadCreateEx L p priv initial).1 ∧
        s.pCreateEx L priv initial =
          (signedOf s.nextPid, (s₁.threadCreateEx L p priv initial).2) := by
  rcases pCreateEx_listed L s priv initial with hfail | ⟨s₁, p, hlisted, heq⟩
  · exact Or.inl hfail
  · rw [heq]
    exact startProc_cases hlisted htid

end ProcTable

end Ukernel.Kernel
