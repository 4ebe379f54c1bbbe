import Ukernel.Arch.PagingSupply
import Ukernel.Kernel.ProcessLife

/-!
# Processes that cannot be created

`p_create_ex` takes a record, two locks and an address space, lets the new process inherit the
capabilities of its creator, and then makes the first thread. Wherever an allocation fails, what has
been taken so far goes back, with one exception: when there is no thread, `p_create_ex` rolls the
process back without `cap_revoke_all`, which `proc_exit_internal` calls, and the copies of the
capabilities stay in the heap.

## What is lost, and when

The copies are lost just if there are any: the creator has capabilities, and the allocations before
the first copy and the copy itself succeed. `Affords` says so about the state before the call: the
record, the tree with its sentinel, and the copy are four requests to the heap; the process has two
locks and its address space a third one; the page directory is a slot of the pool.

## Main definitions

* `Answers`, `freeLocks`, `Affords`: what an allocation needs is there
* `creatorCaps`: the capabilities that a new process inherits
* `Clean`: a failure has left nothing behind

## Main results

* `Acquires.supply`, `exists_acquires`: when a process gets as far as its address space
* `Charged.startProc_fails`: the copies of the capabilities are what is left of a process without a
  thread
* `creation_failure_clean`: a failure leaves nothing behind just if there is nothing to inherit, or
  it comes before the first copy
-/

namespace Ukernel.Mm

open Arch Lib

variable {L : Layout} {dirs : Set Nat} {mm mm' : Resources}

/-- The heap answers the next `n` requests. -/
def Resources.Answers (mm : Resources) (n : Nat) : Prop :=
  ∀ i < n, mm.kheap.fails (mm.kheap.calls + i) = false

/-- The locks that are not taken. -/
def Resources.freeLocks (mm : Resources) : Finset Nat :=
  (Finset.range Resources.spinLockMaxCount).filter fun i => mm.locks i = false

/-- There is enough for the process and for a copy of a capability. -/
structure Resources.Affords (mm : Resources) : Prop where
  heap : mm.Answers 4
  locks : 3 ≤ mm.freeLocks.card
  pool : (freeSlots mm.paging).Nonempty

open Resources

theorem kmalloc_ne_zero_iff : mm.kmalloc.1 ≠ 0 ↔ mm.kheap.fails mm.kheap.calls = false := by
  unfold Resources.kmalloc Arena.kmalloc
  split_ifs with hfails
  · simp [hfails]
  · simp [hfails]

theorem answers_zero (mm : Resources) : mm.Answers 0 := fun _ hi => absurd hi (Nat.not_lt_zero _)

/-- The first request, and the others. -/
theorem answers_succ {n : Nat} :
    mm.Answers (n + 1) ↔ mm.kmalloc.1 ≠ 0 ∧ mm.kmalloc.2.Answers n := by
  have hcalls : mm.kmalloc.2.kheap.calls = mm.kheap.calls + 1 := mm.kheap.kmalloc_calls
  have hfails : mm.kmalloc.2.kheap.fails = mm.kheap.fails := by
    unfold Resources.kmalloc Arena.kmalloc
    split_ifs <;> rfl
  unfold Answers
  rw [kmalloc_ne_zero_iff, hcalls, hfails]
  constructor
  · intro h
    refine ⟨h 0 (Nat.succ_pos n), fun i hi => ?_⟩
    rw [Nat.add_assoc, Nat.add_comm 1 i]
    exact h (i + 1) (Nat.succ_lt_succ hi)
  · rintro ⟨hfirst, hrest⟩ i hi
    cases i with
    | zero => exact hfirst
    | succ i => grind

theorem Resources.Answers.congr {n : Nat} (h : mm'.kheap = mm.kheap) :
    mm'.Answers n ↔ mm.Answers n := by
  unfold Answers
  rw [h]

/-- A lock can be had while one is free, and then there is one less. -/
theorem spinlockAlloc_supply (mm : Resources) :
    mm.freeLocks.card = 0 ∧ mm.spinlockAlloc = (none, mm) ∨
      ∃ i mm', mm.spinlockAlloc = (some i, mm') ∧ mm.freeLocks.card = mm'.freeLocks.card + 1 ∧
        mm'.kheap = mm.kheap ∧ mm'.paging = mm.paging := by
  rcases halloc : mm.spinlockAlloc with ⟨_ | i, mm'⟩
  · obtain rfl := spinlockAlloc_none halloc
    refine Or.inl ⟨?_, rfl⟩
    unfold spinlockAlloc at halloc
    split at halloc
    · cases halloc
    · rename_i hnone
      rw [Finset.card_eq_zero, freeLocks, Finset.filter_eq_empty_iff]
      intro j hj hfree
      exact firstFree_ne_none (Nat.zero_le j) (by simpa using hj) hfree hnone
  · have hlt : i < spinLockMaxCount := by
      unfold spinlockAlloc at halloc
      split at halloc
      · rename_i j hj
        cases halloc
        simpa using (firstFree_some hj).2.1
      · cases halloc
    obtain ⟨hfree, rfl⟩ := spinlockAlloc_some halloc
    refine Or.inr ⟨i, _, rfl, ?_, rfl, rfl⟩
    have herase : freeLocks ⟨mm.pmm, mm.paging, mm.kheap, Function.update mm.locks i true⟩ =
        mm.freeLocks.erase i := by grind [freeLocks]
    have hmem : i ∈ mm.freeLocks :=
      Finset.mem_filter.mpr ⟨Finset.mem_range.mpr hlt, hfree⟩
    rw [herase, Finset.card_erase_add_one hmem]

/-- The pool has a slot for a page directory, or none is free. -/
theorem archCloneKernelPde_supply {pg : Paging} (hwf : pg.Wf L dirs) :
    archPagingPoolAlloc L pg = (0, pg) ∧ freeSlots pg = ∅ ∨
      (freeSlots pg).Nonempty ∧ ∃ pa pg₁ pg', archPagingPoolAlloc L pg = (pa, pg₁) ∧ pa ≠ 0 ∧
        archCloneKernelPde pg₁ pa = (pa, pg') := by
  rcases archCloneKernelPde_created hwf with hfull | ⟨d, pg₁, pg', hpool, hclone, hcreated⟩
  · exact Or.inl ⟨hfull, Spent.freeSlots_of_none (archPagingPoolAlloc_lacks hwf.poolLock hfull)⟩
  · have hne : d * 4096 ≠ 0 := Nat.mul_ne_zero hcreated.pos (by decide)
    refine Or.inr ⟨?_, _, pg₁, pg', hpool, hne, hclone⟩
    rcases archPagingPoolAlloc_cases (L := L) hwf.poolLock with heq | ⟨i, hi, hfree, -, -⟩
    · rw [hpool] at heq
      exact absurd (congrArg Prod.fst heq) hne
    · exact ⟨i, Finset.mem_filter.mpr ⟨Finset.mem_range.mpr hi, hfree⟩⟩

/-- An address space needs two blocks, a lock and a slot. -/
theorem vmmCreate_supply (hwf : mm.paging.Wf L dirs) :
    (∃ err mm', vmmCreate L mm = (.error err, mm')) ∧
        ¬(mm.Answers 2 ∧ 1 ≤ mm.freeLocks.card ∧ (freeSlots mm.paging).Nonempty) ∨
      ∃ v mm', vmmCreate L mm = (.ok v, mm') ∧ 1 ≤ mm.freeLocks.card ∧
        (freeSlots mm.paging).Nonempty ∧ ∀ n, mm.Answers (n + 2) ↔ mm'.Answers n := by
  unfold vmmCreate treeCreate
  rcases spinlockAlloc_supply mm with ⟨hnone, heq⟩ | ⟨lock, mm₁, heq, hcard, hheap, hpaging⟩
  · rw [heq]
    exact Or.inl ⟨⟨_, _, rfl⟩, fun h => by omega⟩
  rw [heq]
  dsimp only
  have hanswers (n : Nat) : mm.Answers (n + 2) ↔ mm₁.kmalloc.1 ≠ 0 ∧ mm₁.kmalloc.2.kmalloc.1 ≠ 0 ∧
      mm₁.kmalloc.2.kmalloc.2.Answers n := by
    rw [← Answers.congr hheap, answers_succ, answers_succ]
  by_cases htree : mm₁.kmalloc.1 = 0
  · rw [if_pos htree]
    exact Or.inl ⟨⟨_, _, rfl⟩, fun h => ((hanswers 0).mp h.1).1 htree⟩
  rw [if_neg htree]
  by_cases hnil : mm₁.kmalloc.2.kmalloc.1 = 0
  · rw [if_pos hnil]
    exact Or.inl ⟨⟨_, _, rfl⟩, fun h => ((hanswers 0).mp h.1).2.1 hnil⟩
  rw [if_neg hnil]
  have hsame : mm₁.kmalloc.2.kmalloc.2.paging = mm.paging := hpaging
  dsimp only
  rw [hsame]
  rcases archCloneKernelPde_supply hwf with
    ⟨hfull, hempty⟩ | ⟨hslot, pa, pg₁, pg₂, hpool, hpa, hclone⟩
  · rw [hfull, if_pos rfl]
    refine Or.inl ⟨⟨_, _, rfl⟩, fun h => ?_⟩
    rw [hempty] at h
    exact Finset.not_nonempty_empty h.2.2
  · rw [hpool]
    simp only [if_neg hpa, withPaging_paging, hclone]
    refine Or.inr ⟨_, _, rfl, by omega, hslot, fun n => ?_⟩
    exact (hanswers n).trans ((and_iff_right htree).trans (and_iff_right hnil))

end Ukernel.Mm

namespace Ukernel.Kernel

open Arch Lib Machine Mm Sync Resources

namespace ProcTable

variable {L : Layout} {dirs : Set Nat} {mm₀ : Resources} {s : ProcTable} {p : Nat}

/-- The capabilities of the process that runs, which a new process inherits. -/
def creatorCaps (s : ProcTable) : List Capability :=
  match s.sched.run with
  | none => []
  | some t => (s.pcb (s.tcb t).parent).capabilities

/-- The resources and the lists of processes and threads are what they were. -/
structure Clean (s s' : ProcTable) : Prop where
  restored : Restored s.mm s'.mm
  procHead : s'.procHead = s.procHead
  threadHead : s'.sched.order = s.sched.order

/-! ## Before the process is listed -/

section Acquires

variable {mm mm' : Resources} {spLock capLock : Nat} {vcb : Vcb}

/-- What has been taken was there. -/
theorem Acquires.supply (h : Acquires L mm spLock capLock vcb mm') (hwf : mm.paging.Wf L dirs) :
    3 ≤ mm.freeLocks.card ∧ (freeSlots mm.paging).Nonempty ∧
      ∀ n, mm.Answers (n + 3) ↔ mm'.Answers n := by
  obtain ⟨hp, mm₁, mm₂, hlock₁, hlock₂, hspace⟩ := h
  rcases spinlockAlloc_supply mm.kmalloc.2 with ⟨-, heq⟩ | ⟨i, mm₃, heq, hcard₁, hheap₁, hpaging₁⟩
  · rw [hlock₁] at heq
    cases heq
  cases hlock₁.symm.trans heq
  rcases spinlockAlloc_supply mm₁ with ⟨-, heq⟩ | ⟨i, mm₃, heq, hcard₂, hheap₂, hpaging₂⟩
  · rw [hlock₂] at heq
    cases heq
  cases hlock₂.symm.trans heq
  have hpaging : mm₂.paging = mm.paging := hpaging₂.trans hpaging₁
  have hcard : mm.kmalloc.2.freeLocks.card = mm.freeLocks.card := rfl
  rcases vmmCreate_supply (hpaging ▸ hwf) with
    ⟨⟨err, mm₃, heq⟩, -⟩ | ⟨v, mm₃, heq, hlock, hslot, hanswers⟩
  · rw [hspace] at heq
    cases heq
  cases hspace.symm.trans heq
  refine ⟨by omega, hpaging ▸ hslot, fun n => ?_⟩
  rw [answers_succ, and_iff_right hp, ← hanswers n, Answers.congr (hheap₂.trans hheap₁)]

/-- What is there can be taken. -/
theorem exists_acquires (hwf : mm.paging.Wf L dirs) (hheap : mm.Answers 3)
    (hlocks : 3 ≤ mm.freeLocks.card) (hpool : (freeSlots mm.paging).Nonempty) :
    ∃ spLock capLock vcb mm', Acquires L mm spLock capLock vcb mm' := by
  obtain ⟨hp, hheap⟩ := answers_succ.mp hheap
  have hcard : mm.kmalloc.2.freeLocks.card = mm.freeLocks.card := rfl
  rcases spinlockAlloc_supply mm.kmalloc.2 with
    ⟨hnone, -⟩ | ⟨spLock, mm₁, hlock₁, hcard₁, hheap₁, hpaging₁⟩
  · omega
  rcases spinlockAlloc_supply mm₁ with
    ⟨hnone, -⟩ | ⟨capLock, mm₂, hlock₂, hcard₂, hheap₂, hpaging₂⟩
  · omega
  have hpaging : mm₂.paging = mm.paging := hpaging₂.trans hpaging₁
  rcases vmmCreate_supply (hpaging ▸ hwf) with ⟨-, hno⟩ | ⟨vcb, mm', hspace, -⟩
  · grind [Answers.congr]
  · exact ⟨spLock, capLock, vcb, mm', hp, mm₁, mm₂, hlock₁, hlock₂, hspace⟩

/-- There is enough for a copy of a capability just if the heap has a block for it after everything
else. -/
theorem Acquires.affords_iff (h : Acquires L mm spLock capLock vcb mm')
    (hwf : mm.paging.Wf L dirs) : mm.Affords ↔ mm'.kmalloc.1 ≠ 0 := by
  obtain ⟨hlocks, hpool, hanswers⟩ := h.supply hwf
  have hfirst : mm'.Answers 1 ↔ mm'.kmalloc.1 ≠ 0 :=
    answers_succ.trans (and_iff_left (answers_zero _))
  rw [← hfirst, ← hanswers 1]
  exact ⟨fun h => h.heap, fun h => ⟨h, hlocks, hpool⟩⟩

theorem not_affords (hwf : mm.paging.Wf L dirs)
    (h : ¬∃ spLock capLock vcb mm', Acquires L mm spLock capLock vcb mm') : ¬mm.Affords :=
  fun ha => h (exists_acquires hwf (fun i hi => ha.heap i (by omega)) ha.locks ha.pool)

end Acquires

/-! ## The copies of the capabilities -/

theorem capInheritAll_ne_nil (mm : Resources) {caps : List Capability} (h : caps ≠ [])
    (parent : List Capability) : (capInheritAll mm caps parent).2 ≠ [] := by
  induction parent generalizing mm caps with
  | nil => exact h
  | cons src parent ih => grind [capInheritAll]

/-- Nothing is inherited if there is nothing, or no block for the first copy. -/
theorem capInheritAll_eq_nil_iff (mm : Resources) (parent : List Capability) :
    (capInheritAll mm [] parent).2 = [] ↔ parent = [] ∨ mm.kmalloc.1 = 0 := by
  cases parent with
  | nil => simp [capInheritAll]
  | cons src parent => grind [capInheritAll_ne_nil, capInheritAll]

/-- The record of a new process that has inherited. -/
theorem inheritAll_pcb (s : ProcTable) (priv : Priv) (spLock capLock : Nat) (vcb : Vcb)
    (mm : Resources) :
    let s₁ := (s.admitProc priv spLock capLock vcb mm).inheritAll s.mm.kmalloc.1
    (s₁.pcb s.mm.kmalloc.1).tcbs = [] ∧ (s₁.pcb s.mm.kmalloc.1).pid = s.nextPid ∧
      s₁.nextTid = s.nextTid := by
  intro s₁
  obtain ⟨mm', capabilities, -, heq⟩ :=
    (s.admitProc priv spLock capLock vcb mm).inheritAll_eq s.mm.kmalloc.1
  rw [s.admitProc_pcb priv spLock capLock vcb mm] at heq
  have hpcb : s₁.pcb s.mm.kmalloc.1 =
      ⟨s.nextPid, false, priv, [], spLock, capLock, vcb, capabilities⟩ :=
    (congrArg (fun s₂ => s₂.pcb s.mm.kmalloc.1) heq).trans (Function.update_self _ _ _)
  rw [hpcb]
  exact ⟨rfl, rfl, (congrArg ProcTable.nextTid heq).trans rfl⟩

/-- A new process has inherited nothing if its creator has nothing, or there was no block for the
first copy. -/
theorem inheritAll_eq_nil_iff (hl : s.Linked) (hp : s.mm.kmalloc.1 ≠ 0) (priv : Priv)
    (spLock capLock : Nat) (vcb : Vcb) (mm : Resources) :
    (((s.admitProc priv spLock capLock vcb mm).inheritAll s.mm.kmalloc.1).pcb
      s.mm.kmalloc.1).capabilities = [] ↔ s.creatorCaps = [] ∨ mm.kmalloc.1 = 0 := by
  have hself := s.admitProc_pcb priv spLock capLock vcb mm
  have hname : s.mm.kmalloc.1 = s.mm.kheap.calls + 1 := Arena.kmalloc_name hp
  have hrun : (s.admitProc priv spLock capLock vcb mm).sched.run = s.sched.run := rfl
  unfold inheritAll creatorCaps
  rw [hrun]
  cases hr : s.sched.run with
  | none => simp [hself]
  | some t =>
    have hle : (s.tcb t).parent ≤ s.mm.kheap.calls := hl.parent_le (hl.run hr)
    have hne : (s.tcb t).parent ≠ s.mm.kmalloc.1 := by omega
    have hparent : (s.admitProc priv spLock capLock vcb mm).pcb (s.tcb t).parent =
        s.pcb (s.tcb t).parent := Function.update_of_ne hne _ _
    dsimp only
    rw [show (s.admitProc priv spLock capLock vcb mm).tcb t = s.tcb t from rfl, hparent]
    rw [show (ProcTable.setPcb _ _ _).pcb s.mm.kmalloc.1 = _ from Function.update_self _ _ _]
    exact capInheritAll_eq_nil_iff mm _

/-! ## The first thread -/

/-- What is left of a process that gets no thread: the copies of the capabilities. -/
theorem Charged.startProc_fails {initial : ThreadState} (h : Charged L dirs mm₀ [] [] s p)
    (hnone : (s.pcb p).tcbs = [])
    (hfits : (s.pcb p).priv = .user → StackFits L s.mm (s.pcb p).vcb) (htid : s.nextTid < 2 ^ 31)
    (hpid : (s.pcb p).pid < 2 ^ 31) (hfail : (s.startProc L p initial).1 < 0) :
    Lent mm₀ ((s.pcb p).capabilities.map Capability.addr) [] (s.startProc L p initial).2.mm := by
  have hlist : Charged L dirs mm₀ [] [] { s with procHead := p :: s.procHead } p :=
    Agree.charged (s := s) ⟨Nat.le_refl _, ⟨_, _, rfl⟩, rfl, Sched.SameThreads.refl _, rfl⟩
      h.family h.loans
  have hcharged := hlist.threadCreateEx hfits initial
  unfold ProcTable.startProc at hfail ⊢
  dsimp only at hfail ⊢
  rcases threadCreateEx_cases L { s with procHead := p :: s.procHead } p (s.pcb p).priv initial with
    ⟨hneg, hsame⟩ | ⟨-, s₁, t, stack, lock, hsame, -, -, heq⟩
  · rw [if_neg (not_le.mpr hneg)]
    have hpcb := hsame.pcb p h.proc_le
    have hback := (hcharged.giveBack (hpcb.tcbs.trans hnone)).perm List.perm_middle
      (List.Perm.refl _)
    rw [hpcb.capabilities, List.append_nil] at hback
    exact (Lent.of_loans hback).spinlockRelease.spinlockRelease.kfree
  · -- there is a thread, and the identifiers are not negative
    rw [heq, if_pos (signedOf_nonneg htid)] at hfail
    rw [enroll_pcb, Function.update_self] at hfail
    rw [(hsame.pcb p h.proc_le).pid] at hfail
    exact absurd hfail (not_lt.mpr (signedOf_nonneg hpid))

end ProcTable

open ProcTable

/-- When `p_create_ex` fails, the resources and the lists are what they were just if the creator has
no capabilities, or there was not enough for a copy of one. -/
theorem creation_failure_clean {L : Layout} {dirs : Set Nat} {s : ProcTable} {priv : Priv}
    {initial : ThreadState} (hm : s.mm.Ok L dirs) (hl : s.Linked)
    (hfirst : priv = .user → Clear L s.mm.paging (userAnonBase / 2 ^ 22))
    (htid : s.nextTid < 2 ^ 31) (hpid : s.nextPid < 2 ^ 31)
    (hfail : (s.pCreateEx L priv initial).1 < 0) :
    Clean s (s.pCreateEx L priv initial).2 ↔ s.creatorCaps = [] ∨ ¬s.mm.Affords := by
  have hlists : (s.pCreateEx L priv initial).2.procHead = s.procHead ∧
      (s.pCreateEx L priv initial).2.sched.order = s.sched.order := by
    rcases pCreateEx_cases L s priv initial htid with ⟨-, hsame | hsame⟩ | ⟨s₁, p, -, -, heq⟩
    · exact ⟨hsame.procHead, congrArg Sched.order hsame.sched⟩
    · exact ⟨hsame.procHead, congrArg Sched.order hsame.sched⟩
    · rw [heq] at hfail
      exact absurd hfail (not_lt.mpr (signedOf_nonneg hpid))
  have hclean : Clean s (s.pCreateEx L priv initial).2 ↔
      Restored s.mm (s.pCreateEx L priv initial).2.mm :=
    ⟨fun h => h.restored, fun h => ⟨h, hlists.1, hlists.2⟩⟩
  rw [hclean]
  rcases pCreateEx_steps hm priv initial with
    ⟨-, hlent, hno⟩ | ⟨spLock, capLock, vcb, mm', hacquires, heq⟩
  · exact iff_of_true hlent.done (Or.inr (not_affords hm.paging hno))
  rw [heq] at hfail ⊢
  obtain ⟨hcharged, hfits⟩ := inherited_charged hm hl.toListed hacquires hfirst
  obtain ⟨htcbs, hpid', htid'⟩ := s.inheritAll_pcb priv spLock capLock vcb mm'
  have hleft := hcharged.startProc_fails htcbs hfits (htid' ▸ htid) (hpid' ▸ hpid) hfail
  have hcopies := inheritAll_eq_nil_iff hl hacquires.1 priv spLock capLock vcb mm'
  rw [hacquires.affords_iff hm.paging, not_not, ← hcopies]
  constructor
  · intro hrestored
    exact List.map_eq_nil_iff.mp (hleft.restored.eq_nil hrestored)
  · intro hnone
    rw [hnone] at hleft
    exact hleft.done

/-! ## A heap that refuses a request -/

namespace ProcTable

variable {s : ProcTable}

/-- The heap refuses a request, the next one being number 0. -/
def scarce (s : ProcTable) (n : Nat) : ProcTable :=
  s.withMm { s.mm with kheap := { s.mm.kheap with fails := fun i => i == s.mm.kheap.calls + n } }

theorem Linked.scarce (h : s.Linked) (n : Nat) : (s.scarce n).Linked :=
  h.same (SameTable.withMm (Nat.le_refl _))

/-- The capabilities of a process change. -/
theorem Linked.withCapabilities (h : s.Linked) (p : Nat) (capabilities : List Capability) :
    (s.setPcb p { s.pcb p with capabilities }).Linked := by
  refine h.sameLists ⟨h.sched, rfl, rfl, fun _ _ => rfl, fun q _ => ?_, fun _ _ => rfl,
    Nat.le_refl _, Nat.le_refl _, Nat.le_refl _⟩
  by_cases hq : q = p
  · subst hq
    rw [show (s.setPcb q _).pcb q = _ from Function.update_self _ _ _]
    exact ⟨rfl, rfl, rfl⟩
  · rw [show (s.setPcb p _).pcb q = s.pcb q from Function.update_of_ne hq _ _]
    exact ⟨rfl, rfl, rfl⟩

end ProcTable

/-- The heap has a block for the record and two for the address space, and none for the thread: the
creator has no capabilities, and nothing is left. -/
theorem creation_failure_clean_bare :
    ((hosted.scarce 3).pCreateEx .documented .kernel .pending).1 = eNomem ∧
      Clean (hosted.scarce 3) ((hosted.scarce 3).pCreateEx .documented .kernel .pending).2 := by
  obtain ⟨dirs, hm, hl⟩ := hosted_ok
  have hret : ((hosted.scarce 3).pCreateEx .documented .kernel .pending).1 = eNomem := by
    decide +kernel
  have hm' : (hosted.scarce 3).mm.Ok .documented dirs := ⟨hm.paging, hm.pmm⟩
  have hfirst : Priv.kernel = .user →
    Clear .documented (hosted.scarce 3).mm.paging (userAnonBase / 2 ^ 22) := fun h => nomatch h
  have hfail : ((hosted.scarce 3).pCreateEx .documented .kernel .pending).1 < 0 := by
    decide
  refine ⟨hret, (creation_failure_clean hm' (hl.scarce 3) hfirst (by decide +kernel)
    (by decide +kernel) hfail).mpr (Or.inl ?_)⟩
  exact List.eq_nil_of_length_eq_zero (by decide +kernel)

/-- The process that runs has the capability to send messages. -/
def entitled : ProcTable :=
  let res := capGrant hosted.mm [] (.ipc 1)
  (hosted.withMm res.2.1).setPcb 1 { hosted.pcb 1 with capabilities := res.2.2 }

theorem entitled_ok : ∃ dirs, entitled.mm.Ok .documented dirs ∧ entitled.Linked := by
  obtain ⟨dirs, hm, hl⟩ := hosted_ok
  have hsame : Same hosted.mm entitled.mm := by
    rcases capGrant_cases hosted.mm [] (.ipc 1) with
      ⟨ret, mm', -, heq, hs⟩ | ⟨mm', addr, heq, hs, -⟩
    · rw [show entitled.mm = mm' from congrArg (·.2.1) heq]
      exact hs
    · rw [show entitled.mm = mm' from congrArg (·.2.1) heq]
      exact hs
  refine ⟨dirs, ⟨hsame.paging ▸ hm.paging, hsame.pmm ▸ hm.pmm⟩, ?_⟩
  exact (hl.same (SameTable.withMm hsame.calls)).withCapabilities 1 _

/-- The heap has a block for the copy of the capability as well, and none for the thread: the copy
stays behind. -/
theorem copies_left_behind :
    (∃ dirs, (entitled.scarce 4).mm.Ok .documented dirs) ∧ (entitled.scarce 4).Linked ∧
      ((entitled.scarce 4).pCreateEx .documented .kernel .pending).1 = eNomem ∧
      (entitled.scarce 4).mm.kheap.live = [7, 6, 5, 4, 3, 2, 1] ∧
      ((entitled.scarce 4).pCreateEx .documented .kernel .pending).2.mm.kheap.live =
        [11, 7, 6, 5, 4, 3, 2, 1] ∧
      ¬Clean (entitled.scarce 4)
        ((entitled.scarce 4).pCreateEx .documented .kernel .pending).2 := by
  obtain ⟨dirs, hm, hl⟩ := entitled_ok
  have hlive : (entitled.scarce 4).mm.kheap.live = [7, 6, 5, 4, 3, 2, 1] := by decide +kernel
  have hlive' : ((entitled.scarce 4).pCreateEx .documented .kernel .pending).2.mm.kheap.live =
      [11, 7, 6, 5, 4, 3, 2, 1] := by decide +kernel
  refine ⟨⟨dirs, hm.paging, hm.pmm⟩, hl.scarce 4, by decide +kernel, hlive, hlive', fun h => ?_⟩
  have hlen := h.restored.live.length_eq
  exact absurd hlen (by decide)

end Ukernel.Kernel
