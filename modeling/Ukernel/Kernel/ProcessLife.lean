import Ukernel.Kernel.ProcessLoans
import Ukernel.Kernel.ProcessReady

/-!
# Whole lives of processes

A process is created, gets threads and loses them, and exits. Whatever has been taken for it goes
back, with one exception: `proc_exit_internal` frees the records of the threads that are left
without releasing their mailboxes, as `thread_delete_internal` does. A mailbox is a block of the
heap and one of the 1024 locks.

## Why stacks have conditions

The stack of a user thread is a page of the address space, and what is known about address spaces
has conditions: the page has to lie below the user's limit, and its table must not be one that the
sweep of `arch_destroy_address_space` takes for the kernel's (`StackFits`). Stacks drift upwards,
since `vmm_alloc_pages` never looks for a gap below the first region.

## Main definitions

* `Restored`: the resources are what they were
* `lifeSystem`: what may happen between the creation of a process and its exit

## Main results

* `pCreateEx_charged`, `procExit_leaves`: the beginning and the end of a process
* `process_life_conserves`: a process leaves nothing behind just when no thread has a mailbox at
  its exit
* `mailbox_lost`: a process that leaves a mailbox behind
-/

namespace Ukernel.Kernel

open Arch Lib Machine Mm Sync

namespace ProcTable

variable {L : Layout} {dirs : Set Nat} {mm₀ : Resources} {s s' : ProcTable} {p t : Nat}
  {hand keys : List Nat}

/-! ## The end -/

/-- The resources are what they were, up to the order in which the blocks are listed. -/
structure Restored (mm₀ mm : Resources) : Prop where
  bits : ∀ b < mm₀.pmm.totalBlocks, mm.pmm.bitmapTest b = mm₀.pmm.bitmapTest b
  pool : mm.paging.poolUsed = mm₀.paging.poolUsed
  locks : mm.locks = mm₀.locks
  live : mm.kheap.live.Perm mm₀.kheap.live

/-- Blocks that are left show in the number of live blocks. -/
theorem Restored.eq_nil {mm : Resources} {blocks : List Nat}
    (h : Restored (mm₀.lend blocks keys) mm) (hall : Restored mm₀ mm) : blocks = [] := by
  have hlen := (h.live.symm.trans hall.live).length_eq
  change (blocks ++ mm₀.kheap.live).length = _ at hlen
  rwa [List.length_append, Nat.add_eq_right, List.length_eq_zero_iff] at hlen

/-- Blocks and locks are out on loan, and apart from them the resources are what they were. -/
structure Lent (mm₀ : Resources) (blocks keys : List Nat) (mm : Resources) : Prop where
  restored : Restored (mm₀.lend blocks keys) mm
  nodup : keys.Nodup
  free : ∀ i ∈ keys, mm₀.locks i = false

namespace Lent

variable {mm mm' : Resources} {blocks keys : List Nat} {x i : Nat}

theorem refl (mm : Resources) : Lent mm [] [] mm := by
  refine ⟨⟨fun _ _ => rfl, rfl, ?_, List.Perm.refl _⟩, List.nodup_nil, by simp⟩
  funext i
  simp [Resources.lend]

/-- Everything has gone back. -/
theorem done (h : Lent mm₀ [] [] mm) : Restored mm₀ mm := by
  refine ⟨h.restored.bits, h.restored.pool, h.restored.locks.trans ?_, h.restored.live⟩
  funext i
  simp [Resources.lend]

theorem kmalloc (h : Lent mm₀ blocks keys mm) (hx : mm.kmalloc.1 ≠ 0) :
    Lent mm₀ (mm.kmalloc.1 :: blocks) keys mm.kmalloc.2 := by
  refine ⟨⟨h.restored.bits, h.restored.pool, h.restored.locks, ?_⟩, h.nodup, h.free⟩
  rw [kmalloc_live hx]
  exact h.restored.live.cons _

theorem kmalloc_zero (h : Lent mm₀ blocks keys mm) (hx : mm.kmalloc.1 = 0) :
    Lent mm₀ blocks keys mm.kmalloc.2 := by
  refine ⟨⟨h.restored.bits, h.restored.pool, h.restored.locks, ?_⟩, h.nodup, h.free⟩
  rw [kmalloc_live_of_zero hx]
  exact h.restored.live

theorem kfree (h : Lent mm₀ (x :: blocks) keys mm) : Lent mm₀ blocks keys (mm.kfree x) := by
  refine ⟨⟨h.restored.bits, h.restored.pool, h.restored.locks, ?_⟩, h.nodup, h.free⟩
  have herase := h.restored.live.erase x
  change (mm.kheap.live.erase x).Perm ((x :: (blocks ++ mm₀.kheap.live)).erase x) at herase
  rwa [List.erase_cons_head] at herase

theorem spinlockAlloc (h : Lent mm₀ blocks keys mm) (halloc : mm.spinlockAlloc = (some i, mm')) :
    Lent mm₀ blocks (i :: keys) mm' := by
  obtain ⟨hfree, rfl⟩ := spinlockAlloc_some halloc
  rw [h.restored.locks, Resources.lend_lock_eq_false] at hfree
  refine ⟨⟨h.restored.bits, h.restored.pool, ?_, h.restored.live⟩,
    List.nodup_cons.mpr ⟨hfree.1, h.nodup⟩, ?_⟩
  · grind [h.restored.locks, Resources.lend]
  · grind [h.free]

theorem spinlockRelease (h : Lent mm₀ blocks (i :: keys) mm) :
    Lent mm₀ blocks keys (mm.spinlockRelease i) := by
  obtain ⟨hi, hnodup⟩ := List.nodup_cons.mp h.nodup
  refine ⟨⟨h.restored.bits, h.restored.pool, ?_, h.restored.live⟩, hnodup,
    fun k hk => h.free k (List.mem_cons_of_mem _ hk)⟩
  funext k
  change Function.update mm.locks i false k = _
  rw [h.restored.locks, Function.update_apply]
  split_ifs with hk
  · grind [Resources.lend, h.free]
  · simp [Resources.lend, hk]

/-- What is on loan besides an address space is still on loan when the address space has gone. -/
theorem of_loans {v : Vcb} (h : Loans L dirs mm₀ blocks keys mm v) :
    Lent mm₀ blocks keys (vmmDestroy L mm v) := by
  obtain ⟨hbits, hpool, hlocks, hlive⟩ := h.destroy
  exact ⟨⟨hbits, hpool, hlocks, hlive⟩, h.nodup, h.free⟩

end Lent

/-- What a process without threads holds, in the order in which it goes back. -/
theorem Charged.giveBack (h : Charged L dirs mm₀ hand keys s p) (hnone : (s.pcb p).tcbs = []) :
    Loans L dirs mm₀ ((s.pcb p).capabilities.map Capability.addr ++ p :: hand)
      ((s.pcb p).capLock :: (s.pcb p).spLock :: keys) s.mm (s.pcb p).vcb := by
  have hblocks : s.procBlocks p = p :: (s.pcb p).capabilities.map Capability.addr := by
    simp [procBlocks, hnone]
  have hlocks : s.procLocks p = [(s.pcb p).spLock, (s.pcb p).capLock] := by
    simp [procLocks, hnone]
  have hloans := h.loans
  apply hloans.perm
  · grind
  · grind

theorem reapProc_leaves (h : Charged L dirs mm₀ hand keys s p) (hnone : (s.pcb p).tcbs = []) :
    Restored (mm₀.lend hand keys) (s.reapProc L p).mm :=
  (Lent.of_loans (h.giveBack hnone).freeCaps).spinlockRelease.spinlockRelease.kfree.restored

/-- The mailboxes of its threads are what is left of a process after its end. -/
theorem procExit_leaves (h : Charged L dirs mm₀ [] [] s p) {pid : Nat}
    (hfind : s.findProc pid = some p) (hdone : (s.procExit L pid).halted = false) :
    Restored (mm₀.lend ((s.pcb p).tcbs.flatMap s.boxBlocks) ((s.pcb p).tcbs.flatMap s.boxLocks))
      (s.procExit L pid).mm := by
  unfold procExit at hdone ⊢
  rw [hfind] at hdone ⊢
  dsimp only at hdone ⊢
  cases hloop : exitLoop (s.pcb p).tcbs s with
  | mk done s₁ =>
    rw [hloop] at hdone
    cases done with
    | false => cases hdone
    | true =>
      obtain ⟨hgone, hnone⟩ := h.exitLoop rfl hloop
      rw [List.append_nil, List.append_nil] at hgone
      -- neither the list of processes nor the switch matters for the account
      have hunlist : Charged L dirs mm₀ _ _ { s₁ with procHead := s₁.procHead.erase p } p :=
        Agree.charged (s := s₁)
          ⟨Nat.le_refl _, ⟨_, _, rfl⟩, rfl, Sched.SameThreads.refl _, rfl⟩ hgone.family hgone.loans
      have hcalm := Calm.archTaskContextSwitch { s₁ with procHead := s₁.procHead.erase p }
      refine reapProc_leaves (hunlist.calm hcalm) ?_
      rw [hcalm.pcb p]
      exact hnone

/-! ## The beginning of a process -/

/-- Inherited capabilities are on the account of the new process. -/
theorem Charged.inheritAll (h : Charged L dirs mm₀ hand keys s p)
    (hcaps : (s.pcb p).capabilities = []) : Charged L dirs mm₀ hand keys (s.inheritAll p) p ∧
      Resources.Same s.mm (s.inheritAll p).mm ∧
      ((s.inheritAll p).pcb p).vcb = (s.pcb p).vcb ∧
      ((s.inheritAll p).pcb p).priv = (s.pcb p).priv := by
  unfold ProcTable.inheritAll
  cases s.sched.run with
  | none => exact ⟨h, Resources.Same.refl _, rfl, rfl⟩
  | some t =>
    dsimp only
    have hnone : Loans L dirs mm₀ (([] : List Capability).map Capability.addr ++
        (hand ++ s.procBlocks p)) (keys ++ s.procLocks p) s.mm (s.pcb p).vcb := h.loans
    have hloans := hnone.inheritAll (s.pcb (s.tcb t).parent).capabilities
    have hsame := (capInheritAll_spec s.mm [] (s.pcb (s.tcb t).parent).capabilities).1
    generalize capInheritAll s.mm [] (s.pcb (s.tcb t).parent).capabilities = res at hloans hsame ⊢
    obtain ⟨mm, capabilities⟩ := res
    have hpcb : ((s.withMm mm).setPcb p { s.pcb p with capabilities }).pcb p =
      { s.pcb p with capabilities } := Function.update_self _ _ _
    refine ⟨⟨?_, ?_, ?_, ?_, h.family.listed, fun u hu => ?_⟩, hsame, by rw [hpcb],
      by rw [hpcb]⟩
    · rw [hpcb]
      refine hloans.perm ?_ ?_
      · simp only [procBlocks, hpcb, hcaps]
        have hthread (t : Nat) : ((s.withMm mm).setPcb p { s.pcb p with capabilities }).threadBlocks
          t = s.threadBlocks t := rfl
        simp only [hthread, List.map_nil, List.nil_append]
        simp only [List.perm_iff_count, List.count_append, List.count_cons]
        intro a
        omega
      · simp only [procLocks, hpcb]
        exact List.Perm.refl _
    · rw [hpcb]
      exact h.family.nodup
    · rw [hpcb]
      exact h.family.child
    · rw [hpcb]
      exact h.family.order
    · exact (h.family.named u hu).trans hsame.calls

/-- The process is listed and gets its first thread. -/
theorem Charged.startProc {initial : ThreadState} (h : Charged L dirs mm₀ hand keys s p)
    (hfits : (s.pcb p).priv = .user → StackFits L s.mm (s.pcb p).vcb)
    (hret : 0 ≤ (s.startProc L p initial).1) :
    Charged L dirs mm₀ hand keys (s.startProc L p initial).2 p := by
  unfold ProcTable.startProc at hret ⊢
  dsimp only at hret ⊢
  have hlist : Charged L dirs mm₀ hand keys { s with procHead := p :: s.procHead } p :=
    Agree.charged (s := s) ⟨Nat.le_refl _, ⟨_, _, rfl⟩, rfl, Sched.SameThreads.refl _, rfl⟩
      h.family h.loans
  by_cases hthread : 0 ≤ (ProcTable.threadCreateEx L { s with procHead := p :: s.procHead } p
      (s.pcb p).priv initial).1
  · rw [if_pos hthread]
    exact hlist.threadCreateEx hfits initial
  · rw [if_neg hthread] at hret
    exact absurd hret hthread

/-- Threads are listed once, and records have addresses that the heap has given out. -/
structure Listed (s : ProcTable) : Prop where
  nodup : s.sched.order.Nodup
  named : ∀ t ∈ s.sched.order, t ≤ s.mm.kheap.calls ∧ (s.tcb t).parent ≤ s.mm.kheap.calls

theorem Linked.toListed (h : s.Linked) : s.Listed :=
  ⟨h.sched.nodup, fun t ht => ⟨(h.thread t ht).2, h.parent_le ht⟩⟩

/-- What `p_create_ex` takes before the process is listed: its record, two locks and its address
space. -/
def Acquires (L : Layout) (mm : Resources) (spLock capLock : Nat) (vcb : Vcb) (mm' : Resources) :
    Prop :=
  mm.kmalloc.1 ≠ 0 ∧ ∃ mm₁ mm₂, mm.kmalloc.2.spinlockAlloc = (some spLock, mm₁) ∧
    mm₁.spinlockAlloc = (some capLock, mm₂) ∧ vmmCreate L mm₂ = (.ok vcb, mm')

/-- The state in which the new process has what `p_create_ex` has taken for it. -/
def admitProc (s : ProcTable) (priv : Priv) (spLock capLock : Nat) (vcb : Vcb) (mm : Resources) :
    ProcTable :=
  (s.bumpPid.withMm mm).newPcb s.mm.kmalloc.1 s.nextPid priv spLock capLock vcb

theorem admitProc_pcb (s : ProcTable) (priv : Priv) (spLock capLock : Nat) (vcb : Vcb)
    (mm : Resources) : (s.admitProc priv spLock capLock vcb mm).pcb s.mm.kmalloc.1 =
      ⟨s.nextPid, false, priv, [], spLock, capLock, vcb, []⟩ :=
  Function.update_self _ _ _

/-- A failure of `vmm_create` leaves what is on loan. -/
theorem Lent.vmmCreate {mm mm' : Resources} {blocks : List Nat} {err : Int}
    (h : Lent mm₀ blocks keys mm) (hwf : mm.paging.Wf L dirs)
    (hfail : vmmCreate L mm = (.error err, mm')) : Lent mm₀ blocks keys mm' := by
  unfold Mm.vmmCreate treeCreate at hfail
  rcases hlock : mm.spinlockAlloc with ⟨_ | lock, mm₁⟩
  · grind [spinlockAlloc_none]
  rw [hlock] at hfail
  have h₁ := h.spinlockAlloc hlock
  have hpaging : mm₁.paging = mm.paging := by rw [(spinlockAlloc_some hlock).2]
  dsimp only at hfail
  by_cases htree : mm₁.kmalloc.1 = 0
  · rw [if_pos htree] at hfail
    cases hfail
    exact (h₁.kmalloc_zero htree).spinlockRelease
  rw [if_neg htree] at hfail
  have h₂ := h₁.kmalloc htree
  by_cases hnil : mm₁.kmalloc.2.kmalloc.1 = 0
  · rw [if_pos hnil] at hfail
    cases hfail
    exact (h₂.kmalloc_zero hnil).kfree.spinlockRelease
  rw [if_neg hnil] at hfail
  have h₃ := h₂.kmalloc hnil
  have hsame : mm₁.kmalloc.2.kmalloc.2.paging = mm.paging := hpaging
  dsimp only at hfail
  rw [hsame] at hfail
  rcases archCloneKernelPde_created hwf with hfull | ⟨d, pg₁, pg₂, hpool, hclone, hcreated⟩
  · -- the pool is exhausted: the tree and the lock go back
    rw [hfull, if_pos rfl, ← hsame] at hfail
    cases hfail
    exact h₃.kfree.kfree.spinlockRelease
  · grind [hcreated.pos, Resources.withPaging_paging]

/-- `p_create_ex` does not get what it needs and gives back what it got, or starts the process. -/
theorem pCreateEx_steps (hm : s.mm.Ok L dirs) (priv : Priv) (initial : ThreadState) :
    ((s.pCreateEx L priv initial).1 < 0 ∧ Lent s.mm [] [] (s.pCreateEx L priv initial).2.mm ∧
        ¬∃ spLock capLock vcb mm', Acquires L s.mm spLock capLock vcb mm') ∨
      ∃ spLock capLock vcb mm', Acquires L s.mm spLock capLock vcb mm' ∧
        s.pCreateEx L priv initial = ((s.admitProc priv spLock capLock vcb mm').inheritAll
          s.mm.kmalloc.1).startProc L s.mm.kmalloc.1 initial := by
  unfold pCreateEx
  dsimp only
  by_cases hp : s.mm.kmalloc.1 = 0
  · rw [if_pos hp]
    refine Or.inl ⟨(by decide : eNomem < 0), (Lent.refl _).kmalloc_zero hp, ?_⟩
    rintro ⟨_, _, _, _, hne, -⟩
    exact hne hp
  rw [if_neg hp]
  have hrecord := (Lent.refl s.mm).kmalloc hp
  rcases hlock₁ : s.mm.kmalloc.2.spinlockAlloc with ⟨_ | spLock, mm₁⟩
  · rw [show (s.withMm s.mm.kmalloc.2).mm.spinlockAlloc = (none, mm₁) from hlock₁]
    obtain rfl := spinlockAlloc_none hlock₁
    refine Or.inl ⟨(by decide : eLimit < 0), hrecord.kfree, ?_⟩
    rintro ⟨_, _, _, _, -, _, _, heq, -⟩
    rw [hlock₁] at heq
    cases heq
  rw [show (s.withMm s.mm.kmalloc.2).mm.spinlockAlloc = (some spLock, mm₁) from hlock₁]
  have hsp := hrecord.spinlockAlloc hlock₁
  dsimp only
  rcases hlock₂ : mm₁.spinlockAlloc with ⟨_ | capLock, mm₂⟩
  · rw [show ((s.withMm s.mm.kmalloc.2).withMm mm₁).mm.spinlockAlloc = (none, mm₂) from hlock₂]
    obtain rfl := spinlockAlloc_none hlock₂
    refine Or.inl ⟨(by decide : eLimit < 0), hsp.spinlockRelease.kfree, ?_⟩
    rintro ⟨_, _, _, _, -, _, _, heq, heq', -⟩
    cases hlock₁.symm.trans heq
    rw [hlock₂] at heq'
    cases heq'
  rw [show ((s.withMm s.mm.kmalloc.2).withMm mm₁).mm.spinlockAlloc = (some capLock, mm₂)
    from hlock₂]
  have hcap := hsp.spinlockAlloc hlock₂
  dsimp only
  rcases hspace : vmmCreate L mm₂ with ⟨err | vcb, mm₃⟩
  · rw [show vmmCreate L (ProcTable.withMm ((s.withMm s.mm.kmalloc.2).withMm mm₁) mm₂).mm =
      (.error err, mm₃) from hspace]
    have hpaging : mm₂.paging = s.mm.paging := by
      rw [(spinlockAlloc_some hlock₂).2, (spinlockAlloc_some hlock₁).2]
      rfl
    refine Or.inl ⟨(by decide : eNomem < 0), ?_, ?_⟩
    · exact (hcap.vmmCreate (hpaging ▸ hm.paging) hspace).spinlockRelease.spinlockRelease.kfree
    · rintro ⟨_, _, _, _, -, _, _, heq, heq', heq''⟩
      cases hlock₁.symm.trans heq
      cases hlock₂.symm.trans heq'
      rw [hspace] at heq''
      cases heq''
  · rw [show vmmCreate L (ProcTable.withMm ((s.withMm s.mm.kmalloc.2).withMm mm₁) mm₂).mm =
      (.ok vcb, mm₃) from hspace]
    exact Or.inr ⟨spLock, capLock, vcb, mm₃, ⟨hp, mm₁, mm₂, hlock₁, hlock₂, hspace⟩, rfl⟩

/-- The records of a new process and its address space are on its account. -/
theorem admitProc_charged (hm : s.mm.Ok L dirs) (hs : s.Listed) {spLock capLock : Nat} {vcb : Vcb}
    {mm' : Resources} (h : Acquires L s.mm spLock capLock vcb mm') (priv : Priv) :
    Charged L (insert vcb.dir dirs) s.mm [] [] (s.admitProc priv spLock capLock vcb mm')
        s.mm.kmalloc.1 ∧
      (Clear L s.mm.paging (userAnonBase / 2 ^ 22) → StackFits L mm' vcb) := by
  obtain ⟨hp, mm₁, mm₂, hlock₁, hlock₂, hspace⟩ := h
  have hname : s.mm.kmalloc.1 = s.mm.kheap.calls + 1 := Arena.kmalloc_name hp
  have hcalls : s.mm.kmalloc.2.kheap.calls = s.mm.kheap.calls + 1 := s.mm.kheap.kmalloc_calls
  have hlent := (((Lent.refl s.mm).kmalloc hp).spinlockAlloc hlock₁).spinlockAlloc hlock₂
  have heq₁ := (spinlockAlloc_some hlock₁).2
  have heq₂ := (spinlockAlloc_some hlock₂).2
  have hkheap : mm₂.kheap = s.mm.kmalloc.2.kheap := by rw [heq₂, heq₁]
  have hsame : Resources.Same s.mm mm₂ := by
    refine ⟨by rw [heq₂, heq₁]; rfl, by rw [heq₂, heq₁]; rfl, ?_⟩
    rw [hkheap]
    exact (Resources.same_kmalloc s.mm).calls
  have hnamed : ∀ x ∈ [s.mm.kmalloc.1], x ≤ mm₂.kheap.calls := by grind
  obtain ⟨hloans, hempty, hclear⟩ := vmmCreate_loans hm hsame hlent.restored.live
    hlent.restored.locks hnamed hlent.nodup hlent.free hspace
  have hpcb := s.admitProc_pcb priv spLock capLock vcb mm'
  refine ⟨⟨?_, ?_, ?_, fun t ht hparent => ?_, hs.nodup, fun t ht => ?_⟩, fun hfirst => ?_⟩
  · simp only [procBlocks, procLocks, hpcb]
    exact hloans.perm (List.Perm.refl _) (List.Perm.swap _ _ _)
  · rw [hpcb]
    exact List.nodup_nil
  · rw [hpcb]
    exact fun t ht => absurd ht List.not_mem_nil
  · -- the process is new, and no thread has it as its parent
    have hle := (hs.named t ht).2
    change (s.tcb t).parent = _ at hparent
    omega
  · have hle := (hs.named t ht).1
    have hmono := hloans.named _ List.mem_cons_self
    change t ≤ mm'.kheap.calls
    omega
  · exact stackFits_of_empty hloans.sound.tree hempty (hclear _ hfirst)

/-- The new process with what it inherits. -/
theorem inherited_charged (hm : s.mm.Ok L dirs) (hs : s.Listed) {spLock capLock : Nat} {vcb : Vcb}
    {mm' : Resources} (h : Acquires L s.mm spLock capLock vcb mm') {priv : Priv}
    (hfirst : priv = .user → Clear L s.mm.paging (userAnonBase / 2 ^ 22)) :
    let s₁ := (s.admitProc priv spLock capLock vcb mm').inheritAll s.mm.kmalloc.1
    Charged L (insert vcb.dir dirs) s.mm [] [] s₁ s.mm.kmalloc.1 ∧
      ((s₁.pcb s.mm.kmalloc.1).priv = .user →
        StackFits L s₁.mm (s₁.pcb s.mm.kmalloc.1).vcb) := by
  obtain ⟨hnew, hfits⟩ := admitProc_charged hm hs h priv
  have hself := s.admitProc_pcb priv spLock capLock vcb mm'
  obtain ⟨hcaps, hsame, hvcb, hpriv⟩ := hnew.inheritAll (by rw [hself])
  rw [hself] at hvcb hpriv
  refine ⟨hcaps, fun huser => ?_⟩
  rw [hvcb]
  exact (hfits (hfirst (hpriv.symm.trans huser))).same (hself ▸ hnew.loans.sound) hsame

/-- A process that has been created is charged with what has been taken for it. -/
theorem pCreateEx_charged {priv : Priv} {initial : ThreadState} (hm : s.mm.Ok L dirs)
    (hs : s.Listed) (hfirst : priv = .user → Clear L s.mm.paging (userAnonBase / 2 ^ 22))
    (hcreate : 0 ≤ (s.pCreateEx L priv initial).1) :
    ∃ d, Charged L (insert d dirs) s.mm [] [] (s.pCreateEx L priv initial).2 s.mm.kmalloc.1 := by
  rcases pCreateEx_steps hm priv initial with
    ⟨hneg, -⟩ | ⟨spLock, capLock, vcb, mm', hacquires, heq⟩
  · exact absurd hcreate (not_le.mpr hneg)
  rw [heq] at hcreate ⊢
  obtain ⟨hcharged, hfits⟩ := inherited_charged hm hs hacquires hfirst
  exact ⟨vcb.dir, hcharged.startProc hfits hcreate⟩

/-! ## What happens in between -/

end ProcTable

/-- Only the process takes anything, and its stacks fit. -/
def ProcOp.Within (L : Layout) (p : Nat) (s : ProcTable) : ProcOp → Prop
  | .procCreate _ | .procExit _ => False
  | .threadCreate ring => ∀ t, s.sched.run = some t → (s.tcb t).parent = p ∧
    (ring = .user → StackFits L s.mm (s.pcb p).vcb)
  | .threadDelete tid => ∀ t, s.findThread tid = some t → (s.tcb t).parent = p
  | _ => True

/-- The life of a process: it creates and deletes threads, and the scheduler works. -/
def lifeSystem (L : Layout) (p : Nat) : System ProcTable ProcOp where
  exec := ProcOp.exec L
  enabled := ProcOp.Within L p

namespace ProcTable

theorem Charged.step {op : ProcOp} (h : Charged L dirs mm₀ [] [] s p) (hop : op.Within L p s) :
    Charged L dirs mm₀ [] [] (op.exec L s) p := by
  unfold ProcOp.exec
  split_ifs
  · exact h
  cases op with
  | procCreate _ | procExit _ => exact absurd hop id
  | threadCreate ring =>
    unfold ProcOp.step
    cases hrun : s.sched.run with
    | none => exact h
    | some t =>
      obtain ⟨hparent, hfits⟩ := hop t hrun
      dsimp only
      rw [hparent]
      exact h.threadCreateEx hfits .pending
  | threadDelete tid => exact h.threadDelete hop
  | threadBlock _ | threadUnblock _ | threadYield | procBlock _ | procUnblock _ | sleep _ | wake _
  | tick _ | gateExit => exact h.calm (Calm.step L s trivial)

end ProcTable

open ProcTable

/-- From before the creation of a process to after its exit the bitmap of the physical memory
manager, the pool, the locks and the heap have not changed just when no thread that the process
still has at its exit has a mailbox. -/
theorem process_life_conserves {L : Layout} {dirs : Set Nat} {s : ProcTable} {priv : Priv}
    {initial : ThreadState} {ops : List ProcOp} {pid : Nat} (hm : s.mm.Ok L dirs) (hs : s.Listed)
    (hfirst : priv = .user → Clear L s.mm.paging (userAnonBase / 2 ^ 22))
    (hcreate : 0 ≤ (s.pCreateEx L priv initial).1)
    (hops : (lifeSystem L s.mm.kmalloc.1).Legal (s.pCreateEx L priv initial).2 ops) :
    let p := s.mm.kmalloc.1
    let s₁ := (lifeSystem L p).run (s.pCreateEx L priv initial).2 ops
    s₁.findProc pid = some p → (s₁.procExit L pid).halted = false →
      (Restored s.mm (s₁.procExit L pid).mm ↔
        ∀ t ∈ (s₁.pcb p).tcbs, (s₁.sched.thread t).mailbox = 0) := by
  intro p s₁ hfind hdone
  obtain ⟨d, hnew⟩ := pCreateEx_charged hm hs hfirst hcreate
  have hlife : Charged L (insert d dirs) s.mm [] [] s₁ p :=
    System.run_invariant (I := fun s' => Charged L (insert d dirs) s.mm [] [] s' p)
      (fun _ _ h hop => h.step hop) hnew hops
  have hleft := procExit_leaves hlife hfind hdone
  constructor
  · grind [List.flatMap_eq_nil_iff, hleft.eq_nil, boxBlocks]
  · intro hboxes
    have hblocks : (s₁.pcb p).tcbs.flatMap s₁.boxBlocks = [] :=
      List.flatMap_eq_nil_iff.mpr fun t ht => if_pos (hboxes t ht)
    have hlocks : (s₁.pcb p).tcbs.flatMap s₁.boxLocks = [] :=
      List.flatMap_eq_nil_iff.mpr fun t ht => if_pos (hboxes t ht)
    rw [hblocks, hlocks] at hleft
    refine ⟨hleft.bits, hleft.pool, hleft.locks.trans ?_, hleft.live⟩
    funext i
    simp [Resources.lend]

/-! ## Two lives -/

/-- A machine in which a kernel process runs. -/
def hosted : ProcTable := ((boot (crowded 4) 0).pCreateEx .documented .kernel .pending).2

theorem hosted_ok : ∃ dirs, hosted.mm.Ok .documented dirs ∧ hosted.Linked := by
  have hcreate : 0 ≤ ((boot (crowded 4) 0).pCreateEx .documented .kernel .pending).1 := by
    decide +kernel
  have hfirst : Priv.kernel = .user →
    Clear .documented (crowded 4).paging (userAnonBase / 2 ^ 22) := fun huser => nomatch huser
  obtain ⟨d, h⟩ := pCreateEx_charged (s := boot (crowded 4) 0) (crowded_ok 4)
    (boot_linked (crowded 4) 0).toListed hfirst hcreate
  exact ⟨_, h.loans.ok, (boot_linked (crowded 4) 0).pCreateEx .kernel .pending (by decide)⟩

/-- A second process is created. -/
def guest : ProcTable := (hosted.pCreateEx .documented .kernel .pending).2

/-- Its thread is deleted. -/
def vacated : ProcTable := (lifeSystem .documented 7).run guest [.threadDelete 1]

/-- A process whose thread is deleted before its exit leaves nothing behind. -/
theorem process_life_conserves_vacated : guest.procHead = [7, 1] ∧ (guest.pcb 7).tcbs = [10] ∧
    (guest.sched.thread 10).mailbox ≠ 0 ∧ (vacated.pcb 7).tcbs = [] ∧
      Restored hosted.mm (vacated.procExit .documented 1).mm := by
  obtain ⟨dirs, hm, hs⟩ := hosted_ok
  have hp : hosted.mm.kmalloc.1 = 7 := by decide +kernel
  have hcreate : 0 ≤ (hosted.pCreateEx .documented .kernel .pending).1 := by decide +kernel
  have hfirst : Priv.kernel = .user →
    Clear .documented hosted.mm.paging (userAnonBase / 2 ^ 22) := fun huser => nomatch huser
  have hops : (lifeSystem .documented hosted.mm.kmalloc.1).Legal guest [.threadDelete 1] := by
    refine ⟨fun t ht => ?_, trivial⟩
    rw [← Option.some.inj ht]
    decide +kernel
  have hlife := @process_life_conserves .documented dirs hosted .kernel .pending [.threadDelete 1] 1
    hm hs.toListed hfirst hcreate hops
  have hnone : (vacated.pcb 7).tcbs = [] := by decide +kernel
  refine ⟨by decide +kernel, by decide +kernel, by decide +kernel, hnone, ?_⟩
  refine (hlife (by decide +kernel) (by decide +kernel)).mpr fun t ht => ?_
  exact absurd ht List.not_mem_nil

/-- A process exits with the thread that it was created with: a block of the heap and a lock are
gone. -/
theorem mailbox_lost :
    guest.findProc 1 = some 7 ∧ (guest.procExit .documented 1).halted = false ∧
      hosted.mm.kheap.live = [6, 5, 4, 3, 2, 1] ∧
      (guest.procExit .documented 1).mm.kheap.live = [12, 6, 5, 4, 3, 2, 1] ∧
      ((List.range 1024).countP hosted.mm.locks, (List.range 1024).countP
        (guest.procExit .documented 1).mm.locks) = (5, 6) ∧
      ¬Restored hosted.mm (guest.procExit .documented 1).mm := by
  have hlive : hosted.mm.kheap.live = [6, 5, 4, 3, 2, 1] := by decide +kernel
  have hlive' : (guest.procExit .documented 1).mm.kheap.live = [12, 6, 5, 4, 3, 2, 1] := by
    decide +kernel
  refine ⟨by decide +kernel, by decide +kernel, hlive, hlive', by decide +kernel, fun h => ?_⟩
  have hlen := h.live.length_eq
  exact absurd hlen (by decide)

end Ukernel.Kernel
