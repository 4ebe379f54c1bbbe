import Ukernel.Kernel.ProcessHeap
import Ukernel.Mm.VmmLoans

/-!
# What a process has taken

A process holds its record, two locks, its capabilities and its address space; each of its threads
holds a record, a lock, a stack and a mailbox with a lock of its own. `Charged` lists the blocks and
the locks, and says that nothing else has changed since the process was created: it is kept by the
creation and the deletion of threads, whether they succeed or fail, and by everything that the
scheduler does.

## What is in hand

The functions of `kernel/process.c` take blocks and locks before they link them into a record, and
unlink a record before they give back what it had. The lists `hand` and `keys` of `Charged` are the
blocks and the locks that no record of the process shows. What is still there when a function has
returned is lost: this is how `proc_exit` treats mailboxes.

## Main definitions

* `procBlocks`, `procLocks`: what the records of a process show
* `Family`: the lists of a process and its threads agree
* `Charged`: since `mm₀` only the process has taken anything, and how much

## Main results

* `Charged.threadCreateEx`, `Charged.threadDelete`: threads come and go
* `Charged.exitLoop`: the threads of a process that exits
-/

namespace Ukernel.Mm

open Arch Kernel Resources

variable {L : Layout} {dirs : Set Nat} {mm₀ mm mm' : Resources} {v : Vcb}
  {blocks locks : List Nat}

theorem StackFits.same (h : StackFits L mm v) (hv : v.proc.Sound L dirs mm) (hs : Same mm mm') :
    StackFits L mm' v := by
  intro va hva
  have hchoose : chooseVa mm'.fuel v userAnonBase (allocFits 1) 4096 =
      chooseVa mm.fuel v userAnonBase (allocFits 1) 4096 := chooseVa_congr hv.laid hs.calls _ _ _
  rw [hchoose] at hva
  rw [hs.paging]
  exact h va hva

/-- An address space without regions gets its first stack at the base of the anonymous area. -/
theorem stackFits_of_empty (hv : v.Ok mm.kheap.calls) (hempty : v.regions mm.fuel = [])
    (hclear : Clear L mm.paging (userAnonBase / 2 ^ 22)) : StackFits L mm v := by
  intro va hva
  have hroot : v.tree.root = v.tree.nil :=
    (hv.root_eq_nil_iff (Nat.lt_succ_self _)).mpr hempty
  unfold chooseVa at hva
  rw [if_pos hroot] at hva
  cases hva
  exact ⟨by decide, hclear⟩

/-- Copies of capabilities are blocks on loan. -/
theorem Loans.inheritAll {caps : List Capability}
    (h : Loans L dirs mm₀ (caps.map Capability.addr ++ blocks) locks mm v)
    (parent : List Capability) :
    Loans L dirs mm₀ ((capInheritAll mm caps parent).2.map Capability.addr ++ blocks) locks
      (capInheritAll mm caps parent).1 v := by
  induction parent generalizing mm caps with
  | nil => exact h
  | cons src parent ih => grind [h.kmalloc_zero, h.kmalloc, capInheritAll]

theorem Loans.freeCaps {caps : List Capability}
    (h : Loans L dirs mm₀ (caps.map Capability.addr ++ blocks) locks mm v) :
    Loans L dirs mm₀ blocks locks (freeCaps mm caps) v := by
  induction caps generalizing mm with
  | nil => exact h
  | cons c caps ih =>
    have hrest : Loans L dirs mm₀ (caps.map Capability.addr ++ blocks) locks (mm.kfree c.addr) v :=
      h.kfree
    exact ih hrest

end Ukernel.Mm

namespace Ukernel.Kernel

open Arch Lib Machine Mm Sync

namespace ProcTable

variable {L : Layout} {dirs : Set Nat} {mm₀ : Resources} {s s' : ProcTable} {p t : Nat}
  {hand hand' keys keys' : List Nat} {ring : Priv}

/-! ## What the records show -/

/-- The block of a thread's mailbox. -/
def boxBlocks (s : ProcTable) (t : Nat) : List Nat :=
  if (s.sched.thread t).mailbox = 0 then [] else [(s.sched.thread t).mailbox]

/-- The lock of a thread's mailbox. -/
def boxLocks (s : ProcTable) (t : Nat) : List Nat :=
  if (s.sched.thread t).mailbox = 0 then [] else [s.boxLock (s.sched.thread t).mailbox]

/-- The blocks of a process, besides those of its address space. -/
def procBlocks (s : ProcTable) (p : Nat) : List Nat :=
  p :: ((s.pcb p).capabilities.map Capability.addr ++
    (s.pcb p).tcbs.flatMap fun t => t :: s.threadBlocks t)

/-- The locks of a process, besides the one of its address space. -/
def procLocks (s : ProcTable) (p : Nat) : List Nat :=
  (s.pcb p).spLock :: (s.pcb p).capLock ::
    (s.pcb p).tcbs.flatMap fun t => (s.tcb t).spLock :: s.boxLocks t

/-- The lists of a process and its threads agree. -/
structure Family (s : ProcTable) (p : Nat) : Prop where
  nodup : (s.pcb p).tcbs.Nodup
  child : ∀ t ∈ (s.pcb p).tcbs, (s.tcb t).parent = p ∧ (s.tcb t).stack ≠ 0
  order : ∀ t ∈ s.sched.order, (s.tcb t).parent = p → t ∈ (s.pcb p).tcbs
  listed : s.sched.order.Nodup
  named : ∀ t ∈ s.sched.order, t ≤ s.mm.kheap.calls

/-- Since `mm₀` only the process has taken anything: what its records show, its address space, and
what is in hand. -/
structure Charged (L : Layout) (dirs : Set Nat) (mm₀ : Resources) (hand keys : List Nat)
    (s : ProcTable) (p : Nat) : Prop where
  loans : Loans L dirs mm₀ (hand ++ s.procBlocks p) (keys ++ s.procLocks p) s.mm (s.pcb p).vcb
  family : s.Family p

/-- The tables agree on the process, up to its address space, and on the mailboxes of threads. -/
structure Agree (s s' : ProcTable) (p : Nat) : Prop where
  calls : s.mm.kheap.calls ≤ s'.mm.kheap.calls
  pcb : ∃ blocked vcb, s'.pcb p = { s.pcb p with blocked, vcb }
  tcb : s'.tcb = s.tcb
  threads : s.sched.SameThreads s'.sched
  boxLock : s'.boxLock = s.boxLock

namespace Agree

theorem tcbs (h : Agree s s' p) : (s'.pcb p).tcbs = (s.pcb p).tcbs := by
  obtain ⟨blocked, vcb, heq⟩ := h.pcb
  rw [heq]

theorem procBlocks (h : Agree s s' p) : s'.procBlocks p = s.procBlocks p := by
  obtain ⟨blocked, vcb, heq⟩ := h.pcb
  have hthread (t : Nat) : s'.threadBlocks t = s.threadBlocks t := by
    unfold threadBlocks
    rw [h.tcb, h.threads.mailbox]
  simp only [ProcTable.procBlocks, heq, hthread]

theorem procLocks (h : Agree s s' p) : s'.procLocks p = s.procLocks p := by
  obtain ⟨blocked, vcb, heq⟩ := h.pcb
  have hthread (t : Nat) : s'.boxLocks t = s.boxLocks t := by
    unfold boxLocks
    rw [h.boxLock, h.threads.mailbox]
  simp only [ProcTable.procLocks, heq, hthread, h.tcb]

theorem family (h : Agree s s' p) (hf : s.Family p) : s'.Family p := by
  constructor
  · rw [h.tcbs]
    exact hf.nodup
  · rw [h.tcbs, h.tcb]
    exact hf.child
  · rw [h.tcbs, h.tcb, h.threads.order]
    exact hf.order
  · rw [h.threads.order]
    exact hf.listed
  · rw [h.threads.order]
    exact fun t ht => (hf.named t ht).trans h.calls

/-- The account moves to a table that agrees. -/
theorem charged (h : Agree s s' p) (hf : s.Family p)
    (hloans : Loans L dirs mm₀ (hand ++ s.procBlocks p) (keys ++ s.procLocks p) s'.mm
      (s'.pcb p).vcb) : Charged L dirs mm₀ hand keys s' p := by
  refine ⟨?_, h.family hf⟩
  rw [h.procBlocks, h.procLocks]
  exact hloans

theorem withMm {mm : Resources} (h : s.mm.kheap.calls ≤ mm.kheap.calls) : Agree s (s.withMm mm) p :=
  ⟨h, ⟨_, _, rfl⟩, rfl, Sched.SameThreads.refl _, rfl⟩

theorem withSpace {mm : Resources} (h : s.mm.kheap.calls ≤ mm.kheap.calls) (vcb : Vcb) :
    Agree s (s.withSpace p mm vcb) p :=
  ⟨h, ⟨(s.pcb p).blocked, vcb, Function.update_self _ _ _⟩, rfl, Sched.SameThreads.refl _, rfl⟩

theorem calm (h : Calm s s') : Agree s s' p :=
  ⟨(congrArg (·.kheap.calls) h.mm).ge, ⟨(s'.pcb p).blocked, (s.pcb p).vcb, h.pcb p⟩, h.tcb,
    h.threads, h.boxLock⟩

theorem startFirst (s : ProcTable) (t q : Nat) : Agree s (s.startFirst t q) p := by
  unfold ProcTable.startFirst
  rw [vmmSwitch_eq]
  have hready : s.sched.SameThreads (s.sched.modify t fun th => { th with state := .ready }) :=
    Sched.sameThreads_modify (fun _ => rfl) fun _ => rfl
  exact ⟨Nat.le_refl _, ⟨_, _, rfl⟩, rfl, ⟨rfl, hready.pid, hready.mailbox⟩, rfl⟩

end Agree

theorem withSpace_vcb (s : ProcTable) (p : Nat) (mm : Resources) (vcb : Vcb) :
    ((s.withSpace p mm vcb).pcb p).vcb = vcb := by
  change (Function.update s.pcb p _ p).vcb = vcb
  rw [Function.update_self]

/-- A new thread is listed and has no mailbox yet. -/
theorem mem_linkThread (s : ProcTable) (t : Nat) (f : TcbFields) (initial : ThreadState) :
    t ∈ ((s.linkThread t f initial).pcb f.parent).tcbs ∧
      ((s.linkThread t f initial).sched.thread t).mailbox = 0 := by
  have hpcb : (s.linkThread t f initial).pcb f.parent =
      { s.pcb f.parent with tcbs := t :: (s.pcb f.parent).tcbs } := Function.update_self _ _ _
  have hthread : (s.linkThread t f initial).sched.thread t =
      ⟨(s.pcb f.parent).pid, initial, false, 0, 0⟩ := Function.update_self _ _ _
  rw [hpcb, hthread]
  exact ⟨List.mem_cons_self, rfl⟩

/-- A stack on loan goes back with the context. -/
theorem archTaskContextRelease_loans {blocks locks : List Nat} {stack : Nat}
    (h : Loans L dirs mm₀ (stackBlocks ring stack ++ blocks) locks s.mm (s.pcb p).vcb)
    (hstack : stack ≠ 0) :
    Loans L dirs mm₀ blocks locks (s.archTaskContextRelease p ring stack).mm
        ((s.archTaskContextRelease p ring stack).pcb p).vcb ∧
      Agree s (s.archTaskContextRelease p ring stack) p := by
  unfold archTaskContextRelease
  rw [if_neg hstack]
  cases ring with
  | kernel => exact ⟨h.kfree, Agree.withMm (Nat.le_refl _)⟩
  | user =>
    rw [withSpace_vcb]
    exact ⟨h.freePages stack, Agree.withSpace (vmmFreePages_cr3 _ _ stack).2.ge _⟩

theorem unlinkThread_pcb_parent (h : (s.tcb t).parent = p) :
    (s.unlinkThread t).pcb p = { s.pcb p with tcbs := (s.pcb p).tcbs.erase t } := by
  subst h
  exact Function.update_self _ _ _

theorem dropThread_eq (h : (s.tcb t).parent = p) : s.dropThread t =
    ((s.archTaskContextRelease p (s.tcb t).ring (s.tcb t).stack).unlinkThread t).spinlockRelease
      (s.tcb t).spLock := by
  subst h
  rfl

/-- The threads have the mailboxes that they had. -/
structure SameBoxes (s s' : ProcTable) : Prop where
  mailbox : ∀ t, (s'.sched.thread t).mailbox = (s.sched.thread t).mailbox
  boxLock : s'.boxLock = s.boxLock

namespace SameBoxes

theorem trans {s'' : ProcTable} (h : SameBoxes s s') (h' : SameBoxes s' s'') : SameBoxes s s'' :=
  ⟨fun t => (h'.mailbox t).trans (h.mailbox t), h'.boxLock.trans h.boxLock⟩

theorem calm (h : Calm s s') : SameBoxes s s' := ⟨h.threads.mailbox, h.boxLock⟩

theorem boxBlocks (h : SameBoxes s s') (t : Nat) : s'.boxBlocks t = s.boxBlocks t := by
  unfold ProcTable.boxBlocks
  rw [h.mailbox]

theorem boxLocks (h : SameBoxes s s') (t : Nat) : s'.boxLocks t = s.boxLocks t := by
  unfold ProcTable.boxLocks
  rw [h.mailbox, h.boxLock]

theorem unlinkThread (s : ProcTable) (t : Nat) : SameBoxes s (s.unlinkThread t) := by
  refine ⟨fun u => ?_, rfl⟩
  change ((s.sched.detachWait t).thread u).mailbox = _
  unfold Sched.detachWait
  split_ifs
  · rfl
  · exact (s.sched.sameThreads_delist t _).mailbox u

theorem dropThread (s : ProcTable) (t : Nat) : SameBoxes s (s.dropThread t) := by
  have hctx : SameBoxes s (s.archTaskContextRelease (s.tcb t).parent (s.tcb t).ring
      (s.tcb t).stack) := by
    unfold archTaskContextRelease
    split_ifs
    · exact ⟨fun _ => rfl, rfl⟩
    · cases (s.tcb t).ring <;> exact ⟨fun _ => rfl, rfl⟩
  have hunlink := hctx.trans (unlinkThread _ t)
  exact ⟨hunlink.mailbox, hunlink.boxLock⟩

end SameBoxes

namespace Charged

/-! ## Taking and giving back -/

section

variable (h : Charged L dirs mm₀ hand keys s p)

include h

theorem proc_le : p ≤ s.mm.kheap.calls :=
  h.loans.named p (List.mem_append_right _ List.mem_cons_self)

theorem perm (hhand : hand.Perm hand') (hkeys : keys.Perm keys') :
    Charged L dirs mm₀ hand' keys' s p :=
  ⟨h.loans.perm (hhand.append_right _) (hkeys.append_right _), h.family⟩

theorem calm (hs : Calm s s') :
    Charged L dirs mm₀ hand keys s' p := by
  refine (Agree.calm hs).charged h.family ?_
  rw [hs.mm, hs.pcb p]
  exact h.loans

/-- The resources change, and the account with them. -/
theorem withMm {mm : Resources} (hcalls : s.mm.kheap.calls ≤ mm.kheap.calls)
    (hloans : Loans L dirs mm₀ (hand' ++ s.procBlocks p) (keys' ++ s.procLocks p) mm
      (s.pcb p).vcb) : Charged L dirs mm₀ hand' keys' (s.withMm mm) p :=
  (Agree.withMm hcalls).charged h.family hloans

theorem withSpace {mm : Resources} {vcb : Vcb} (hcalls : s.mm.kheap.calls ≤ mm.kheap.calls)
    (hloans : Loans L dirs mm₀ (hand' ++ s.procBlocks p) (keys' ++ s.procLocks p) mm vcb) :
    Charged L dirs mm₀ hand' keys' (s.withSpace p mm vcb) p := by
  refine (Agree.withSpace hcalls vcb).charged h.family ?_
  rw [withSpace_vcb]
  exact hloans

/-- A block is in hand, or the heap refuses. -/
theorem kmalloc (hx : s.mm.kmalloc.1 ≠ 0) :
    Charged L dirs mm₀ (s.mm.kmalloc.1 :: hand) keys (s.withMm s.mm.kmalloc.2) p :=
  h.withMm (Resources.same_kmalloc s.mm).calls (h.loans.kmalloc hx)

theorem kmalloc_zero (hx : s.mm.kmalloc.1 = 0) :
    Charged L dirs mm₀ hand keys (s.withMm s.mm.kmalloc.2) p :=
  h.withMm (Resources.same_kmalloc s.mm).calls (h.loans.kmalloc_zero hx)

end

theorem kfree {x : Nat} (h : Charged L dirs mm₀ (x :: hand) keys s p) :
    Charged L dirs mm₀ hand keys (s.kfree x) p :=
  h.withMm (Nat.le_refl _) h.loans.kfree

theorem spinlockRelease {i : Nat} (h : Charged L dirs mm₀ hand (i :: keys) s p) :
    Charged L dirs mm₀ hand keys (s.spinlockRelease i) p :=
  h.withMm (Nat.le_refl _) h.loans.spinlockRelease

/-- A lock is in hand, or all of them are taken. -/
theorem spinlockAlloc (h : Charged L dirs mm₀ hand keys s p) :
    (∃ i mm, s.mm.spinlockAlloc = (some i, mm) ∧
      Charged L dirs mm₀ hand (i :: keys) (s.withMm mm) p) ∨
      s.mm.spinlockAlloc = (none, s.mm) := by
  cases hres : s.mm.spinlockAlloc with
  | mk lock mm =>
    cases lock with
    | some i =>
      have hcalls : s.mm.kheap.calls ≤ mm.kheap.calls := by
        have hsame := (Resources.same_spinlockAlloc s.mm).calls
        rwa [hres] at hsame
      exact Or.inl ⟨i, mm, rfl, h.withMm hcalls (h.loans.spinlockAlloc hres)⟩
    | none => exact Or.inr (by rw [spinlockAlloc_none hres])

/-! ## Creation of a thread -/

/-- A context takes a stack, or fails and leaves the account as it was. -/
theorem archTaskContextInit (h : Charged L dirs mm₀ hand keys s p) (ring : Priv)
    (hfits : ring = .user → StackFits L s.mm (s.pcb p).vcb) :
    match s.archTaskContextInit L p ring with
    | (none, s') => Charged L dirs mm₀ hand keys s' p
    | (some stack, s') =>
      stack ≠ 0 ∧ Charged L dirs mm₀ (stackBlocks ring stack ++ hand) keys s' p := by
  cases ring with
  | kernel =>
    unfold ProcTable.archTaskContextInit
    dsimp only
    by_cases hzero : s.mm.kmalloc.1 = 0
    · rw [if_pos hzero]
      exact h.kmalloc_zero hzero
    · rw [if_neg hzero]
      exact ⟨hzero, h.kmalloc hzero⟩
  | user =>
    unfold ProcTable.archTaskContextInit
    have hloans := h.loans.allocStack (hfits rfl) pteUserPage
    have hcalls := (vmmAllocPages_cr3 L s.mm (s.pcb p).vcb 1 pteUserPage).2
    generalize vmmAllocPages L s.mm (s.pcb p).vcb 1 pteUserPage = res at hloans hcalls ⊢
    obtain ⟨stack, mm, vcb⟩ := res
    have hspace := h.withSpace hcalls hloans
    dsimp only
    by_cases hzero : stack = 0
    · rw [if_pos hzero]
      exact hspace
    rw [if_neg hzero]
    by_cases hpa : vmmVcbVaToPa mm vcb stack = 0
    · -- the address of the stack is not found, and it goes again
      rw [if_pos hpa]
      have hfree := hspace.loans.freePages stack
      rw [withSpace_vcb] at hfree
      exact hspace.withSpace (vmmFreePages_cr3 mm vcb stack).2.ge hfree
    · rw [if_neg hpa]
      exact ⟨hzero, hspace⟩

/-- A stack that is in hand goes back. -/
theorem archTaskContextRelease {stack : Nat}
    (h : Charged L dirs mm₀ (stackBlocks ring stack ++ hand) keys s p) (hstack : stack ≠ 0) :
    Charged L dirs mm₀ hand keys (s.archTaskContextRelease p ring stack) p := by
  have hloans := h.loans
  rw [List.append_assoc] at hloans
  obtain ⟨hrelease, hagree⟩ := archTaskContextRelease_loans hloans hstack
  exact hagree.charged h.family hrelease

/-- What is in hand enters the lists as a thread. -/
theorem linkThread {f : TcbFields}
    (h : Charged L dirs mm₀ (stackBlocks f.ring f.stack ++ t :: hand) (f.spLock :: keys) s p)
    (hparent : f.parent = p) (hstack : f.stack ≠ 0) (hnew : t ∉ (s.pcb p).tcbs)
    (hfresh : t ∉ s.sched.order) (initial : ThreadState) :
    Charged L dirs mm₀ hand keys (s.linkThread t f initial) p := by
  have hpcb : (s.linkThread t f initial).pcb p = { s.pcb p with tcbs := t :: (s.pcb p).tcbs } := by
    change Function.update s.pcb f.parent _ p = _
    rw [hparent, Function.update_self]
  have htcb (u : Nat) : (s.linkThread t f initial).tcb u = if u = t then f else s.tcb u :=
    Function.update_apply _ _ _ _
  have hthread (u : Nat) : (s.linkThread t f initial).sched.thread u =
      if u = t then ⟨(s.pcb f.parent).pid, initial, false, 0, 0⟩ else s.sched.thread u :=
    Function.update_apply _ _ _ _
  have hne {u : Nat} (hu : u ∈ (s.pcb p).tcbs) : u ≠ t := fun heq => hnew (heq ▸ hu)
  have hblocks : (s.linkThread t f initial).procBlocks p =
      p :: ((s.pcb p).capabilities.map Capability.addr ++ (t :: stackBlocks f.ring f.stack ++
        (s.pcb p).tcbs.flatMap fun u => u :: s.threadBlocks u)) := by
    grind [List.flatMap_congr, threadBlocks, procBlocks]
  have hlocks : (s.linkThread t f initial).procLocks p =
      (s.pcb p).spLock :: (s.pcb p).capLock :: ([f.spLock] ++
        (s.pcb p).tcbs.flatMap fun u => (s.tcb u).spLock :: s.boxLocks u) := by
    have hself : (s.linkThread t f initial).boxLocks t = [] := by simp [boxLocks, hthread]
    have hothers : ((s.pcb p).tcbs.flatMap fun u => ((s.linkThread t f initial).tcb u).spLock ::
        (s.linkThread t f initial).boxLocks u) =
        (s.pcb p).tcbs.flatMap fun u => (s.tcb u).spLock :: s.boxLocks u := by
      refine List.flatMap_congr fun u hu => ?_
      have hbox : (s.linkThread t f initial).boxLock = s.boxLock := rfl
      simp only [boxLocks, htcb, hthread, if_neg (hne hu), hbox]
    have hown : (s.linkThread t f initial).tcb t = f := (htcb t).trans (if_pos rfl)
    simp only [procLocks, hpcb, List.flatMap_cons, hself, hothers, hown]
  refine ⟨?_, ?_, ?_, ?_, ?_, ?_⟩
  · rw [hpcb, hblocks, hlocks]
    refine h.loans.perm ?_ ?_
    · grind [procBlocks]
    · grind [procLocks]
  · rw [hpcb]
    exact List.nodup_cons.mpr ⟨hnew, h.family.nodup⟩
  · grind [h.family.child]
  · rw [hpcb]
    intro u hu hpu
    rw [htcb] at hpu
    split_ifs at hpu with heq
    · exact heq ▸ List.mem_cons_self
    · have hold : u ∈ s.sched.order := (List.mem_cons.mp hu).resolve_left heq
      exact List.mem_cons_of_mem t (h.family.order u hold hpu)
  · exact List.nodup_cons.mpr ⟨hfresh, h.family.listed⟩
  · intro u hu
    rcases List.mem_cons.mp hu with rfl | hu
    · exact h.loans.named u (List.mem_append_left _
        (List.mem_append_right _ List.mem_cons_self))
    · exact h.family.named u hu

theorem startFirst (h : Charged L dirs mm₀ hand keys s p) (t q : Nat) :
    Charged L dirs mm₀ hand keys (s.startFirst t q) p := by
  refine (Agree.startFirst s t q).charged h.family ?_
  unfold ProcTable.startFirst
  rw [vmmSwitch_eq]
  exact h.loans

/-- A thread without a mailbox gets one, and its block and lock are no longer in hand. -/
theorem setMailbox {mb lock : Nat} (h : Charged L dirs mm₀ (mb :: hand) (lock :: keys) s p)
    (ht : t ∈ (s.pcb p).tcbs) (hnone : (s.sched.thread t).mailbox = 0) (hmb : mb ≠ 0)
    (hnew : mb ∉ s.procBlocks p) (hmm : s'.mm = s.mm) (hpcb : s'.pcb = s.pcb)
    (htcb : s'.tcb = s.tcb) (horder : s'.sched.order = s.sched.order)
    (hbox : ∀ u, (s'.sched.thread u).mailbox = if u = t then mb else (s.sched.thread u).mailbox)
    (hlock : s'.boxLock = Function.update s.boxLock mb lock) :
    Charged L dirs mm₀ hand keys s' p := by
  have hblocks : (s'.procBlocks p).Perm (mb :: s.procBlocks p) := by
    have hchange := perm_flatMap_of_change [mb] (f := fun u => u :: s.threadBlocks u)
      (g := fun u => u :: s'.threadBlocks u) h.family.nodup ht (by
        simp [threadBlocks, htcb, hbox, hnone, hmb, List.perm_iff_count, List.count_cons,
          List.count_append]
        omega)
      fun u _ hu => by simp only [threadBlocks, htcb, hbox, if_neg hu]
    simp only [List.perm_iff_count, List.count_append, List.count_cons] at hchange
    unfold procBlocks
    rw [hpcb]
    simp only [List.perm_iff_count, List.count_append, List.count_cons]
    intro a
    have hcount := hchange a
    simp only [List.count_nil] at hcount
    omega
  have hlocks : (s'.procLocks p).Perm (lock :: s.procLocks p) := by
    have hchange := perm_flatMap_of_change [lock]
      (f := fun u => (s.tcb u).spLock :: s.boxLocks u)
      (g := fun u => (s'.tcb u).spLock :: s'.boxLocks u) h.family.nodup ht (by
        simp [boxLocks, htcb, hbox, hnone, hmb, hlock]
        exact List.Perm.swap _ _ _)
      fun u hmem hu => by
        unfold boxLocks
        rw [htcb, hbox, if_neg hu, hlock]
        split_ifs with hzero
        · rfl
        · -- the block is new, and so it is not the mailbox of another thread
          have hne : (s.sched.thread u).mailbox ≠ mb := by
            intro heq
            refine hnew (List.mem_cons_of_mem _ (List.mem_append_right _ ?_))
            refine List.mem_flatMap.mpr ⟨u, hmem, List.mem_cons_of_mem _ ?_⟩
            unfold threadBlocks
            rw [if_neg hzero, heq]
            exact List.mem_append_right _ List.mem_cons_self
          rw [Function.update_of_ne hne]
    simp only [List.perm_iff_count, List.count_append, List.count_cons] at hchange
    unfold procLocks
    rw [hpcb]
    simp only [List.perm_iff_count, List.count_cons]
    intro a
    have hcount := hchange a
    simp only [List.count_nil] at hcount
    omega
  refine ⟨?_, ?_, ?_, ?_, ?_, ?_⟩
  · grind [h.loans.perm]
  · rw [hpcb]
    exact h.family.nodup
  · rw [hpcb, htcb]
    exact h.family.child
  · rw [hpcb, htcb, horder]
    exact h.family.order
  · rw [horder]
    exact h.family.listed
  · rw [horder, hmm]
    exact h.family.named

section

variable (h : Charged L dirs mm₀ hand keys s p)

include h

theorem giveMailbox (ht : t ∈ (s.pcb p).tcbs) (hnone : (s.sched.thread t).mailbox = 0) :
    Charged L dirs mm₀ hand keys (s.giveMailbox t) p := by
  -- a thread that is given no mailbox is as before
  have hzero {s₁ : ProcTable} (h₁ : Charged L dirs mm₀ hand keys s₁ p)
      (hnone₁ : (s₁.sched.thread t).mailbox = 0) : Charged L dirs mm₀ hand keys
        (s₁.withSched (s₁.sched.modify t fun th => { th with mailbox := 0 })) p := by
    refine Agree.charged (s := s₁)
      ⟨Nat.le_refl _, ⟨_, _, rfl⟩, rfl, ⟨rfl, fun u => ?_, fun u => ?_⟩,
      rfl⟩ h₁.family h₁.loans
    · change ((s₁.sched.modify t fun th => { th with mailbox := 0 }).thread u).pid = _
      rw [Sched.modify_thread]
      split_ifs with heq
      · rw [heq]
      · rfl
    · change ((s₁.sched.modify t fun th => { th with mailbox := 0 }).thread u).mailbox = _
      rw [Sched.modify_thread]
      split_ifs with heq
      · rw [heq, hnone₁]
      · rfl
  unfold ProcTable.giveMailbox ProcTable.allocMailbox
  dsimp only
  by_cases hmb : s.mm.kmalloc.1 = 0
  · rw [if_pos hmb]
    exact hzero (h.kmalloc_zero hmb) hnone
  rw [if_neg hmb]
  have hblock := h.kmalloc hmb
  have hname : s.mm.kmalloc.1 = s.mm.kheap.calls + 1 := Arena.kmalloc_name hmb
  rcases hblock.spinlockAlloc with ⟨lock, mm, heq, hlock⟩ | heq
  · rw [heq]
    refine hlock.setMailbox (t := t) ht hnone hmb (fun hmem => ?_) rfl rfl rfl rfl (fun u => ?_) rfl
    · have hle := h.loans.named _ (List.mem_append_right hand hmem)
      omega
    · change (((s.sched.setWaiters s.mm.kmalloc.1 []).modify t fun th =>
        { th with mailbox := s.mm.kmalloc.1 }).thread u).mailbox = _
      rw [Sched.modify_thread]
      split_ifs <;> rfl
  · rw [heq]
    exact hzero hblock.kfree hnone

/-- A thread is created or not. -/
theorem threadCreateEx (hring : ring = .user →
    StackFits L s.mm (s.pcb p).vcb) (initial : ThreadState) :
    Charged L dirs mm₀ hand keys (s.threadCreateEx L p ring initial).2 p := by
  unfold ProcTable.threadCreateEx
  split_ifs
  · exact h
  dsimp only
  by_cases ht : s.mm.kmalloc.1 = 0
  · rw [if_pos ht]
    exact h.kmalloc_zero ht
  rw [if_neg ht]
  have hrecord := h.kmalloc ht
  have hname : s.mm.kmalloc.1 = s.mm.kheap.calls + 1 := Arena.kmalloc_name ht
  have hfresh : s.mm.kmalloc.1 ∉ s.sched.order := fun hmem => by
    have hle := h.family.named _ hmem
    omega
  have hnew : s.mm.kmalloc.1 ∉ (s.pcb p).tcbs := fun hmem => by
    have hblock : s.mm.kmalloc.1 ∈ s.procBlocks p := List.mem_cons_of_mem _
      (List.mem_append_right _ (List.mem_flatMap.mpr ⟨_, hmem, List.mem_cons_self⟩))
    have hle := h.loans.named _ (List.mem_append_right hand hblock)
    omega
  have hctx := hrecord.archTaskContextInit ring fun huser =>
    (hring huser).same h.loans.sound (Resources.same_kmalloc s.mm)
  have hsame := archTaskContextInit_same L (s.withMm s.mm.kmalloc.2) p ring
  generalize (s.withMm s.mm.kmalloc.2).archTaskContextInit L p ring = res at hctx hsame ⊢
  obtain ⟨_ | stack, s₁⟩ := res
  · exact hctx.kfree
  dsimp only at hctx ⊢
  obtain ⟨hstack, hctx⟩ := hctx
  rcases hctx.spinlockAlloc with ⟨lock, mm, heq, hlock⟩ | heq
  · rw [heq]
    have htcbs : s.mm.kmalloc.1 ∉ ((s₁.withMm mm).pcb p).tcbs := by
      change s.mm.kmalloc.1 ∉ (s₁.pcb p).tcbs
      rw [(hsame.pcb p hrecord.proc_le).tcbs]
      exact hnew
    have horder : s.mm.kmalloc.1 ∉ (s₁.withMm mm).sched.order := by
      change s.mm.kmalloc.1 ∉ s₁.sched.order
      rw [hsame.sched]
      exact hfresh
    have hlink := hlock.linkThread (f := ⟨s₁.nextTid, p, ring, stack, lock⟩) rfl hstack htcbs
      horder initial
    have hmem := mem_linkThread (s₁.withMm mm) s.mm.kmalloc.1 ⟨s₁.nextTid, p, ring, stack, lock⟩
      initial
    dsimp only
    split_ifs
    · have hstart := Agree.startFirst ((s₁.withMm mm).linkThread s.mm.kmalloc.1
        ⟨s₁.nextTid, p, ring, stack, lock⟩ initial) s.mm.kmalloc.1 p (p := p)
      exact (hlink.startFirst s.mm.kmalloc.1 p).giveMailbox (hstart.tcbs ▸ hmem.1)
        ((hstart.threads.mailbox _).trans hmem.2)
    · exact hlink.giveMailbox hmem.1 hmem.2
  · rw [heq]
    exact ((hctx.withMm (Nat.le_refl _) hctx.loans).archTaskContextRelease hstack).kfree

/-! ## Deletion of a thread -/

/-- A thread goes; its record and its mailbox are in hand. -/
theorem dropThread (ht : t ∈ (s.pcb p).tcbs) :
    Charged L dirs mm₀ (t :: s.boxBlocks t ++ hand) (s.boxLocks t ++ keys) (s.dropThread t) p := by
  obtain ⟨hparent, hstack⟩ := h.family.child t ht
  have hpcb := unlinkThread_pcb_parent hparent
  have hboxes := SameBoxes.unlinkThread s t
  have hthread (u : Nat) : (s.unlinkThread t).threadBlocks u = s.threadBlocks u := by
    unfold threadBlocks
    rw [hboxes.mailbox]
    rfl
  have hfamily : (s.unlinkThread t).Family p := by
    have horder : (s.unlinkThread t).sched.order = s.sched.order.erase t := rfl
    refine ⟨?_, ?_, ?_, horder ▸ h.family.listed.erase t, fun u hu =>
      h.family.named u (List.mem_of_mem_erase hu)⟩
    · rw [hpcb]
      exact h.family.nodup.erase t
    · rw [hpcb]
      exact fun u hu => h.family.child u (List.mem_of_mem_erase hu)
    · rw [hpcb, horder]
      intro u hu hpu
      obtain ⟨hne, hmem⟩ := h.family.listed.mem_erase_iff.mp hu
      exact h.family.nodup.mem_erase_iff.mpr ⟨hne, h.family.order u hmem hpu⟩
  have hperm := List.perm_cons_erase ht
  -- before anything goes back, the thread is moved from the lists to the hand
  have hloans : Loans L dirs mm₀
      (stackBlocks (s.tcb t).ring (s.tcb t).stack ++ ((t :: s.boxBlocks t ++ hand) ++
        (s.unlinkThread t).procBlocks p))
      ((s.tcb t).spLock :: ((s.boxLocks t ++ keys) ++ (s.unlinkThread t).procLocks p)) s.mm
      (s.pcb p).vcb := by
    refine h.loans.perm ?_ ?_
    · have hcount := hperm.flatMap_right fun u => u :: s.threadBlocks u
      have hself : s.threadBlocks t = stackBlocks (s.tcb t).ring (s.tcb t).stack ++ s.boxBlocks t :=
        rfl
      rw [List.flatMap_cons, hself] at hcount
      simp only [procBlocks, hpcb, hthread]
      simp only [List.perm_iff_count, List.count_append, List.count_cons] at hcount ⊢
      intro a
      have := hcount a
      omega
    · have hcount := hperm.flatMap_right fun u => (s.tcb u).spLock :: s.boxLocks u
      rw [List.flatMap_cons] at hcount
      have htcb : (s.unlinkThread t).tcb = s.tcb := rfl
      simp only [procLocks, hpcb, hboxes.boxLocks, htcb]
      simp only [List.perm_iff_count, List.count_append, List.count_cons] at hcount ⊢
      intro a
      have := hcount a
      omega
  obtain ⟨hrelease, hctx⟩ := archTaskContextRelease_loans hloans hstack
  have hagree : Agree (s.unlinkThread t) (s.dropThread t) p := by
    have hsame := dropThread_same (s := s) (t := t) (hparent.symm ▸ h.proc_le)
    have hrest := (hsame.pcb p h.proc_le).rest
    refine ⟨hsame.calls, ⟨_, _, hrest⟩, hsame.tcb, hsame.sched ▸ Sched.SameThreads.refl _, ?_⟩
    rw [dropThread_eq hparent]
    exact hctx.boxLock
  refine hagree.charged hfamily ?_
  set s₁ := s.archTaskContextRelease p (s.tcb t).ring (s.tcb t).stack
  have hvcb : ((s.dropThread t).pcb p).vcb = (s₁.pcb p).vcb := by
    have hunlink : (s₁.unlinkThread t).pcb p = _ :=
      unlinkThread_pcb_parent (by rw [hctx.tcb, hparent])
    have hdrop : (s.dropThread t).pcb p = (s₁.unlinkThread t).pcb p := by
      rw [dropThread_eq hparent]
      rfl
    rw [hdrop, hunlink]
  rw [hvcb, dropThread_eq hparent]
  exact hrelease.spinlockRelease

end

/-- The mailbox of a thread goes back. -/
theorem releaseMailbox {mb : Nat} (hmb : mb ≠ 0)
    (h : Charged L dirs mm₀ (mb :: hand) (s.boxLock mb :: keys) s p) :
    Charged L dirs mm₀ hand keys (s.releaseMailbox mb) p := by
  unfold ProcTable.releaseMailbox
  rw [if_neg hmb]
  have hqueue : Charged L dirs mm₀ (mb :: hand) keys
      ((s.spinlockRelease (s.boxLock mb)).withSched (s.sched.setWaiters mb [])) p :=
    Agree.charged (s := s.spinlockRelease (s.boxLock mb))
      ⟨Nat.le_refl _, ⟨_, _, rfl⟩, rfl, ⟨rfl, fun _ => rfl, fun _ => rfl⟩, rfl⟩
      h.spinlockRelease.family h.spinlockRelease.loans
  exact hqueue.kfree

variable (h : Charged L dirs mm₀ hand keys s p)

include h

theorem reapThread (ht : t ∈ (s.pcb p).tcbs) :
    Charged L dirs mm₀ hand keys (s.reapThread t) p := by
  have hdrop := h.dropThread ht
  unfold boxBlocks boxLocks at hdrop
  unfold ProcTable.reapThread
  by_cases hzero : (s.sched.thread t).mailbox = 0
  · simp only [if_pos hzero] at hdrop
    unfold ProcTable.releaseMailbox
    rw [if_pos hzero]
    exact hdrop.kfree
  · simp only [if_neg hzero] at hdrop
    rw [← (SameBoxes.dropThread s t).boxLock] at hdrop
    exact ((hdrop.perm (List.Perm.swap _ _ _) (List.Perm.refl _)).releaseMailbox hzero).kfree

theorem threadDelete {tid : Nat} (hp : ∀ t, s.findThread tid = some t → (s.tcb t).parent = p) :
    Charged L dirs mm₀ hand keys (s.threadDelete tid) p := by
  rcases s.threadDelete_cases tid with heq | ⟨t, ht, hgone⟩
  · rw [heq]
    exact h
  have hmem := h.family.order t (Linked.mem_of_findThread ht) (hp t ht)
  rcases hgone with ⟨-, heq⟩ | ⟨s', ⟨-, next, -, -, rfl⟩, heq⟩
  · rw [heq]
    exact h.reapThread hmem
  · rw [heq]
    exact (h.calm (Calm.runNext s t next)).reapThread hmem

/-! ## The end of a process -/

/-- At the exit of a process the mailbox of a thread is left behind. -/
theorem exitThread (ht : t ∈ (s.pcb p).tcbs) (hs : s.exitThread t = some s') :
    Charged L dirs mm₀ (s.boxBlocks t ++ hand) (s.boxLocks t ++ keys) s' p ∧ SameBoxes s s' ∧
      (s'.pcb p).tcbs = (s.pcb p).tcbs.erase t := by
  have hparent := (h.family.child t ht).1
  -- what the exit does once another thread runs
  have hgone {s₁ : ProcTable} (hc : Calm s s₁) :
      Charged L dirs mm₀ (s.boxBlocks t ++ hand) (s.boxLocks t ++ keys)
        ((s₁.dropThread t).kfree t) p ∧ SameBoxes s ((s₁.dropThread t).kfree t) ∧
          (((s₁.dropThread t).kfree t).pcb p).tcbs = (s.pcb p).tcbs.erase t := by
    have hboxes := SameBoxes.calm hc
    have htcbs : (s₁.pcb p).tcbs = (s.pcb p).tcbs := by rw [hc.pcb p]
    have h₁ := h.calm hc
    have hdrop := h₁.dropThread (t := t) (htcbs.symm ▸ ht)
    rw [hboxes.boxBlocks, hboxes.boxLocks] at hdrop
    have hsame := dropThread_same (s := s₁) (t := t) (by rw [hc.tcb, hparent]; exact h₁.proc_le)
    refine ⟨hdrop.kfree, ?_, ?_⟩
    · have hall := hboxes.trans (SameBoxes.dropThread s₁ t)
      exact ⟨hall.mailbox, hall.boxLock⟩
    · change ((s₁.dropThread t).pcb p).tcbs = _
      rw [(hsame.pcb p h₁.proc_le).tcbs, unlinkThread_pcb_parent (by rw [hc.tcb, hparent]), htcbs]
  rcases exitThread_some hs with ⟨-, rfl⟩ | ⟨s₁, ⟨-, next, -, -, rfl⟩, rfl⟩
  · exact hgone (Calm.refl s)
  · exact hgone (Calm.runNext s t next)

theorem exitLoop {ts : List Nat} (hts : (s.pcb p).tcbs = ts) (hs : exitLoop ts s = (true, s')) :
    Charged L dirs mm₀ (ts.flatMap s.boxBlocks ++ hand) (ts.flatMap s.boxLocks ++ keys) s' p ∧
      (s'.pcb p).tcbs = [] := by
  induction ts generalizing s hand keys with
  | nil =>
    cases hs
    exact ⟨h, hts⟩
  | cons t ts ih =>
    unfold ProcTable.exitLoop at hs
    cases hexit : s.exitThread t with
    | none =>
      rw [hexit] at hs
      cases hs
    | some s₁ =>
      rw [hexit] at hs
      obtain ⟨hgone, hboxes, htcbs⟩ := h.exitThread (hts ▸ List.mem_cons_self) hexit
      rw [hts, List.erase_cons_head] at htcbs
      obtain ⟨hrest, hnone⟩ := ih hgone htcbs hs
      refine ⟨hrest.perm ?_ ?_, hnone⟩
      · simp only [List.flatMap_cons, List.append_assoc, funext hboxes.boxBlocks]
        exact List.perm_append_comm_assoc _ _ _
      · simp only [List.flatMap_cons, List.append_assoc, funext hboxes.boxLocks]
        exact List.perm_append_comm_assoc _ _ _

end Charged

end ProcTable

end Ukernel.Kernel
