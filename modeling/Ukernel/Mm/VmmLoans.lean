import Ukernel.Mm.VmmBooks

/-!
# What is taken besides an address space

While an address space is open, its process takes more from the kernel: blocks of the heap for its
records, and locks. `Loans` keeps the account of the address space and lists what is out on loan
besides. Once everything on the lists has gone back, destruction leaves the resources as they were.

## Why the base of the account moves

`Open` compares the resources with those at the start. A block on loan is added to the start rather
than to the account, so that nothing has to be said about the operations of the address space
again: they never see that the base has moved (`Resources.lend`).

## Main definitions

* `Resources.lend`: the start, with the loans
* `Loans`: the account of an address space, and what is out on loan besides
* `StackFits`: a page for a stack would lie below the user's limit and get no table that is lost

## Main results

* `Loans.kmalloc`, `Loans.kfree`, `Loans.spinlockAlloc`, `Loans.spinlockRelease`: loans
* `Loans.allocStack`, `Loans.freePages`: the address space
* `vmmCreate_loans`, `Loans.destroy`: the beginning and the end
-/

namespace Ukernel.Mm

open Arch Kernel Lib VmmRegion Resources

variable {L : Layout} {dirs : Set Nat} {mm₀ mm mm' : Resources} {v : Vcb} {x i : Nat}
  {blocks blocks' locks locks' : List Nat}

/-- The resources, with blocks and locks on loan. -/
def Resources.lend (mm : Resources) (blocks locks : List Nat) : Resources where
  pmm := mm.pmm
  paging := mm.paging
  kheap := { mm.kheap with live := blocks ++ mm.kheap.live }
  locks i := decide (i ∈ locks) || mm.locks i

theorem Resources.lend_lock_eq_false :
    (mm.lend blocks locks).locks i = false ↔ i ∉ locks ∧ mm.locks i = false := by
  simp [Resources.lend]

/-- A process that has an address space and nothing else. -/
def Vcb.proc (v : Vcb) : Pcb := (Pcb.bare .kernel []).withVcb v

theorem Vcb.proc_caps (v : Vcb) : ∀ e ∈ v.proc.capabilities, e.cap.Mem CapMem.Ok :=
  fun _ he => absurd he List.not_mem_nil

/-- Only parts of the start matter for the account. -/
theorem Open.base {mm₁ : Resources} {handed : List VmmRegion} {p : Pcb}
    (h : Open L mm₁ handed mm p) (hpmm : mm₀.pmm = mm₁.pmm)
    (hpool : mm₀.paging.poolUsed = mm₁.paging.poolUsed)
    (hlive : mm₁.kheap.live.Perm mm₀.kheap.live) (hlocks : mm₀.locks = mm₁.locks) :
    Open L mm₀ handed mm p := by
  have hstays (b : Nat) : stays mm₀ handed b = stays mm₁ handed b := by
    unfold stays
    rw [hpmm]
  refine ⟨hlocks ▸ h.lock, hlocks ▸ h.locks, ?_, hpool ▸ h.pool, ?_⟩
  · exact h.live.trans (((hlive.cons _).cons _).append_left _)
  · constructor
    · exact hpmm ▸ h.ledger.shape
    · grind [h.ledger.test]
    · grind [h.ledger.owned]

/-- An open address space, with blocks and locks on loan since `mm₀`. -/
structure Loans (L : Layout) (dirs : Set Nat) (mm₀ : Resources) (blocks locks : List Nat)
    (mm : Resources) (v : Vcb) : Prop where
  ok : mm.Ok L dirs
  sound : v.proc.Sound L dirs mm
  acct : Open L (mm₀.lend blocks locks) [] mm v.proc
  named : ∀ x ∈ blocks, x ≤ mm.kheap.calls
  nodup : locks.Nodup
  free : ∀ i ∈ locks, mm₀.locks i = false

namespace Loans

section

variable (h : Loans L dirs mm₀ blocks locks mm v)

include h

theorem lock_not_mem : v.lock ∉ locks :=
  (lend_lock_eq_false.mp h.acct.lock).1

/-- The locks that are taken. -/
theorem locks_eq_true :
    mm.locks i = true ↔ i = v.lock ∨ i ∈ locks ∨ mm₀.locks i = true := by
  have hlocks : mm.locks = Function.update (mm₀.lend blocks locks).locks v.lock true := h.acct.locks
  rw [hlocks]
  by_cases hi : i = v.lock
  · grind
  · simp [Resources.lend, hi]

/-- A change of the heap and the locks that the address space does not see. -/
theorem relend (hs : Same mm mm')
    (hlocks : ∀ i, mm'.locks i = true ↔ i = v.lock ∨ i ∈ locks' ∨ mm₀.locks i = true)
    (hlock : v.lock ∉ locks')
    (hlive : ∀ rest, mm.kheap.live.Perm (rest ++ (blocks ++ mm₀.kheap.live)) →
      mm'.kheap.live.Perm (rest ++ (blocks' ++ mm₀.kheap.live)))
    (hnamed : ∀ x ∈ blocks', x ≤ mm'.kheap.calls) (hnodup : locks'.Nodup)
    (hfree : ∀ i ∈ locks', mm₀.locks i = false) : Loans L dirs mm₀ blocks' locks' mm' v := by
  have heffect := Effect.of_same h.sound hs
  refine ⟨(heffect.steps h.ok h.sound).ok, heffect.sound h.ok h.sound, ?_, hnamed, hnodup, hfree⟩
  have hnodes : v.nodes mm'.fuel = v.nodes mm.fuel :=
    h.sound.tree.nodes_congr (Nat.lt_succ_self _) (Nat.lt_succ_of_le hs.calls)
  have hold : mm₀.locks v.lock = false := (lend_lock_eq_false.mp h.acct.lock).2
  have hledger := h.acct.ledger.effect heffect fun r hr => nomatch hr
  refine ⟨lend_lock_eq_false.mpr ⟨hlock, hold⟩, ?_, ?_, ?_, hledger.shape, hledger.test,
    hledger.owned⟩
  · funext i
    rw [Bool.eq_iff_iff, hlocks]
    by_cases hi : i = v.lock
    · subst hi
      change _ ↔ Function.update (mm₀.lend blocks' locks').locks v.lock true v.lock = true
      rw [Function.update_self]
      exact ⟨fun _ => rfl, fun _ => Or.inl rfl⟩
    · change _ ↔ Function.update (mm₀.lend blocks' locks').locks v.lock true i = true
      simp [Resources.lend, hi]
  · change mm'.kheap.live.Perm (v.nodes mm'.fuel ++ v.tree.nil :: v.treeAddr :: _)
    rw [hnodes]
    have hthis := hlive (v.nodes mm.fuel ++ [v.tree.nil, v.treeAddr])
    simp only [List.append_assoc, List.cons_append, List.nil_append] at hthis
    exact hthis h.acct.live
  · rw [hs.paging]
    exact h.acct.pool

/-- The order of the lists does not matter. -/
theorem perm (hblocks : blocks.Perm blocks') (hlocks : locks.Perm locks') :
    Loans L dirs mm₀ blocks' locks' mm v := by
  refine h.relend (Same.refl mm) (fun i => ?_) ?_ (fun rest hlive => ?_) ?_ ?_ ?_
  · rw [h.locks_eq_true, hlocks.mem_iff]
  · rw [← hlocks.mem_iff]
    exact h.lock_not_mem
  · exact hlive.trans ((hblocks.append_right _).append_left _)
  · exact fun x hx => h.named x (hblocks.mem_iff.mpr hx)
  · exact hlocks.nodup_iff.mp h.nodup
  · exact fun i hi => h.free i (hlocks.mem_iff.mpr hi)

/-- A block is lent. -/
theorem kmalloc (hx : mm.kmalloc.1 ≠ 0) :
    Loans L dirs mm₀ (mm.kmalloc.1 :: blocks) locks mm.kmalloc.2 v := by
  have hname : mm.kmalloc.1 = mm.kheap.calls + 1 := Arena.kmalloc_name hx
  have hcalls : mm.kmalloc.2.kheap.calls = mm.kheap.calls + 1 := mm.kheap.kmalloc_calls
  refine h.relend (same_kmalloc mm) (fun i => h.locks_eq_true) h.lock_not_mem (fun rest hlive => ?_)
    (fun y hy => ?_) h.nodup h.free
  · rw [kmalloc_live hx]
    exact (hlive.cons _).trans List.perm_middle.symm
  · rcases List.mem_cons.mp hy with rfl | hy
    · exact (hname.trans hcalls.symm).le
    · exact (h.named y hy).trans (same_kmalloc mm).calls

/-- A request that the heap refuses. -/
theorem kmalloc_zero (hx : mm.kmalloc.1 = 0) :
    Loans L dirs mm₀ blocks locks mm.kmalloc.2 v := by
  refine h.relend (same_kmalloc mm) (fun i => h.locks_eq_true) h.lock_not_mem (fun rest hlive => ?_)
    (fun y hy => (h.named y hy).trans (same_kmalloc mm).calls) h.nodup h.free
  rwa [kmalloc_live_of_zero hx]

end

/-- A block goes back. -/
theorem kfree (h : Loans L dirs mm₀ (x :: blocks) locks mm v) :
    Loans L dirs mm₀ blocks locks (mm.kfree x) v := by
  refine h.relend (same_kfree mm x) (fun i => h.locks_eq_true) h.lock_not_mem (fun rest hlive => ?_)
    (fun y hy => h.named y (List.mem_cons_of_mem x hy)) h.nodup h.free
  have herase := (hlive.trans List.perm_middle).erase x
  rwa [List.erase_cons_head] at herase

/-- A lock is lent. -/
theorem spinlockAlloc (h : Loans L dirs mm₀ blocks locks mm v)
    (hi : mm.spinlockAlloc = (some i, mm')) : Loans L dirs mm₀ blocks (i :: locks) mm' v := by
  obtain ⟨hfree, rfl⟩ := spinlockAlloc_some hi
  have hnot : ¬(i = v.lock ∨ i ∈ locks ∨ mm₀.locks i = true) := by
    rw [← h.locks_eq_true, hfree]
    exact Bool.false_ne_true
  push Not at hnot
  obtain ⟨hne, hnew, hold⟩ := hnot
  refine h.relend ⟨rfl, rfl, Nat.le_refl _⟩ (fun j => ?_) ?_ (fun rest hlive => hlive) h.named
    (List.nodup_cons.mpr ⟨hnew, h.nodup⟩) ?_
  · grind [h.locks_eq_true]
  · grind [h.lock_not_mem]
  · grind [h.free]

/-- A lock goes back. -/
theorem spinlockRelease (h : Loans L dirs mm₀ blocks (i :: locks) mm v) :
    Loans L dirs mm₀ blocks locks (mm.spinlockRelease i) v := by
  obtain ⟨hnew, hnodup⟩ := List.nodup_cons.mp h.nodup
  obtain ⟨hne, hlock⟩ := not_or.mp (mt List.mem_cons.mpr h.lock_not_mem)
  refine h.relend (same_spinlockRelease mm i) (fun j => ?_) hlock (fun rest hlive => hlive) h.named
    hnodup (fun j hj => h.free j (List.mem_cons_of_mem i hj))
  by_cases hj : j = i
  · subst hj
    have hold : mm₀.locks j = false := h.free j List.mem_cons_self
    have hne' : j ≠ v.lock := fun heq => hne heq.symm
    change Function.update mm.locks j false j = true ↔ _
    simp [hnew, hold, hne']
  · change Function.update mm.locks i false j = true ↔ _
    rw [Function.update_of_ne hj, h.locks_eq_true, List.mem_cons, or_iff_right hj]

/-! ## The address space -/

/-- An operation that hands no blocks over. -/
theorem effect {e : Event} {v' : Vcb} (h : Loans L dirs mm₀ blocks locks mm v)
    (hkeeps : Keeps L mm v mm' v') (he : Effect L dirs e mm v.proc mm' v'.proc)
    (hremove : ∀ r, e = .remove r → r.ownPhys = false) (hhanded : e.handed = none) :
    Loans L dirs mm₀ blocks locks mm' v' := by
  have hacct : Open L (mm₀.lend blocks locks) ([] ++ e.handed.toList) mm' v'.proc :=
    h.acct.step hkeeps he hremove
  rw [hhanded] at hacct
  exact ⟨(he.steps h.ok h.sound).ok, he.sound h.ok h.sound, hacct,
    fun x hx => (h.named x hx).trans he.calls, h.nodup, h.free⟩

end Loans

/-- The page that `vmm_alloc_pages` would choose for a stack lies below the user's limit and gets no
table that is lost. -/
def StackFits (L : Layout) (mm : Resources) (v : Vcb) : Prop :=
  ∀ va, chooseVa mm.fuel v userAnonBase (allocFits 1) 4096 = some va →
    va + 4096 ≤ userSpaceTop ∧ Clear L mm.paging (va / 2 ^ 22)

theorem StackFits.placeable (h : StackFits L mm v) {flags : Nat} {r : VmmRegion}
    (hr : AllocTries mm v.proc 1 flags r) : Placeable L mm r := by
  have hsize : r.size = 4096 := hr.size
  obtain ⟨hle, hclear⟩ := h r.startVa hr.chosen
  refine ⟨hsize ▸ hle, fun q hq => ?_⟩
  -- the region is one page
  obtain ⟨h₁, h₂⟩ := hq
  have hq : q / 1024 = r.startVa / 2 ^ 22 := by omega
  rwa [hq]

namespace Loans

variable (h : Loans L dirs mm₀ blocks locks mm v)

include h

theorem allocStack (hfits : StackFits L mm v) (flags : Nat) :
    Loans L dirs mm₀ blocks locks (vmmAllocPages L mm v 1 flags).2.1
      (vmmAllocPages L mm v 1 flags).2.2 := by
  have hkeeps : Keeps L mm v (vmmAllocPages L mm v 1 flags).2.1
    (vmmAllocPages L mm v 1 flags).2.2 :=
    vmmAllocPages_keeps h.sound h.ok fun r hr => hfits.placeable hr
  rcases vmmAllocPages_cases h.ok h.sound 1 flags fun r hr _ => by
      have hle := (hfits.placeable hr).1
      unfold userSpaceTop at hle
      omega with ⟨-, he⟩ | ⟨r, -, ⟨-, he⟩ | ⟨-, -, he⟩⟩
  · exact h.effect hkeeps he (fun r hr => nomatch hr) rfl
  · exact h.effect hkeeps he (fun r hr => nomatch hr) rfl
  · exact h.effect hkeeps he (fun r hr => nomatch hr) rfl

theorem freePages (va : Nat) :
    Loans L dirs mm₀ blocks locks (vmmFreePages mm v va).1 (vmmFreePages mm v va).2 := by
  have hkeeps : Keeps L mm v (vmmFreePages mm v va).1 (vmmFreePages mm v va).2 :=
    vmmFreePages_keeps h.sound h.ok va
  rcases vmmFreePages_detach h.ok h.sound va with he | ⟨r, -, -, hown, he⟩
  · exact h.effect hkeeps he (fun r hr => nomatch hr) rfl
  · rw [if_pos hown] at he
    exact h.effect hkeeps he (fun r hr => nomatch hr) rfl

/-- What is still on loan is all that destruction leaves behind. -/
theorem destroy :
    (∀ b < mm₀.pmm.totalBlocks, (vmmDestroy L mm v).pmm.bitmapTest b = mm₀.pmm.bitmapTest b) ∧
      (vmmDestroy L mm v).paging.poolUsed = mm₀.paging.poolUsed ∧
      (vmmDestroy L mm v).locks = (mm₀.lend blocks locks).locks ∧
      (vmmDestroy L mm v).kheap.live.Perm (blocks ++ mm₀.kheap.live) := by
  obtain ⟨hbits, hpool, hlocks, hlive⟩ := h.acct.destroy h.ok h.sound
  refine ⟨fun b hb => (hbits b hb).trans ?_, hpool, hlocks, hlive⟩
  simp [stays, Resources.lend]

end Loans

/-- A new address space, made when some blocks and locks are already on loan. -/
theorem vmmCreate_loans {mm₁ : Resources} (hm : mm₀.Ok L dirs) (hs : Same mm₀ mm)
    (hlive : mm.kheap.live.Perm (blocks ++ mm₀.kheap.live))
    (hlocks : mm.locks = (mm₀.lend blocks locks).locks) (hnamed : ∀ x ∈ blocks, x ≤ mm.kheap.calls)
    (hnodup : locks.Nodup) (hfree : ∀ i ∈ locks, mm₀.locks i = false)
    (h : vmmCreate L mm = (.ok v, mm₁)) :
    Loans L (insert v.dir dirs) mm₀ blocks locks mm₁ v ∧ v.regions mm₁.fuel = [] ∧
      (∀ i, Clear L mm₀.paging i → Clear L mm₁.paging i) := by
  have hm' : mm.Ok L dirs := ⟨hs.paging ▸ hm.paging, hs.pmm ▸ hm.pmm⟩
  have hfresh : FreshSpace L dirs mm mm₁ v := by grind [vmmCreate_cases, hm'.paging]
  have hopens := vmmCreate_opens hm' h
  have hacct : Open L mm [] mm₁ v.proc := hopens.toOpen (p := v.proc) hfresh
  refine ⟨⟨hfresh.ok hm', hfresh.sound (p := v.proc) v.proc_caps, ?_, ?_, hnodup, hfree⟩,
    hfresh.regions, fun i hclear j hj hunused => ?_⟩
  · refine hacct.base hs.pmm.symm ?_ hlive hlocks.symm
    exact congrArg Paging.poolUsed hs.paging.symm
  · exact fun x hx => (hnamed x hx).trans hfresh.calls
  · -- a slot that is free now was free before
    have htable : mm₁.paging.table L.master = mm₀.paging.table L.master :=
      (hfresh.paging.table _ hm'.paging.master_mem).trans (by rw [hs.paging])
    rw [htable]
    refine hclear j hj (eq_false_of_ne_true fun hused => ?_)
    have hstill := (hopens.pool.used j).mpr (Or.inl (hs.paging ▸ hused))
    rw [hunused] at hstill
    cases hstill

end Ukernel.Mm
