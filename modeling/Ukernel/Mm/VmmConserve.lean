import Ukernel.Arch.PagingInit
import Ukernel.Mm.VmmBooks

/-!
# Whole lives of address spaces

From creation through any sequence of operations to destruction an address space gives back what it
took: the blocks of physical memory, the slots of the pool, the lock and the blocks of the heap.

The one exception is a table that splits a 4 MB entry of the kernel and lies at the address in this
entry. Wherever the pool lies in the identity map, two of its 2048 slots can become such tables.

## Main results

* `address_space_conserves`: creation, any operations and destruction leave nothing behind
* `split_table_lost`: a table is lost
-/

namespace Ukernel.Mm

open Arch Kernel Lib Lib.RbTree Machine VmmRegion Resources

variable {L : Layout} {dirs : Set Nat} {mm : Resources} {p : Pcb}

namespace VmmOp

/-- The region that the operation puts into the tree lies below the user's limit. -/
def Below (mm : Resources) (p : Pcb) (op : VmmOp) : Prop :=
  ∀ r, op.Tries mm p r → r.startVa + r.size ≤ userSpaceTop

/-- The blocks handed over are not those that the physical memory manager keeps for itself, and no
free slot of the pool has the address of a 4 MB entry of the kernel that the region may split. -/
def Harmless (L : Layout) (mm : Resources) (p : Pcb) (op : VmmOp) : Prop :=
  ∀ r, op.Tries mm p r → (r.ownPhys = true → mm.pmm.reserveBlocks ≤ r.pa / 4096) ∧
    ∀ q, r.HasPage q → Clear L mm.paging (q / 1024)

theorem Below.admits {op : VmmOp} (h : op.Below mm p) (h' : op.Harmless L mm p) :
    op.Admits mm p := by
  intro r hr
  have hle := h r hr
  unfold userSpaceTop at hle
  exact ⟨by omega, (h' r hr).1⟩

end VmmOp

/-- Creation, any operations and destruction leave the bitmap of the physical memory manager, the
pool, the locks and the heap as they were, except that blocks handed over are free. -/
theorem address_space_conserves {mm₁ : Resources} {ops : List VmmOp} (hm : mm.Ok L dirs)
    (hcreate : vmmCreate L mm = (.ok p.vcb, mm₁))
    (hcaps : ∀ e ∈ p.capabilities, e.cap.Mem CapMem.Ok)
    (hbelow : VmmOp.Along L VmmOp.Below ops mm₁ p)
    (hharmless : VmmOp.Along L (VmmOp.Harmless L) ops mm₁ p) :
    let s := VmmOp.runs L ops (mm₁, p)
    let mm₂ := vmmDestroy L s.1 s.2.vcb
    (∀ b < mm.pmm.totalBlocks, mm₂.pmm.bitmapTest b =
      (mm.pmm.bitmapTest b && !(VmmOp.handedOver L ops mm₁ p).any fun r =>
        decide (r.HasBlock b))) ∧
      mm₂.paging.poolUsed = mm.paging.poolUsed ∧ mm₂.locks = mm.locks ∧
      mm₂.kheap.live.Perm mm.kheap.live := by
  intro s mm₂
  have hfresh : FreshSpace L dirs mm mm₁ p.vcb := by grind [vmmCreate_cases, hm.paging]
  -- what is still to be handed over follows what has been handed over
  let I (ops' : List VmmOp) (mm' : Resources) (p' : Pcb) : Prop :=
    mm'.Ok L (insert p.vcb.dir dirs) ∧ p'.Sound L (insert p.vcb.dir dirs) mm' ∧
      ∃ handed, Open L mm handed mm' p' ∧
        handed ++ VmmOp.handedOver L ops' mm' p' = VmmOp.handedOver L ops mm₁ p
  have hstep (op : VmmOp) (ops' : List VmmOp) (mm' : Resources) (p' : Pcb)
      (hop : op.Below mm' p' ∧ op.Harmless L mm' p') (hi : I (op :: ops') mm' p') :
      I ops' (op.exec L mm' p').1 (op.exec L mm' p').2 := by
    obtain ⟨hm', hp', handed, hopen, heq⟩ := hi
    obtain ⟨e, hmakes⟩ := VmmOp.exec_effect hm' hp' (hop.1.admits hop.2)
    have hkeeps := VmmOp.exec_keeps hp' hm' fun r hr => ⟨hop.1 r hr, (hop.2 r hr).2⟩
    refine ⟨(hmakes.effect.steps hm' hp').ok, hmakes.effect.sound hm' hp',
      handed ++ e.handed.toList, hopen.step hkeeps hmakes.effect hmakes.removed, ?_⟩
    rw [← heq, ← hmakes.handed, List.append_assoc]
    rfl
  obtain ⟨hm₂, hp₂, handed, hopen, heq⟩ := VmmOp.Along.run (I := I) hstep (hbelow.and hharmless)
    ⟨hfresh.ok hm, hfresh.sound hcaps, [], (vmmCreate_opens hm hcreate).toOpen hfresh, rfl⟩
  rw [← heq]
  have hclosed := hopen.destroy hm₂ hp₂
  rwa [show VmmOp.handedOver L [] s.1 s.2 = [] from rfl, List.append_nil]

/-! ## Two lives -/

/-- A machine with 64 MB in which the first `n` slots of the pool are in use. -/
def crowded (n : Nat) : Resources where
  pmm := bootPmm .documented (fun _ => 0) [] 0x4000000
  paging := buildMaster .documented ⟨fun _ _ => .zero, fun j => decide (j < n), true, 0⟩ 0x4000000
  kheap := ⟨fun _ => false, 0, []⟩
  locks := fun _ => false

theorem crowded_ok (n : Nat) : (crowded n).Ok .documented {Layout.documented.master} :=
  ⟨buildMaster_wf rfl (by decide), (bootPmm_ready _ _ (by decide)).1⟩

/-- A user process that may map the page at 32 MB. -/
def mapper (v : Vcb) : Pcb :=
  (Pcb.bare .user [⟨0, .mapMem ⟨0x02000000, 0x1000, pteUserPage⟩⟩]).withVcb v

theorem mapper_caps (v : Vcb) : ∀ e ∈ (mapper v).capabilities, e.cap.Mem CapMem.Ok := by
  intro e he m hm
  rw [List.mem_singleton.mp he] at hm
  cases hm
  constructor <;> decide

/-- The page at 32 MB is handed over to the space at `va`. -/
def handPage (va : Nat) : VmmOp := .mapFixed 0x02000000 va 0x1000 pteUserPage true

theorem handPage_below {va : Nat} (hva : va + 0x1000 ≤ userSpaceTop) (mm : Resources) (p : Pcb) :
    (handPage va).Below mm p := by
  rintro r ⟨-, rfl⟩
  exact hva

/-- Something is true of what `vmm_create` makes in a machine. -/
def createdOn (mm : Resources) (f : Vcb → Resources → Bool) : Bool :=
  match vmmCreate .documented mm with
  | (.ok v, mm) => f v mm
  | (.error _, _) => false

theorem exists_of_createdOn (mm : Resources) {f : Vcb → Resources → Bool}
    (h : createdOn mm f = true) :
    ∃ v mm₁, vmmCreate .documented mm = (.ok v, mm₁) ∧ f v mm₁ = true := by
  unfold createdOn at h
  split at h
  · exact ⟨_, _, by assumption, h⟩
  · cases h

/-- Something is true of what `vmm_create` makes in a crowded machine. -/
def created (n : Nat) (f : Vcb → Resources → Bool) : Bool :=
  match vmmCreate .documented (crowded n) with
  | (.ok v, mm) => f v mm
  | (.error _, _) => false

theorem exists_of_created {n : Nat} {f : Vcb → Resources → Bool} (h : created n f = true) :
    ∃ v mm₁, vmmCreate .documented (crowded n) = (.ok v, mm₁) ∧ f v mm₁ = true :=
  exists_of_createdOn _ h

/-- Above the user heap no table can be lost. -/
theorem address_space_conserves_handPage : ∃ v mm₁,
    vmmCreate .documented (crowded 4) = (.ok v, mm₁) ∧
    let s := VmmOp.runs .documented [handPage userHeapEnd] (mm₁, mapper v)
    let mm₂ := vmmDestroy .documented s.1 s.2.vcb
    mm₂.pmm.bitmapTest 0x2000 = false ∧ mm₂.paging.poolUsed = (crowded 4).paging.poolUsed ∧
      mm₂.locks = (crowded 4).locks ∧ mm₂.kheap.live.Perm (crowded 4).kheap.live := by
  obtain ⟨v, mm₁, hcreate, hf⟩ := exists_of_created (n := 4) (f := fun v mm₁ =>
    decide (mm₁.pmm.reserveBlocks ≤ 0x2000) &&
    decide ((mm₁.paging.table Layout.documented.master 772).paddr = 0) &&
    decide ((handPage userHeapEnd).handsOver .documented mm₁ (mapper v) =
      some ⟨userHeapEnd, 0x1000, pteUserPage, 0x02000000, true⟩)) (by decide +kernel)
  simp only [Bool.and_eq_true, decide_eq_true_eq] at hf
  obtain ⟨⟨hres, hzero⟩, hhanded⟩ := hf
  -- the kernel has no entry here, and no slot has the address 0
  have hharmless : (handPage userHeapEnd).Harmless .documented mm₁ (mapper v) := by
    rintro r ⟨-, rfl⟩
    refine ⟨fun _ => hres, fun q hq j _ _ => ?_⟩
    obtain rfl : q = 772 * 1024 := by
      have h₁ := hq.1
      have h₂ := hq.2
      unfold userHeapEnd at h₁ h₂
      dsimp only at h₁ h₂
      omega
    rw [hzero]
    exact Nat.ne_of_gt (poolFrame_pos _ j)
  have hbelow : VmmOp.Along .documented VmmOp.Below [handPage userHeapEnd] mm₁ (mapper v) :=
    ⟨handPage_below (by decide) _ _, trivial⟩
  have hall := address_space_conserves (p := mapper v) (crowded_ok 4) hcreate (mapper_caps v)
    hbelow ⟨hharmless, trivial⟩
  refine ⟨v, mm₁, hcreate, (hall.1 0x2000 (by decide +kernel)).trans ?_, hall.2⟩
  rw [VmmOp.handedOver, hhanded]
  exact Bool.and_false _

/-- The end of the loop of `vmm_destroy`. -/
def emptied (mm : Resources) (v : Vcb) : Resources × Vcb :=
  let pos := (rbtreeFirst mm.fuel v.tree).getD 0
  let n := if pos = 0 then 0 else (rbtreeNext mm.fuel v.tree pos).getD 0
  (destroyLoop mm.fuel mm v pos n).getD (mm, v)

theorem vmmDestroy_paging_of_alike {mm : Resources} {v : Vcb}
    (h : ∀ i < userSpaceTop / 2 ^ 22,
      ((emptied mm v).1.paging.table ((emptied mm v).2.cr3 / 4096) i).paddr =
        ((emptied mm v).1.paging.table ((emptied mm v).1.paging.kernelPdirPhys / 4096) i).paddr) :
    (vmmDestroy L mm v).paging =
      archPagingPoolFree L (emptied mm v).1.paging (emptied mm v).2.cr3 := by
  have hsweep := archDestroyAddressSpace_of_alike (L := L) h
  change archPagingPoolFree L (archDestroyAddressSpace L (emptied mm v).1.paging
    (emptied mm v).2.cr3) (emptied mm v).2.cr3 = _
  rw [hsweep]

/-- The directory takes the last slot before the one at 20 MB, and the table that splits the 4 MB
entry for 20 MB takes that one: the sweep holds this table for the kernel's. -/
theorem split_table_lost : ∃ v mm₁, vmmCreate .documented (crowded 733) = (.ok v, mm₁) ∧
    VmmOp.Along .documented VmmOp.Below [handPage 0x01400000] mm₁ (mapper v) ∧
    let s := VmmOp.runs .documented [handPage 0x01400000] (mm₁, mapper v)
    let mm₂ := vmmDestroy .documented s.1 s.2.vcb
    (crowded 733).Ok .documented {Layout.documented.master} ∧
      (crowded 733).paging.poolUsed 734 = false ∧ mm₂.paging.poolUsed 734 = true := by
  obtain ⟨v, mm₁, hcreate, hf⟩ := exists_of_created (n := 733) (f := fun v mm₁ =>
    let s := (handPage 0x01400000).exec .documented mm₁ (mapper v)
    let z := emptied s.1 s.2.vcb
    decide (∀ i < userSpaceTop / 2 ^ 22, (z.1.paging.table (z.2.cr3 / 4096) i).paddr =
      (z.1.paging.table (z.1.paging.kernelPdirPhys / 4096) i).paddr) &&
    (archPagingPoolFree .documented z.1.paging z.2.cr3).poolUsed 734) (by decide +kernel)
  rw [Bool.and_eq_true, decide_eq_true_eq] at hf
  refine ⟨v, mm₁, hcreate, ⟨handPage_below (by decide) _ _, trivial⟩, crowded_ok 733,
    by decide +kernel, ?_⟩
  have hpaging := vmmDestroy_paging_of_alike (L := .documented) hf.1
  exact (congrArg (·.poolUsed 734) hpaging).trans hf.2

end Ukernel.Mm
