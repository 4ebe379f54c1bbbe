import Ukernel.Kernel.Capability
import Ukernel.Mm.Region

/-!
# Address spaces

`kernel/mm/vmm.c`. Every function takes the resources and the address space, or the process whose
address space it is, and returns them with its answer.

The pointers that the functions test against null are set in every live process, and so is the lock
of an address space; the tests are left out.

## Main definitions

* `Pcb`: a process, as far as the memory management knows it
* `vmmCreate`, `vmmDestroy`: address spaces
* `vmmAllocPages`, `vmmFreePages`: pages of their own
* `vmmMapMemory`, `vmmUnmapMemory`, `vmmMapFixed`, `vmmUnmapFixed`: pages by capability
* `vmmLookupRegion`, `vmmVaToPa`: queries
-/

namespace Ukernel.Mm

open Arch Kernel Lib Lib.RbTree Machine

/-- `proc_priv` and `task_priv`. -/
inductive Priv where
  | kernel
  | user
  deriving DecidableEq, Repr

/-- `tcb`, with the stack and the privilege of its context. -/
structure Tcb where
  addr : Nat
  tid : Nat
  stack : Nat
  ring : Priv
  spLock : Nat

/-- `pcb`. -/
structure Pcb where
  addr : Nat
  priv : Priv
  spLock : Nat
  capLock : Nat
  vcb : Vcb
  capabilities : List Capability
  tcbs : List Tcb

/-- Replace the address space. -/
def Pcb.withVcb (p : Pcb) (vcb : Vcb) : Pcb := { p with vcb }

/-- Replace the capabilities. -/
def Pcb.withCapabilities (p : Pcb) (capabilities : List Capability) : Pcb := { p with capabilities }

/-- A process with the given privilege and capabilities, and nothing else. -/
def Pcb.bare (priv : Priv) (capabilities : List Capability) : Pcb where
  addr := 0
  priv := priv
  spLock := 0
  capLock := 0
  vcb := ⟨⟨fun _ => ⟨.black, 0, 0, 0⟩, 0, 0⟩, 0, fun _ => ⟨0, 0, 0, 0, false⟩, 0, 0⟩
  capabilities := capabilities
  tcbs := []

/-- Enough fuel for every loop over a tree: more than the heap has handed out blocks. -/
def Resources.fuel (mm : Resources) : Nat := mm.kheap.calls + 1

/-- `pmm_free_pages`. -/
def Resources.pmmFreePages (mm : Resources) (paddr n : Nat) : Resources :=
  mm.withPmm (mm.pmm.pmmFreePages paddr n)

/-- The loop that unmaps the pages of a region. -/
def Resources.unmapRegion (mm : Resources) (cr3 : Nat) (r : VmmRegion) : Resources :=
  mm.withPaging (unmapPages mm.paging cr3 r.startVa (r.size / 4096))

/-! ## Address spaces -/

/-- `rbtree_create`. -/
def treeCreate (mm : Resources) : Option (Nat × RbTree) × Resources :=
  let (tree, mm) := mm.kmalloc
  if tree = 0 then (none, mm)
  else
    let (nil, mm) := mm.kmalloc
    if nil = 0 then (none, mm.kfree tree)
    else (some (tree, rbtreeCreate (fun _ => ⟨.red, 0, 0, 0⟩) nil), mm)

/-- `rbtree_destroy`. -/
def treeDestroy (mm : Resources) (addr : Nat) (tree : RbTree) : Resources :=
  (mm.kfree tree.nil).kfree addr

/-- `vmm_create`. -/
def vmmCreate (L : Layout) (mm : Resources) : Except Int Vcb × Resources :=
  match mm.spinlockAlloc with
  | (none, mm) => (.error eNomem, mm)
  | (some lock, mm) =>
    match treeCreate mm with
    | (none, mm) => (.error eNomem, mm.spinlockRelease lock)
    | (some (addr, tree), mm) =>
      let (pa, pg) := archPagingPoolAlloc L mm.paging
      let mm := mm.withPaging pg
      if pa = 0 then (.error eNomem, (treeDestroy mm addr tree).spinlockRelease lock)
      else
        let (cr3, pg) := archCloneKernelPde mm.paging pa
        let mm := mm.withPaging pg
        if cr3 = 0 then
          let mm := mm.withPaging (archPagingPoolFree L mm.paging pa)
          (.error eNomem, (treeDestroy mm addr tree).spinlockRelease lock)
        else (.ok ⟨tree, addr, fun _ => ⟨0, 0, 0, 0, false⟩, cr3, lock⟩, mm)

/-- The body of the loop of `vmm_destroy`. -/
def destroyRegion (mm : Resources) (v : Vcb) (pos : Nat) : Resources × Vcb :=
  let r := v.region pos
  let mm := mm.unmapRegion v.cr3 r
  let mm := if r.ownPhys then mm.pmmFreePages r.pa (r.size / 4096) else mm
  (mm.kfree pos, v.delete mm.fuel pos)

/-- The loop of `vmm_destroy`; `n` is the node after `pos`, found before `pos` goes. -/
def destroyLoop : (steps : Nat) → Resources → Vcb → (pos n : Nat) → Option (Resources × Vcb)
  | 0, _, _, _, _ => none
  | steps + 1, mm, v, pos, n =>
    if pos = 0 then some (mm, v)
    else
      let (mm, v) := destroyRegion mm v pos
      destroyLoop steps mm v n (if n = 0 then 0 else (rbtreeNext mm.fuel v.tree n).getD 0)

/-- `vmm_destroy`. -/
def vmmDestroy (L : Layout) (mm : Resources) (v : Vcb) : Resources :=
  let pos := (rbtreeFirst mm.fuel v.tree).getD 0
  let n := if pos = 0 then 0 else (rbtreeNext mm.fuel v.tree pos).getD 0
  let (mm, v) := (destroyLoop mm.fuel mm v pos n).getD (mm, v)
  let mm := treeDestroy mm v.treeAddr v.tree
  let pg := archDestroyAddressSpace L mm.paging v.cr3
  let mm := mm.withPaging (archPagingPoolFree L pg v.cr3)
  mm.spinlockRelease v.lock

/-! ## Placing a region -/

/-- The loop that looks for a gap of `size` bytes behind one of the regions; `fits` is the test for
an overflow of the caller. -/
def gapSearch (fits : Nat → Bool) (size : Nat) : List VmmRegion → Option Nat
  | [] => none
  | [cur] =>
    if cur.startVa > 0xffffffff - cur.size then none
    else
      let va := pageAlign cur.limit
      if va = 0 || !fits va then none else some va
  | cur :: next :: rest =>
    let va := pageAlign cur.limit
    if !fits va then none
    else if (va + size) % 2 ^ 32 ≤ next.startVa then some va
    else gapSearch fits size (next :: rest)

/-- Choose an address: `first` in an empty tree. -/
def chooseVa (fuel : Nat) (v : Vcb) (first : Nat) (fits : Nat → Bool) (size : Nat) : Option Nat :=
  if v.tree.root = v.tree.nil then some first else gapSearch fits size (v.regions fuel)

/-- Insert a region and map its pages; the region goes again where that fails. -/
def placeRegion (L : Layout) (mm : Resources) (v : Vcb) (node : Nat) (r : VmmRegion) :
    Bool × Resources × Vcb :=
  let v := v.insert mm.fuel node r
  let (ok, pg) := mapPages L mm.paging v.cr3 r.startVa r.pa (r.size / 4096) r.flags
  let mm := mm.withPaging pg
  if ok then (true, mm, v) else (false, mm, v.delete mm.fuel node)

/-- The test of `vmm_alloc_pages` for an overflow. -/
def allocFits (pageCnt va : Nat) : Bool := decide (pageCnt ≤ (0xffffffff - va) / 4096)

/-- The test of `vmm_mmap_reserve` for an overflow. -/
def reserveFits (size va : Nat) : Bool := decide (size ≤ 0xffffffff - va)

/-- `vmm_alloc_pages`. -/
def vmmAllocPages (L : Layout) (mm : Resources) (v : Vcb) (pageCnt flags : Nat) :
    Nat × Resources × Vcb :=
  if pageCnt = 0 then (0, mm, v)
  else
    let (pa, pmm) := mm.pmm.pmmAllocPages pageCnt
    let mm := mm.withPmm pmm
    if pa = 0 then (0, mm, v)
    else
      let (node, mm) := mm.kmalloc
      if node = 0 then (0, mm.pmmFreePages pa pageCnt, v)
      else
        match chooseVa mm.fuel v userAnonBase (allocFits pageCnt) (pageCnt * 4096 % 2 ^ 32) with
        | none => (0, (mm.pmmFreePages pa pageCnt).kfree node, v)
        | some va =>
          match placeRegion L mm v node ⟨va, pageCnt * 4096 % 2 ^ 32, flags, pa, true⟩ with
          | (true, mm, v) => (va, mm, v)
          | (false, mm, v) => (0, (mm.pmmFreePages pa pageCnt).kfree node, v)

/-- `vmm_free_pages`. -/
def vmmFreePages (mm : Resources) (v : Vcb) (va : Nat) : Resources × Vcb :=
  match v.find mm.fuel fun r => r.contains va && r.ownPhys with
  | none => (mm, v)
  | some node =>
    let r := v.region node
    let mm := mm.unmapRegion v.cr3 r
    let mm := mm.pmmFreePages r.pa (r.size / 4096)
    (mm.kfree node, v.delete mm.fuel node)

/-- `vmm_mmap_reserve`. The heap clears its blocks, so that `own_phys` is 0. -/
def vmmMmapReserve (mm : Resources) (v : Vcb) (pa size flags : Nat) :
    Option Nat × Resources × Vcb :=
  match chooseVa mm.fuel v pa (reserveFits size) size with
  | none => (none, mm, v)
  | some va =>
    let (node, mm) := mm.kmalloc
    if node = 0 then (none, mm, v)
    else (some va, mm, v.insert mm.fuel node ⟨va, size, flags, pa, false⟩)

/-- `vmm_mmap_release`: the region that has been released, no result standing for `EINVAL`. -/
def vmmMmapRelease (mm : Resources) (v : Vcb) (va size : Nat) :
    Option VmmRegion × Resources × Vcb :=
  match v.find mm.fuel fun r => !r.ownPhys && r.contains va with
  | none => (none, mm, v)
  | some node =>
    let r := v.region node
    if size > r.size ∨ (va + size) % 2 ^ 32 < va ∨ (va + size) % 2 ^ 32 > r.limit then (none, mm, v)
    else (some r, mm.kfree node, v.delete mm.fuel node)

/-- `vmm_lookup_region`: the region whose range and start are the answer. -/
def vmmLookupRegion (mm : Resources) (v : Vcb) (va : Nat) : Option VmmRegion :=
  (v.find mm.fuel fun r => r.contains va).map v.region

/-! ## Mapping by capability -/

/-- `VMM_ERR_PTR`. -/
def vmmErrPtr (err : Int) : Nat := (err % 2 ^ 32).toNat

/-- `VMM_IS_ERR`. -/
def vmmIsErr (ptr : Nat) : Bool := decide (2 ^ 32 - 4095 ≤ ptr)

/-- `vmm_map_memory`. -/
def vmmMapMemory (L : Layout) (mm : Resources) (proc : Pcb) (physAddr size flags : Nat) :
    Nat × Resources × Pcb :=
  let alignedPa := pageMask physAddr
  let offset := physAddr - alignedPa
  if capCheck proc.capabilities (.mapMem ⟨physAddr, size, flags⟩) ≠ 0 then
    (vmmErrPtr ePerm, mm, proc)
  else if size = 0 ∨ size > 0xffffffff - offset - 4095 then (vmmErrPtr eInval, mm, proc)
  else
    let alignedSz := pageMask (size + offset + 4095)
    match vmmMmapReserve mm proc.vcb alignedPa alignedSz flags with
    | (none, mm, v) => (vmmErrPtr eNomem, mm, proc.withVcb v)
    | (some va, mm, v) =>
      let (ok, pg) := mapPages L mm.paging v.cr3 va alignedPa (alignedSz / 4096) flags
      let mm := mm.withPaging pg
      if ok then ((va + offset) % 2 ^ 32, mm, proc.withVcb v)
      else
        let (_, mm, v) := vmmMmapRelease mm v va 0
        (vmmErrPtr eNomem, mm, proc.withVcb v)

/-- `vmm_map_fixed`. -/
def vmmMapFixed (L : Layout) (mm : Resources) (proc : Pcb) (physAddr vaddr size flags : Nat)
    (ownPhys : Bool) : Int × Resources × Pcb :=
  if physAddr % 4096 ≠ 0 ∨ vaddr % 4096 ≠ 0 then (eInval, mm, proc)
  else if size = 0 ∨ size % 4096 ≠ 0 then (eInval, mm, proc)
  else if capCheck proc.capabilities (.mapMem ⟨physAddr, size, flags⟩) ≠ 0 then (ePerm, mm, proc)
  else
    let (node, mm) := mm.kmalloc
    if node = 0 then (eNomem, mm, proc)
    else
      let overlaps (r : VmmRegion) :=
        decide (vaddr < r.limit) && decide (r.startVa < (vaddr + size) % 2 ^ 32)
      match proc.vcb.find mm.fuel overlaps with
      | some _ => (eExists, mm.kfree node, proc)
      | none =>
        match placeRegion L mm proc.vcb node ⟨vaddr, size, flags, physAddr, ownPhys⟩ with
        | (true, mm, v) => (0, mm, proc.withVcb v)
        | (false, mm, v) => (eLimit, mm.kfree node, proc.withVcb v)

/-- `vmm_unmap_memory`. -/
def vmmUnmapMemory (mm : Resources) (proc : Pcb) (virtAddr size : Nat) : Int × Resources × Pcb :=
  match vmmLookupRegion mm proc.vcb virtAddr with
  | none => (eNotfound, mm, proc)
  | some r =>
    if capCheck proc.capabilities (.mapMem ⟨r.pa, r.size, 0⟩) ≠ 0 then (ePerm, mm, proc)
    else
      match vmmMmapRelease mm proc.vcb virtAddr size with
      | (none, mm, v) => (eInval, mm, proc.withVcb v)
      | (some r, mm, v) => (0, mm.unmapRegion v.cr3 r, proc.withVcb v)

/-- `vmm_unmap_fixed`. -/
def vmmUnmapFixed (mm : Resources) (proc : Pcb) (vaddr size : Nat) : Int × Resources × Pcb :=
  match vmmLookupRegion mm proc.vcb vaddr with
  | none => (eNotfound, mm, proc)
  | some r =>
    if capCheck proc.capabilities (.mapMem ⟨r.pa, r.size, 0⟩) ≠ 0 then (ePerm, mm, proc)
    else
      match proc.vcb.find mm.fuel fun r => r.contains vaddr with
      | none => (eNotfound, mm, proc)
      | some node =>
        let r := proc.vcb.region node
        if size > r.size ∨ (vaddr + size) % 2 ^ 32 < vaddr ∨ (vaddr + size) % 2 ^ 32 > r.limit then
          (eInval, mm, proc)
        else
          let v := proc.vcb.delete mm.fuel node
          let mm := (mm.kfree node).unmapRegion v.cr3 r
          let mm := if r.ownPhys then mm.pmmFreePages r.pa (r.size / 4096) else mm
          (0, mm, proc.withVcb v)

/-- `vmm_vcb_va_to_pa`. -/
def vmmVcbVaToPa (mm : Resources) (v : Vcb) (va : Nat) : Nat :=
  let node := (rbtreeSearch (vmmRbtreeKeyCmp v.region va) v.tree mm.fuel v.tree.root).getD 0
  if node = 0 then 0 else ((v.region node).pa + (va - (v.region node).startVa)) % 2 ^ 32

/-- `vmm_va_to_pa`. -/
def vmmVaToPa (mm : Resources) (proc : Pcb) (va : Nat) : Nat := vmmVcbVaToPa mm proc.vcb va

end Ukernel.Mm
