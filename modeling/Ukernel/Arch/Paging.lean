import Ukernel.Machine.Memory
import Ukernel.Lib.Slots
import Ukernel.Kernel.Errno
import Mathlib.Data.Nat.Bitwise

/-!
# Page directories and page tables

`arch/i386/paging.c`: two-level page tables with 4 MB entries, kept in frames of a pool that the
physical memory manager never hands out. Directories and tables are read and written through their
physical addresses; the model keeps the contents of such frames apart from the rest of memory.

## Main definitions

* `Entry`, `Paging`: directory and table entries; the frames and the pool's slots
* `archPagingPoolAlloc`, `archPagingPoolFree`: the pool
* `split4mbPde`, `archMap4kb`, `archUnmap4kb`, `archMap4mb`: changing a directory
* `archCloneKernelPde`, `archDestroyAddressSpace`: the life of a directory
* `walk`: the translation that the processor finds
-/

namespace Ukernel.Arch

open Kernel Lib

/-- `USER_HEAP_BASE`. -/
def userHeapBase : Nat := 0xC0000000

/-- `USER_HEAP_END`. -/
def userHeapEnd : Nat := 0xC1000000

/-- `USER_ANON_BASE`. -/
def userAnonBase : Nat := 0xD0000000

/-- `USER_SPACE_TOP`. -/
def userSpaceTop : Nat := 0xF0000000

/-- `PTE_KERNEL`: present and writable. -/
def pteKernel : Nat := 3

/-- `PTE_USER_PAGE`: present, writable and open to user mode. -/
def pteUserPage : Nat := 7

/-- `PD_INDEX`. -/
def pdIndex (va : Nat) : Nat := va / 2 ^ 22 % 1024

/-- `PT_INDEX`. -/
def ptIndex (va : Nat) : Nat := va / 2 ^ 12 % 1024

/-- A directory entry or a table entry: `pde` and `pte` name the same bits, except that bit 7 is
`page_size` in the one and `pat` in the other. -/
@[ext] structure Entry where
  present : Bool
  rw : Bool
  user : Bool
  pwt : Bool
  pcd : Bool
  accessed : Bool
  dirty : Bool
  pageSize : Bool
  global : Bool
  avail : Nat
  paddr : Nat
deriving DecidableEq

/-- The entry with `raw = 0`. -/
def Entry.zero : Entry :=
  ⟨false, false, false, false, false, false, false, false, false, 0, 0⟩

/-- The addresses that the linker script fixes. -/
structure Layout where
  /-- The static page directory `pdes`. -/
  pdes : Nat
  /-- `__page_table_base`. -/
  pageTableBase : Nat
  /-- `__pmm_bitmap_start`. -/
  pmmBitmapStart : Nat
  pdes_pos : 0 < pdes
  pdes_aligned : pdes % 4096 = 0
  pageTableBase_aligned : pageTableBase % 4096 = 0
  pdes_below : pdes + 4096 ≤ pageTableBase
  pool_below : pageTableBase + 8 * 1024 * 1024 ≤ pmmBitmapStart
  bitmap_aligned : pmmBitmapStart % 4096 = 0
  bitmap_end : pmmBitmapStart + 128 * 1024 < 2 ^ 32

/-- The memory map of `ukernel.md`, with `pdes` in the page before the pool. -/
def Layout.documented : Layout where
  pdes := 0x01121000
  pageTableBase := 0x01122000
  pmmBitmapStart := 0x01922000
  pdes_pos := by decide
  pdes_aligned := by decide
  pageTableBase_aligned := by decide
  pdes_below := by decide
  pool_below := by decide
  bitmap_aligned := by decide
  bitmap_end := by decide

/-- `VMM_PDE_ALLOC_SIZE`. -/
def vmmPdeAllocSize : Nat := 8 * 1024 * 1024

/-- `PAGING_POOL_SLOTS`. -/
def pagingPoolSlots : Nat := 2048

/-- `__page_table_end`. -/
def Layout.pageTableEnd (L : Layout) : Nat := L.pageTableBase + vmmPdeAllocSize

/-- The contents of the frames that hold directories and tables, by frame number and index, and
the static variables of `paging.c`. -/
structure Paging where
  table : Nat → Nat → Entry
  poolUsed : Nat → Bool
  poolLock : Bool
  kernelPdirPhys : Nat

namespace Paging

/-- Write one entry. -/
def write (pg : Paging) (frame index : Nat) (e : Entry) : Paging :=
  { pg with table := Function.update pg.table frame (Function.update (pg.table frame) index e) }

/-- Fill a frame. -/
def fill (pg : Paging) (frame : Nat) (f : Nat → Entry) : Paging :=
  { pg with table := Function.update pg.table frame f }

/-- Register the kernel's directory. -/
def withKernelPdir (pg : Paging) (pdir : Nat) : Paging := { pg with kernelPdirPhys := pdir }

/-- Mark a slot of the pool. -/
def setSlot (pg : Paging) (i : Nat) (used : Bool) : Paging :=
  { pg with poolUsed := Function.update pg.poolUsed i used }

end Paging

variable (L : Layout)

/-- `arch_paging_pool_alloc`: the address of a zeroed frame, or 0. -/
def archPagingPoolAlloc (pg : Paging) : Nat × Paging :=
  if !pg.poolLock then (0, pg)
  else
    match firstFree pg.poolUsed pagingPoolSlots 0 with
    | some i =>
      let pa := L.pageTableBase + i * 4096
      (pa, (pg.setSlot i true).fill (pa / 4096) fun _ => .zero)
    | none => (0, pg)

/-- `arch_paging_pool_free`. -/
def archPagingPoolFree (pg : Paging) (pa : Nat) : Paging :=
  if !pg.poolLock then pg
  else if pa < L.pageTableBase || L.pageTableEnd ≤ pa then pg
  else pg.setSlot ((pa - L.pageTableBase) / 4096) false

/-- `arch_map_4mb`. -/
def archMap4mb (pg : Paging) (cr3 va pa flags : Nat) : Paging :=
  if cr3 = 0 || va % 0x400000 ≠ 0 || pa % 0x400000 ≠ 0 then pg
  else
    pg.write (cr3 / 4096) (pdIndex va)
      { Entry.zero with
        pageSize := true
        present := flags.testBit 0
        rw := flags.testBit 1
        user := flags.testBit 2
        pwt := flags.testBit 3
        pcd := flags.testBit 4
        global := flags.testBit 8
        paddr := pa / 4096 }

/-- The entries that `split_4mb_pde` fills a new table with: the attributes of the 4 MB entry. -/
def splitPte (p : Entry) (i : Nat) : Entry :=
  { Entry.zero with
    present := p.present
    rw := p.rw
    user := p.user
    pwt := p.pwt
    pcd := p.pcd
    global := p.global
    paddr := (p.paddr + i) % 2 ^ 20 }

/-- The directory entry that `split_4mb_pde` leaves, `ptl` being the address of the new table. -/
def splitPde (p : Entry) (userAccessible : Bool) (ptl : Nat) : Entry :=
  { p with
    user := p.user || userAccessible
    present := true
    rw := true
    pageSize := false
    paddr := ptl / 4096 }

/-- `split_4mb_pde`, on the entry at `index` of the directory in `frame`. -/
def split4mbPde (pg : Paging) (frame index : Nat) (userAccessible : Bool) : Int × Paging :=
  let p := pg.table frame index
  if !p.present || !p.pageSize then (-1, pg)
  else
    let (ptl, pg) := archPagingPoolAlloc L pg
    if ptl = 0 then (eNomem, pg)
    else
      (0, (pg.fill (ptl / 4096) (splitPte p)).write frame index (splitPde p userAccessible ptl))

/-- The directory entry for a new table at `pt`. -/
def tablePde (flags pt : Nat) : Entry :=
  { Entry.zero with
    present := true
    rw := true
    user := flags.testBit 2
    paddr := pt / 4096 }

/-- The part of `arch_map_4kb` that allocates a table where the directory has no entry. -/
def tableForMap (pg : Paging) (frame index flags : Nat) : Int × Paging :=
  if (pg.table frame index).present then (0, pg)
  else
    let (pt, pg) := archPagingPoolAlloc L pg
    if pt = 0 then (eNomem, pg)
    else (0, (pg.write frame index (tablePde flags pt)).fill (pt / 4096) fun _ => .zero)

/-- The part of `arch_map_4kb` that splits a 4 MB entry in the way. -/
def splitForMap (pg : Paging) (frame index flags : Nat) : Int × Paging :=
  if (pg.table frame index).present && (pg.table frame index).pageSize then
    let (ret, pg) := split4mbPde L pg frame index (flags.testBit 2)
    if ret ≠ 0 then (eNomem, pg) else (0, pg)
  else (0, pg)

/-- The table entry that `arch_map_4kb` writes. -/
def mapPte (pa flags : Nat) : Entry :=
  { Entry.zero with
    present := flags.testBit 0
    rw := flags.testBit 1
    user := flags.testBit 2
    paddr := pa / 4096 }

/-- `arch_map_4kb`. -/
def archMap4kb (pg : Paging) (cr3 va pa flags : Nat) : Int × Paging :=
  if cr3 = 0 then (eInval, pg)
  else
    let (ret, pg) := splitForMap L pg (cr3 / 4096) (pdIndex va) flags
    if ret ≠ 0 then (ret, pg)
    else
      let (ret, pg) := tableForMap L pg (cr3 / 4096) (pdIndex va) flags
      if ret ≠ 0 then (ret, pg)
      else
        let ptbl := (pg.table (cr3 / 4096) (pdIndex va)).paddr
        (0, pg.write ptbl (ptIndex va) (mapPte pa flags))

/-- The table entry that `arch_unmap_4kb` leaves: below the user heap the supervisor's identity
mapping, above it nothing. -/
def unmapPte (va : Nat) : Entry :=
  if va < userHeapBase then { Entry.zero with present := true, rw := true, paddr := va / 4096 }
  else .zero

/-- `arch_unmap_4kb`. Like the source, it takes the address in the directory entry for that of a
table even where the entry is a 4 MB one. -/
def archUnmap4kb (pg : Paging) (cr3 va : Nat) : Paging :=
  let pde := pg.table (cr3 / 4096) (pdIndex va)
  if cr3 = 0 || !pde.present then pg
  else if !(pg.table pde.paddr (ptIndex va)).present then pg
  else pg.write pde.paddr (ptIndex va) (unmapPte va)

/-- `arch_clone_kernel_pde`. -/
def archCloneKernelPde (pg : Paging) (pdePa : Nat) : Nat × Paging :=
  if pdePa = 0 then (0, pg)
  else (pdePa, pg.fill (pdePa / 4096) (pg.table (pg.kernelPdirPhys / 4096)))

/-- One pass of the loop of `arch_destroy_address_space`, on the entry at `i`. -/
def destroyPde (frame : Nat) (pg : Paging) (i : Nat) : Paging :=
  let e := pg.table frame i
  if !e.present then pg
  else if e.paddr = (pg.table (pg.kernelPdirPhys / 4096) i).paddr then pg
  else (archPagingPoolFree L pg (e.paddr * 4096)).write frame i .zero

/-- `arch_destroy_address_space`. -/
def archDestroyAddressSpace (pg : Paging) (pdirPhys : Nat) : Paging :=
  if pdirPhys = 0 || pdirPhys = pg.kernelPdirPhys then pg
  else (List.range (userSpaceTop / 2 ^ 22)).foldl (destroyPde L (pdirPhys / 4096)) pg

/-! ## The pages of a range -/

/-- Unmap `n` pages from `va` on, as `vmm.c` does for the pages of a region. -/
def unmapPages (pg : Paging) (cr3 va n : Nat) : Paging :=
  (List.range n).foldl (fun pg i => archUnmap4kb pg cr3 ((va + i * 4096) % 2 ^ 32)) pg

/-- The loop of `vmm.c` that maps the pages of a region, from page `i` on; it returns the page at
which it failed. -/
def mapLoop (cr3 va pa flags : Nat) : (left i : Nat) → Paging → Option Nat × Paging
  | 0, _, pg => (none, pg)
  | left + 1, i, pg =>
    let (ret, pg) :=
      archMap4kb L pg cr3 ((va + i * 4096) % 2 ^ 32) ((pa + i * 4096) % 2 ^ 32) flags
    if ret ≠ 0 then (some i, pg) else mapLoop cr3 va pa flags left (i + 1) pg

/-- Map `n` pages from `va` on; when one fails, unmap the ones before it. -/
def mapPages (pg : Paging) (cr3 va pa n flags : Nat) : Bool × Paging :=
  match mapLoop L cr3 va pa flags n 0 pg with
  | (none, pg) => (true, pg)
  | (some i, pg) => (false, unmapPages pg cr3 va i)

/-! ## Translation -/

/-- What the processor finds for a page: the frame, and the rights that both levels grant. -/
@[ext] structure Translation where
  frame : Nat
  rw : Bool
  user : Bool
deriving DecidableEq

/-- The walk through the directory at `cr3`. -/
def walk (pg : Paging) (cr3 va : Nat) : Option Translation :=
  let pde := pg.table (cr3 / 4096) (pdIndex va)
  if !pde.present then none
  else if pde.pageSize then some ⟨pde.paddr / 1024 * 1024 + ptIndex va, pde.rw, pde.user⟩
  else
    let pte := pg.table pde.paddr (ptIndex va)
    if !pte.present then none
    else some ⟨pte.paddr, pde.rw && pte.rw, pde.user && pte.user⟩

end Ukernel.Arch
