import Ukernel.Arch.Paging
import Ukernel.Mm.Pmm

/-!
# The kernel's resources

What the address spaces draw on: the physical memory manager, the paging structures, the kernel
heap and the table of spinlocks.

The kernel heap is an arena that names its blocks: each request fails, as a parameter says, or is
answered with a name that no earlier request got. The code above the heap compares the addresses of
live blocks and nothing else, so that it cannot tell names from addresses.

## Main definitions

* `Arena`, `Arena.kmalloc`, `Arena.kfree`: the kernel heap
* `Resources`, `Resources.idle`: all of them, and all of them unused
* `Resources.spinlockAlloc`, `Resources.spinlockRelease`: the table of spinlocks
-/

namespace Ukernel.Mm

open Arch Lib

/-- A heap: which requests fail, how many there have been, and the blocks in use. -/
structure Arena where
  fails : Nat → Bool
  calls : Nat
  live : List Nat

/-- `kmalloc`: a new block, or 0. -/
def Arena.kmalloc (a : Arena) : Nat × Arena :=
  if a.fails a.calls then (0, ⟨a.fails, a.calls + 1, a.live⟩)
  else (a.calls + 1, ⟨a.fails, a.calls + 1, (a.calls + 1) :: a.live⟩)

/-- `kfree`. -/
def Arena.kfree (a : Arena) (p : Nat) : Arena := { a with live := a.live.erase p }

theorem Arena.kmalloc_calls (a : Arena) : a.kmalloc.2.calls = a.calls + 1 := by
  unfold Arena.kmalloc
  split <;> rfl

theorem Arena.kmalloc_name {a : Arena} (h : a.kmalloc.1 ≠ 0) : a.kmalloc.1 = a.calls + 1 := by
  unfold Arena.kmalloc at h ⊢
  split
  · rename_i hf
    rw [if_pos hf] at h
    exact absurd rfl h
  · rfl

/-- The resources that address spaces draw on. -/
structure Resources where
  pmm : Pmm
  paging : Paging
  kheap : Arena
  /-- Which entries of `spinlocks` are taken. -/
  locks : Nat → Bool

namespace Resources

/-- Nothing is in use, and the heap never refuses a request. -/
def idle : Resources where
  pmm := .start fun _ => 0
  paging := ⟨fun _ _ => .zero, fun _ => false, false, 0⟩
  kheap := ⟨fun _ => false, 0, []⟩
  locks := fun _ => false

/-- `SPIN_LOCK_MAX_COUNT`. -/
def spinLockMaxCount : Nat := 1024

/-- `spinlock_alloc`: the index of a lock. -/
def spinlockAlloc (mm : Resources) : Option Nat × Resources :=
  match firstFree mm.locks spinLockMaxCount 0 with
  | some i => (some i, { mm with locks := Function.update mm.locks i true })
  | none => (none, mm)

/-- `spinlock_release`. -/
def spinlockRelease (mm : Resources) (i : Nat) : Resources :=
  { mm with locks := Function.update mm.locks i false }

/-- `kmalloc` on the kernel heap. -/
def kmalloc (mm : Resources) : Nat × Resources :=
  (mm.kheap.kmalloc.1, { mm with kheap := mm.kheap.kmalloc.2 })

/-- `kfree` on the kernel heap. -/
def kfree (mm : Resources) (p : Nat) : Resources := { mm with kheap := mm.kheap.kfree p }

/-- Replace the state of the physical memory manager. -/
def withPmm (mm : Resources) (pmm : Pmm) : Resources := { mm with pmm }

/-- Replace the paging structures. -/
def withPaging (mm : Resources) (paging : Paging) : Resources := { mm with paging }

@[simp] theorem withPaging_paging (mm : Resources) (pg : Paging) : (mm.withPaging pg).paging = pg :=
  rfl

@[simp] theorem withPmm_paging (mm : Resources) (pmm : Pmm) : (mm.withPmm pmm).paging = mm.paging :=
  rfl

/-- Nothing that an address space shows has changed. -/
structure Same (mm mm' : Resources) : Prop where
  pmm : mm'.pmm = mm.pmm
  paging : mm'.paging = mm.paging
  calls : mm.kheap.calls ≤ mm'.kheap.calls

theorem Same.refl (mm : Resources) : Same mm mm := ⟨rfl, rfl, Nat.le_refl _⟩

theorem Same.trans {mm mm' mm'' : Resources} (h : Same mm mm') (h' : Same mm' mm'') :
    Same mm mm'' :=
  ⟨h'.pmm.trans h.pmm, h'.paging.trans h.paging, Nat.le_trans h.calls h'.calls⟩

theorem same_kmalloc (mm : Resources) : Same mm mm.kmalloc.2 :=
  ⟨rfl, rfl, by simp [kmalloc, Arena.kmalloc_calls]⟩

theorem same_kfree (mm : Resources) (p : Nat) : Same mm (mm.kfree p) := ⟨rfl, rfl, Nat.le_refl _⟩

theorem same_spinlockRelease (mm : Resources) (i : Nat) : Same mm (mm.spinlockRelease i) :=
  ⟨rfl, rfl, Nat.le_refl _⟩

theorem same_spinlockAlloc (mm : Resources) : Same mm mm.spinlockAlloc.2 := by
  unfold spinlockAlloc
  split <;> exact ⟨rfl, rfl, Nat.le_refl _⟩

end Resources

end Ukernel.Mm
