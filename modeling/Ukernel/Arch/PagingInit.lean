import Ukernel.Arch.PagingDirs
import Ukernel.Mm.Resources
import Ukernel.Mm.PmmOps

/-!
# The start of paging

`arch_paging_init` up to the user heap: the kernel's directory identity-maps physical memory with
4 MB entries, and the physical memory manager starts.

## Main definitions

* `buildMaster`: the kernel's directory
* `bootPmm`: the physical memory manager after the bootstrap

## Main results

* `buildMaster_wf`, `bootPmm_ready`: both are well formed
-/

namespace Ukernel.Arch

open Kernel Lib Mm

variable (L : Layout)

/-- `arch_map_4mb_range`. -/
def archMap4mbRange (pg : Paging) (cr3 startPa endPa flags : Nat) : Paging :=
  if cr3 = 0 || startPa % 0x400000 ≠ 0 || endPa % 0x400000 ≠ 0 then pg
  else
    (List.range' (startPa / 0x400000) (endPa / 0x400000 - startPa / 0x400000)).foldl
      (fun pg i => archMap4mb pg cr3 (i * 0x400000) (i * 0x400000) flags) pg

/-- The first steps of `arch_paging_init`: the kernel's directory. The second loop covers memory
from 16 MB on. -/
def buildMaster (pg : Paging) (totalMemory : Nat) : Paging :=
  let pg := pg.fill (L.pdes / 4096) fun _ => .zero
  let pg := archMap4mbRange pg L.pdes 0 0x1000000 pteKernel
  let pg := (List.range' 4 ((totalMemory + 0x3FFFFF) / 0x400000 - 4)).foldl
    (fun pg i => archMap4mb pg L.pdes (i * 0x400000) (i * 0x400000) pteKernel) pg
  pg.withKernelPdir L.pdes

variable {L} {pg pg' : Paging}

/-! ## The kernel's directory -/

/-- The 4 MB entry of the identity map. -/
def bigPde (i : Nat) : Entry :=
  { Entry.zero with pageSize := true, present := true, rw := true, paddr := i * 1024 }

theorem archMap4mb_identity (L : Layout) (pg : Paging) {i : Nat} (hi : i < 1024) :
    archMap4mb pg L.pdes (i * 0x400000) (i * 0x400000) pteKernel =
      pg.write L.master i (bigPde i) := by
  have hpos := L.pdes_pos
  have hpd : pdIndex (i * 0x400000) = i := by
    unfold pdIndex
    omega
  have hpa : i * 0x400000 / 4096 = i * 1024 := by omega
  unfold archMap4mb
  rw [if_neg (by simp; omega), hpd, hpa]
  rfl

/-- The directory after the first `n` entries of the identity map. -/
theorem foldl_identity (L : Layout) {pg : Paging} (n : Nat) (hn : n ≤ 1024)
    (h : pg.table L.master = fun _ => .zero) :
    (List.range n).foldl
      (fun pg i => archMap4mb pg L.pdes (i * 0x400000) (i * 0x400000) pteKernel) pg =
      pg.fill L.master fun i => if i < n then bigPde i else .zero := by
  induction n with
  | zero =>
    unfold Paging.fill
    simp [← h]
  | succ n ih =>
    rw [List.range_succ, List.foldl_append, ih (by omega), List.foldl_cons, List.foldl_nil,
      archMap4mb_identity L _ (by omega)]
    unfold Paging.fill Paging.write
    simp only [Function.update_self, Function.update_idem]
    congr 2
    funext i
    by_cases hi : i = n
    · subst hi
      simp
    · grind

/-- The number of 4 MB entries of the identity map. -/
def identityCount (totalMemory : Nat) : Nat := max 4 ((totalMemory + 0x3FFFFF) / 0x400000)

theorem buildMaster_eq (pg : Paging) {totalMemory : Nat} (h : totalMemory ≤ 0xFFC00000) :
    buildMaster L pg totalMemory =
      (pg.fill L.master fun i => if i < identityCount totalMemory then bigPde i else .zero
        ).withKernelPdir L.pdes := by
  have hpos := L.pdes_pos
  have hn : identityCount totalMemory = 4 + ((totalMemory + 0x3FFFFF) / 0x400000 - 4) := by
    unfold identityCount
    omega
  have hrange : List.range (identityCount totalMemory) =
      List.range' 0 4 ++ List.range' 4 ((totalMemory + 0x3FFFFF) / 0x400000 - 4) := by
    rw [hn, List.range_eq_range', List.range'_append]
  have hempty : (pg.fill L.master fun _ => .zero).table L.master = fun _ => .zero :=
    fill_table_self _ _
  have hfold := foldl_identity L (identityCount totalMemory) (by unfold identityCount; omega) hempty
  have hfirst : ∀ pg : Paging, archMap4mbRange pg L.pdes 0 0x1000000 pteKernel =
      (List.range' 0 4).foldl
        (fun pg i => archMap4mb pg L.pdes (i * 0x400000) (i * 0x400000) pteKernel) pg := by
    intro pg
    unfold archMap4mbRange
    rw [if_neg (by simp; omega)]
  rw [hrange, List.foldl_append] at hfold
  dsimp only [buildMaster]
  rw [hfirst]
  change (List.foldl _ (List.foldl _ (pg.fill L.master fun _ => .zero) _) _).withKernelPdir _ = _
  rw [hfold]
  simp [Paging.fill]

section Master

variable {totalMemory : Nat} {used : Nat → Bool}

theorem not_isTable_bigPde (i : Nat) : ¬(bigPde i).IsTable := fun h =>
  absurd (show true = false from h.2) (by decide)

/-- The kernel's directory as `buildMaster` leaves it. -/
theorem table_buildMaster (pg : Paging) (h : totalMemory ≤ 0xFFC00000) (i : Nat) :
    (buildMaster L pg totalMemory).table L.master i =
      if i < identityCount totalMemory then bigPde i else .zero := by
  rw [buildMaster_eq pg h]
  exact congrFun (fill_table_self _ _) i

theorem buildMaster_wf (hlock : pg.poolLock = true) (h : totalMemory ≤ 0xFFC00000) :
    (buildMaster L pg totalMemory).Wf L {L.master} := by
  have hnt : ∀ i, ¬((buildMaster L pg totalMemory).table L.master i).IsTable := by
    intro i
    rw [table_buildMaster pg h]
    split
    · exact not_isTable_bigPde i
    · exact Entry.not_isTable_zero
  have hlock' : (buildMaster L pg totalMemory).poolLock = true := by
    rw [buildMaster_eq pg h]
    exact hlock
  have hkernel : (buildMaster L pg totalMemory).kernelPdirPhys = L.pdes := by
    rfl
  refine ⟨hlock', hkernel, rfl, fun d hd hne => absurd hd hne, ?_, ?_, ?_, ?_, ?_, ?_⟩
  · rintro d rfl i
    exact Or.inl rfl
  · rintro d rfl i ht
    exact absurd ht (hnt i)
  · rintro d rfl i ht
    exact absurd ht (hnt i)
  · rintro d rfl i d' - i' ht
    exact absurd ht (hnt i)
  · rintro d rfl i ht
    exact absurd ht (hnt i)
  · intro i hi
    rw [table_buildMaster pg h] at hi ⊢
    have hcount : identityCount totalMemory ≤ 1024 := by
      unfold identityCount
      omega
    split at hi
    · rename_i hlt
      rw [if_pos hlt]
      change i * 1024 % 1024 = 0 ∧ i * 1024 < 2 ^ 20
      omega
    · exact absurd hi (by decide)

end Master

/-! ## Physical memory -/

/-- The physical memory manager when it has started and the boot modules are reserved. -/
def bootPmm (L : Layout) (mem : Machine.Memory) (modules : List (Nat × Nat)) (totalMemory : Nat) :
    Pmm :=
  modules.foldl (fun pmm m => if m.1 < m.2 then pmm.pmmMarkUsed m.1 (m.2 - m.1) else pmm)
    ((Pmm.start mem).pmmInit true totalMemory L.pmmBitmapStart)

theorem bootPmm_ready (mem : Machine.Memory) (modules : List (Nat × Nat)) {totalMemory : Nat}
    (h : totalMemory < 2 ^ 32) :
    (bootPmm L mem modules totalMemory).Ready ∧
      (bootPmm L mem modules totalMemory).totalBlocks = totalMemory / 4096 ∧
      (bootPmm L mem modules totalMemory).bitmap4k = L.pmmBitmapStart := by
  have hpos : L.pmmBitmapStart ≠ 0 := by
    have := L.pool_below
    omega
  have hal : Machine.pageAlign L.pmmBitmapStart = L.pmmBitmapStart :=
    Machine.pageAlign_of_aligned (Nat.lt_of_le_of_lt (Nat.le_add_right _ _) L.bitmap_end)
      L.bitmap_aligned
  obtain ⟨hsound, -⟩ := Pmm.pmmInit_spec mem true L.pmmBitmapStart h
  obtain ⟨hinit, htotal, hbitmap⟩ := Pmm.pmmInit_shape mem totalMemory hpos
  rw [hal] at hbitmap
  unfold bootPmm
  -- a marked module only sets bits
  induction modules using List.reverseRecOn with
  | nil => exact ⟨⟨hinit, hsound⟩, htotal, hbitmap⟩
  | append_singleton modules m ih =>
    rw [List.foldl_append, List.foldl_cons, List.foldl_nil]
    split
    · obtain ⟨hready, ht, hb⟩ := ih
      obtain ⟨f, hf, hmono⟩ := Pmm.pmmMarkUsed_grows
        (Nat.lt_of_lt_of_le hready.totalBlocks_lt (by decide)) m.1 (m.2 - m.1)
      refine ⟨hready.becomes hf fun b hb ht => hmono b (hready.used hb ht), ?_, ?_⟩
      · exact hf.shape.totalBlocks.trans ht
      · exact hf.shape.bitmap4k.trans hb
    · exact ih

end Ukernel.Arch
