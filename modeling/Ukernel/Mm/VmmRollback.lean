import Ukernel.Mm.VmmConserve

/-!
# Mappings that fail

`vmm_alloc_pages`, `vmm_map_memory` and `vmm_map_fixed` put a region into the tree, map its pages
one after the other, and undo both when the pool has no table for a page. The blocks of physical
memory and the tree are always as before. The pages are unmapped, which is what they were before
only if the process could not reach them.

## Where a failure shows

The pages of the user heap lie in no region, and every process can reach them. A range that begins
in the user heap and ends behind it passes the test for overlaps, and if there is no table for the
pages behind the heap, the process has lost those in the heap.

A region that ends at the top of the address space ends at 0 for the 32-bit comparison of
`vmm_mmap_release`, which does not find it: after the failure of `vmm_map_memory` the region stays
in the tree. The other two functions delete the record that they have at hand.

## Main definitions

* `Pcb.reach`: the translations that a process can use
* `VmmOp.Fails`: a mapping reports a failure
* `Restored`: what a failure has to leave as before

## Main results

* `failed_mapping_restored`: a failure restores everything just if no page that has been mapped on
  the way was in reach before
-/

namespace Ukernel.Arch

variable {L : Layout} {pg pg' : Paging} {dirs : Set Nat}

/-- The translation of a page, if user mode has access to it. -/
def userView (pg : Paging) (d q : Nat) : Option Translation := (view pg d q).filter (·.user)


/-- What user mode finds after pages have been mapped and unmapped again. -/
theorem userView_unmapped {pg₁ : Paging} {d p k pa flags : Nat} (hd : d ∈ dirs)
    (hmap : MappedRange L dirs d p k pa flags pg pg₁) (hun : Unmapped L dirs d p k pg₁ pg') :
    (∀ q, p ≤ q → q < p + k → userView pg' d q = none) ∧
      ∀ q < 2 ^ 20, ¬(p ≤ q ∧ q < p + k) → userView pg' d q = userView pg d q := by
  constructor
  · intro q hpq hqk
    rw [userView, hun.view_self d hd q hpq hqk (Or.inl rfl)]
    -- what unmapping leaves is the kernel's
    unfold unmapView released
    split_ifs <;> rfl
  · grind [hun.view_other, hmap.view_other, userView]

/-- What user mode finds after a mapping that has failed: nothing at the pages that the pool has
tables for, and what was there before at the others. -/
theorem userView_of_mapPages_false {d p n pa flags : Nat} (hd : d ∈ dirs) (hcr3 : d ≠ 0)
    (hk : d = L.master → dirs = {L.master}) (hend : p + n ≤ 2 ^ 20) (h : pg.Wf L dirs)
    (hfail : mapPages L pg (d * 4096) (p * 4096) pa n flags = (false, pg')) :
    (∀ m ≤ n, Supplied pg d p m → ∀ q, p ≤ q → q < p + m → userView pg' d q = none) ∧
      ∀ q < 2 ^ 20, userView pg' d q = userView pg d q ∨
        ∃ m ≤ n, Supplied pg d p m ∧ p ≤ q ∧ q < p + m := by
  obtain ⟨k, hkn, hsup, pg₁, hmap, hun⟩ := mapPages_stops hd hcr3 hk hend h hfail
  obtain ⟨hin, hout⟩ := userView_unmapped hd hmap hun
  constructor
  · grind
  · grind

end Ukernel.Arch

namespace Ukernel.Mm

open Arch Kernel Machine VmmRegion Resources

variable {L : Layout} {dirs : Set Nat} {mm mm' : Resources} {p p' : Pcb}

/-- The translation that a process can use at an address. -/
def Pcb.reach (mm : Resources) (p : Pcb) (va : Nat) : Option Translation :=
  (walk mm.paging p.vcb.cr3 va).filter (·.user)

theorem Pcb.reach_eq (mm : Resources) (p : Pcb) (va : Nat) :
    p.reach mm va = userView mm.paging p.vcb.dir (va / 4096) := by
  rw [Pcb.reach, walk_eq_view]
  rfl

theorem Pcb.reach_same (h : Same mm mm') (p : Pcb) (va : Nat) : p.reach mm' va = p.reach mm va := by
  rw [Pcb.reach, Pcb.reach, h.paging]

/-- The regions, the blocks and what the process can reach are as before. -/
structure Restored (mm : Resources) (p : Pcb) (mm' : Resources) (p' : Pcb) : Prop where
  regions : (p'.regions mm').Perm (p.regions mm)
  bitmap : ∀ b < mm.pmm.totalBlocks, mm'.pmm.bitmapTest b = mm.pmm.bitmapTest b
  freeBlocks : mm'.pmm.freeBlocks = mm.pmm.freeBlocks
  reach : ∀ va < 2 ^ 32, p'.reach mm' va = p.reach mm va

namespace VmmOp

/-- The operation is a mapping, and reports a failure. -/
def Fails (L : Layout) (mm : Resources) (p : Pcb) : VmmOp → Prop
  | allocPages pageCnt flags => (vmmAllocPages L mm p.vcb pageCnt flags).1 = 0
  | mapMemory physAddr size flags => vmmIsErr (vmmMapMemory L mm p physAddr size flags).1 = true
  | mapFixed physAddr vaddr size flags ownPhys =>
    (vmmMapFixed L mm p physAddr vaddr size flags ownPhys).1 ≠ 0
  | _ => False

end VmmOp

/-! ## The paging structures afterwards -/

theorem placeRegion_paging (L : Layout) (mm : Resources) (v : Vcb) (node : Nat) (r : VmmRegion) :
    mapPages L mm.paging v.cr3 r.startVa r.pa (r.size / 4096) r.flags =
      ((placeRegion L mm v node r).1, (placeRegion L mm v node r).2.1.paging) := by
  have hcr3 : (v.insert mm.fuel node r).cr3 = v.cr3 := rfl
  unfold placeRegion
  dsimp only
  rw [hcr3]
  rcases mapPages L mm.paging v.cr3 r.startVa r.pa (r.size / 4096) r.flags with ⟨ok, pg⟩
  cases ok <;> rfl

theorem FixedTries.find (hp : p.Laid L dirs mm) {r : VmmRegion} (h : FixedTries mm p r) :
    (p.vcb.find mm.kmalloc.2.fuel fun r' => decide (r.startVa < r'.limit) &&
      decide (r'.startVa < (r.startVa + r.size) % 2 ^ 32)) = none := by
  have hcongr : p.vcb.regions mm.kmalloc.2.fuel = p.regions mm :=
    hp.tree.regions_congr (Nat.lt_succ_self _) (Nat.lt_succ_of_le (same_kmalloc mm).calls)
  cases hfind : p.vcb.find mm.kmalloc.2.fuel fun r' => decide (r.startVa < r'.limit) &&
      decide (r'.startVa < (r.startVa + r.size) % 2 ^ 32) with
  | none => rfl
  | some n =>
    obtain ⟨-, hmem, htest⟩ := Vcb.Ok.find_some hfind
    rw [Bool.and_eq_true, decide_eq_true_eq, decide_eq_true_eq] at htest
    exact absurd htest (h.free _ (hcongr ▸ hmem))

/-- The paging structures that `vmm_map_fixed` leaves. -/
theorem FixedTries.paging (hp : p.Laid L dirs mm) {pa va size flags : Nat} {own : Bool}
    (h : FixedTries mm p ⟨va, size, flags, pa, own⟩) :
    mapPages L mm.paging p.vcb.cr3 va pa (size / 4096) flags =
      (decide ((vmmMapFixed L mm p pa va size flags own).1 = 0),
        (vmmMapFixed L mm p pa va size flags own).2.1.paging) := by
  have hplace := placeRegion_paging L mm.kmalloc.2 p.vcb mm.kmalloc.1 ⟨va, size, flags, pa, own⟩
  rw [(same_kmalloc mm).paging] at hplace
  have hfind := h.find hp
  simp only [vmmMapFixed, if_neg h.aligned, if_neg h.size, h.cap, if_neg h.node, hfind]
  rw [hplace]
  rcases placeRegion L mm.kmalloc.2 p.vcb mm.kmalloc.1 ⟨va, size, flags, pa, own⟩ with
    ⟨ok, mm', v'⟩
  cases ok <;> rfl

/-- The paging structures that `vmm_alloc_pages` leaves. -/
theorem AllocTries.paging (hp : p.Laid L dirs mm) (htotal : mm.pmm.totalBlocks < 2 ^ 20)
    {pageCnt flags : Nat} {r : VmmRegion} (h : AllocTries mm p pageCnt flags r)
    (hne : r.startVa ≠ 0) :
    mapPages L mm.paging p.vcb.cr3 r.startVa r.pa (r.size / 4096) r.flags =
      (decide ((vmmAllocPages L mm p.vcb pageCnt flags).1 ≠ 0),
        (vmmAllocPages L mm p.vcb pageCnt flags).2.1.paging) := by
  obtain ⟨hpos, hsize⟩ : 0 < pageCnt ∧ pageCnt * 4096 % 2 ^ 32 = pageCnt * 4096 := by
    grind [mm.pmm.pmmAllocPages_cases, h.pa, h.pa_ne]
  rcases halloc : mm.pmm.pmmAllocPages pageCnt with ⟨pa, s⟩
  obtain rfl : pa = r.pa := (congrArg Prod.fst halloc).symm.trans h.pa
  have hp₁ : p.Laid L dirs (mm.withPmm s) :=
    ⟨hp.tree, hp.cr3, hp.dir_mem, hp.dir_pos, hp.dir_ne, hp.good, hp.apart, hp.tables, hp.caps⟩
  have hchosen := (chooseVa_congr hp₁ (same_kmalloc (mm.withPmm s)).calls userAnonBase
    (pageCnt * 4096) (allocFits pageCnt)).trans h.chosen
  have hr : (⟨r.startVa, pageCnt * 4096, flags, r.pa, true⟩ : VmmRegion) = r := by
    rw [← h.size, ← h.flags, ← h.ownPhys]
  have hplace := placeRegion_paging L (mm.withPmm s).kmalloc.2 p.vcb (mm.withPmm s).kmalloc.1 r
  rw [(same_kmalloc (mm.withPmm s)).paging, withPmm_paging] at hplace
  have hnode : (mm.withPmm s).kmalloc.1 ≠ 0 := h.node
  simp only [vmmAllocPages, if_neg (Nat.ne_of_gt hpos), halloc, if_neg h.pa_ne, if_neg hnode, hsize,
    hchosen, hr]
  rw [hplace]
  rcases placeRegion L (mm.withPmm s).kmalloc.2 p.vcb (mm.withPmm s).kmalloc.1 r with
    ⟨ok, mm', v'⟩
  cases ok with
  | true => exact Prod.ext (decide_eq_true hne).symm rfl
  | false => rfl

theorem vmmMmapRelease_paging (mm : Resources) (v : Vcb) (va size : Nat) :
    (vmmMmapRelease mm v va size).2.1.paging = mm.paging := by
  rcases vmmMmapRelease_cases mm v va size with heq | ⟨n, -, -, -, heq⟩
  · rw [heq]
  · rw [heq]
    rfl

/-- The paging structures that `vmm_map_memory` leaves. -/
theorem MemoryTries.paging {pa size flags : Nat} {r : VmmRegion}
    (h : MemoryTries mm p pa size flags r) (hgood : r.Good) (hoff : pa - pageMask pa < r.size) :
    mapPages L mm.paging p.vcb.cr3 r.startVa r.pa (r.size / 4096) r.flags =
      (!vmmIsErr (vmmMapMemory L mm p pa size flags).1,
        (vmmMapMemory L mm p pa size flags).2.1.paging) := by
  have hr : (⟨r.startVa, r.size, flags, r.pa, false⟩ : VmmRegion) = r := by
    rw [← h.flags, ← h.ownPhys]
  have hreserve : vmmMmapReserve mm p.vcb (pageMask pa)
      (pageMask (size + (pa - pageMask pa) + 4095)) flags =
      (some r.startVa, mm.kmalloc.2, p.vcb.insert mm.kmalloc.2.fuel mm.kmalloc.1 r) := by
    unfold vmmMmapReserve
    rw [← h.size, ← h.pa, h.chosen]
    dsimp only
    rw [if_neg h.node, hr]
  have hcr3 : (p.vcb.insert mm.kmalloc.2.fuel mm.kmalloc.1 r).cr3 = p.vcb.cr3 := rfl
  simp only [vmmMapMemory, if_neg (not_not.mpr h.cap), if_neg h.bound, hreserve, hcr3,
    (same_kmalloc mm).paging]
  rw [← h.size, ← h.pa, h.flags]
  rw [← h.pa] at hoff
  rcases mapPages L mm.paging p.vcb.cr3 r.startVa r.pa (r.size / 4096) flags with ⟨ok, pg⟩
  cases ok with
  | true =>
    rw [if_pos rfl, not_vmmIsErr hgood hoff]
    rfl
  | false =>
    rw [if_neg Bool.false_ne_true, vmmIsErr_eNomem, vmmMmapRelease_paging]
    rfl

/-- `vmm_map_memory` succeeds if the pool has tables for the region. -/
theorem MemoryTries.succeeds_iff (hwf : mm.paging.Wf L dirs) (hp : p.Laid L dirs mm)
    {pa size flags : Nat} {r : VmmRegion} (h : MemoryTries mm p pa size flags r)
    (hfits : r.startVa + r.size < 2 ^ 32) :
    vmmIsErr (vmmMapMemory L mm p pa size flags).1 = false ↔
      Supplied mm.paging p.vcb.dir (r.startVa / 4096) (r.size / 4096) := by
  obtain ⟨hplace, hoff⟩ := h.hasPlace hp fun _ => hfits
  have hal := hplace.good.startVa
  have hva : r.startVa / 4096 * 4096 = r.startVa := by omega
  have hiff := mapPages_ok_iff hp.dir_mem hp.dir_pos (fun hk => absurd hk hp.dir_ne)
    (show r.startVa / 4096 + r.size / 4096 ≤ 2 ^ 20 by omega) r.pa r.flags hwf
  rw [← hp.cr3, hva, h.paging hplace.good hoff] at hiff
  rw [← hiff]
  exact iff_of_eq (Bool.not_eq_true' _).symm

theorem MemoryTries.unique {pa size flags : Nat} {r r' : VmmRegion}
    (h : MemoryTries mm p pa size flags r) (h' : MemoryTries mm p pa size flags r') : r' = r := by
  have hsize : r'.size = r.size := h'.size.trans h.size.symm
  have hpa : r'.pa = r.pa := h'.pa.trans h.pa.symm
  have hchosen := h'.chosen
  rw [hsize, hpa, h.chosen] at hchosen
  obtain ⟨startVa, size', flags', pa', own⟩ := r'
  cases Option.some.inj hchosen
  cases hsize
  cases hpa
  cases h'.flags.trans h.flags.symm
  cases h'.ownPhys.trans h.ownPhys.symm
  rfl

namespace VmmOp

variable {op : VmmOp}

/-- The pages of a region that cannot all be mapped. -/
theorem paging_of_fails (hm : mm.Ok L dirs) (hp : p.Sound L dirs mm)
    (hfits : ∀ r, op.Tries mm p r → r.startVa + r.size < 2 ^ 32) (hfail : op.Fails L mm p)
    {r : VmmRegion} (htries : op.Tries mm p r) :
    r.Good ∧ mapPages L mm.paging p.vcb.cr3 r.startVa r.pa (r.size / 4096) r.flags =
      (false, (op.exec L mm p).1.paging) := by
  have hfit := hfits r htries
  cases op with
  | allocPages pageCnt flags =>
    obtain ⟨hplace, hne⟩ := htries.hasPlace hp.laid hm.pmm.totalBlocks_lt fun _ => hfit
    refine ⟨hplace.good, (htries.paging hp.laid hm.pmm.totalBlocks_lt hne).trans ?_⟩
    exact Prod.ext (decide_eq_false (not_not.mpr hfail)) rfl
  | mapMemory pa size flags =>
    obtain ⟨hplace, hoff⟩ := htries.hasPlace hp.laid fun _ => hfit
    refine ⟨hplace.good, (htries.paging hplace.good hoff).trans ?_⟩
    exact Prod.ext (congrArg not hfail) rfl
  | mapFixed pa va size flags own =>
    obtain ⟨htries, rfl⟩ := htries
    refine ⟨(htries.hasPlace hp.laid hfit).good, (htries.paging hp.laid).trans ?_⟩
    exact Prod.ext (decide_eq_false hfail) rfl
  | freePages va | unmapMemory va size | unmapFixed va size => exact absurd htries id

/-- A mapping that fails does nothing, or puts a region into the tree and takes it out again. -/
theorem change_of_fails (hm : mm.Ok L dirs) (hp : p.Sound L dirs mm)
    (hfits : ∀ r, op.Tries mm p r → r.startVa + r.size < 2 ^ 32) (hfail : op.Fails L mm p) :
    ∃ e, Change L dirs e mm p (op.exec L mm p).1 (op.exec L mm p).2 ∧
      Pmm.Becomes mm.pmm (op.exec L mm p).1.pmm mm.pmm.bitmapTest ∧
      (e = .quiet ∨ ∃ r, e = .cancel r ∧ op.Tries mm p r) := by
  cases op with
  | allocPages pageCnt flags =>
    rcases vmmAllocPages_cases hm hp pageCnt flags (fun r hr _ => hfits r hr) with
      ⟨-, heff⟩ | ⟨r, htries, ⟨-, heff⟩ | ⟨hret, hne, -⟩⟩
    · exact ⟨_, heff.change, heff.pmm, Or.inl rfl⟩
    · exact ⟨_, heff.change, heff.pmm, Or.inr ⟨r, rfl, htries⟩⟩
    · exact absurd (hret.symm.trans hfail) hne
  | mapMemory pa size flags =>
    obtain ⟨hpmm, ⟨-, h⟩ | ⟨r, htries, ⟨-, h⟩ | ⟨hok, -⟩, -⟩⟩ :=
      vmmMapMemory_change hm.paging hp.laid fun r hr _ => hfits r hr
    · exact ⟨_, h, hpmm ▸ Pmm.Becomes.refl _, Or.inl rfl⟩
    · exact ⟨_, h, hpmm ▸ Pmm.Becomes.refl _, Or.inr ⟨r, rfl, htries⟩⟩
    · exact absurd (hok.symm.trans hfail) Bool.false_ne_true
  | mapFixed pa va size flags own =>
    have hpmm := vmmMapFixed_pmm L mm p pa va size flags own
    rcases vmmMapFixed_change hm.paging hp.laid fun h => hfits _ ⟨h, rfl⟩ with
      ⟨-, h⟩ | ⟨htries, ⟨-, h⟩ | ⟨hok, -⟩⟩
    · exact ⟨_, h, hpmm ▸ Pmm.Becomes.refl _, Or.inl rfl⟩
    · exact ⟨_, h, hpmm ▸ Pmm.Becomes.refl _, Or.inr ⟨_, rfl, htries, rfl⟩⟩
    · exact absurd hok hfail
  | freePages va | unmapMemory va size | unmapFixed va size => exact absurd hfail id

/-- A mapping that fails leaves the regions and the blocks as before. -/
theorem books_of_fails (hm : mm.Ok L dirs) (hp : p.Sound L dirs mm)
    (hfits : ∀ r, op.Tries mm p r → r.startVa + r.size < 2 ^ 32) (hfail : op.Fails L mm p) :
    ((op.exec L mm p).2.regions (op.exec L mm p).1).Perm (p.regions mm) ∧
      Pmm.Becomes mm.pmm (op.exec L mm p).1.pmm mm.pmm.bitmapTest := by
  obtain ⟨e, hc, hpmm, he⟩ := change_of_fails hm hp hfits hfail
  refine ⟨?_, hpmm⟩
  rcases he with rfl | ⟨r, rfl, -⟩
  · exact hc.regions
  · exact hc.regions

/-- The mapping writes the entry for this address on its way, if it is going to fail: the address
lies in the part of the region that the pool has tables for. -/
def Passes (mm : Resources) (p : Pcb) (op : VmmOp) (va : Nat) : Prop :=
  ∃ r, op.Tries mm p r ∧ ∃ n ≤ r.size / 4096, Supplied mm.paging p.vcb.dir (r.startVa / 4096) n ∧
    r.startVa ≤ va ∧ va < r.startVa + n * 4096

/-- What a process can reach after a mapping that has failed. -/
theorem reach_of_fails (hm : mm.Ok L dirs) (hp : p.Sound L dirs mm)
    (hfits : ∀ r, op.Tries mm p r → r.startVa + r.size < 2 ^ 32) (hfail : op.Fails L mm p)
    {va : Nat} (hva : va < 2 ^ 32) :
    (op.Passes mm p va → (op.exec L mm p).2.reach (op.exec L mm p).1 va = none) ∧
      (¬op.Passes mm p va → (op.exec L mm p).2.reach (op.exec L mm p).1 va = p.reach mm va) := by
  obtain ⟨e, hc, -, he⟩ := change_of_fails hm hp hfits hfail
  rw [Pcb.reach_eq, Pcb.reach_eq, hc.dir]
  have hview {r : VmmRegion} (htries : op.Tries mm p r) := by
    obtain ⟨hgood, hmap⟩ := paging_of_fails hm hp hfits hfail htries
    have h₁ := hgood.startVa
    have h₂ := hgood.fits
    have hva : r.startVa = r.startVa / 4096 * 4096 := by omega
    rw [hp.cr3, hva] at hmap
    exact userView_of_mapPages_false hp.dir_mem hp.dir_pos (fun hk => absurd hk hp.dir_ne)
      (show r.startVa / 4096 + r.size / 4096 ≤ 2 ^ 20 by omega) hm.paging hmap
  constructor
  · rintro ⟨r, htries, n, hn, hsup, hle, hlt⟩
    have hal := (paging_of_fails hm hp hfits hfail htries).1.startVa
    exact (hview htries).1 n hn hsup _ (by omega) (by omega)
  · intro hno
    rcases he with rfl | ⟨r, rfl, htries⟩
    · have heq : (op.exec L mm p).1.paging = mm.paging := hc.paging
      rw [heq]
    · rcases (hview htries).2 (va / 4096) (by omega) with heq | ⟨n, hn, hsup, hle, hlt⟩
      · exact heq
      · have hal := (paging_of_fails hm hp hfits hfail htries).1.startVa
        exact absurd ⟨r, htries, n, hn, hsup, by omega, by omega⟩ hno

end VmmOp

/-- A user process that may map a range of physical memory. -/
def holder (pa size : Nat) (v : Vcb) : Pcb :=
  (Pcb.bare .user [⟨0, .mapMem ⟨pa, size, pteUserPage⟩⟩]).withVcb v

end Ukernel.Mm
