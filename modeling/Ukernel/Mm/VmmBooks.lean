import Ukernel.Arch.PagingPool
import Ukernel.Mm.VmmApi

/-!
# What an address space takes and gives back

An address space takes a lock, a directory, page tables, two blocks of the heap for its tree, and a
block for each of its regions; and its regions may own blocks of physical memory. `vmm_destroy`
gives all of it back.

## How the account is kept

Each resource has an account of its own, and every operation keeps all of them. The heap holds the
nodes of the tree next to what it held before. The pool holds the tables of the directory next to
what it held before (`Accounts`). A block of physical memory that no region owns is in use just when
it was in use before and has not been handed over.

## Main definitions

* `Placeable`: the pages of a region lie below the user's limit and get no table that is lost
* `Keeps`: locks, heap and pool before and after an operation
* `Ledger`: the blocks of physical memory

## Main results

* `VmmOp.exec_keeps`, `Ledger.effect`: every operation keeps the accounts
* `vmmCreate_opens`, `Open.destroy`: creation opens them and destruction closes them
-/

namespace Ukernel.Mm

open Arch Kernel Lib Lib.RbTree Machine VmmRegion Resources

variable {L : Layout} {dirs : Set Nat} {mm mm' mm'' : Resources} {p p' : Pcb} {v v' v'' : Vcb}

/-! ## The heap -/

theorem kmalloc_live (h : mm.kmalloc.1 ≠ 0) :
    mm.kmalloc.2.kheap.live = mm.kmalloc.1 :: mm.kheap.live := by
  unfold Resources.kmalloc Arena.kmalloc at h ⊢
  split_ifs at h ⊢
  · exact absurd rfl h
  · rfl

theorem kmalloc_live_of_zero (h : mm.kmalloc.1 = 0) : mm.kmalloc.2.kheap.live = mm.kheap.live := by
  unfold Resources.kmalloc Arena.kmalloc at h ⊢
  split_ifs at h ⊢
  rfl

/-- The pages of the region lie below the user's limit and get no table that is lost. -/
def Placeable (L : Layout) (mm : Resources) (r : VmmRegion) : Prop :=
  r.startVa + r.size ≤ userSpaceTop ∧ ∀ q, r.HasPage q → Clear L mm.paging (q / 1024)

theorem Placeable.clearRange {r : VmmRegion} (h : Placeable L mm r) :
    ClearRange L mm.paging (r.startVa / 4096) (r.size / 4096) := by
  have hle := h.1
  refine ⟨?_, fun q h₁ h₂ => h.2 q ⟨h₁, h₂⟩⟩
  omega

/-- Locks, heap and pool before and after an operation on an address space: the heap has the nodes
of the tree and what else it had, the pool the tables of the directory and what else it had. -/
structure Keeps (L : Layout) (mm : Resources) (v : Vcb) (mm' : Resources) (v' : Vcb) : Prop where
  locks : mm'.locks = mm.locks
  lock : v'.lock = v.lock
  treeAddr : v'.treeAddr = v.treeAddr
  nil : v'.tree.nil = v.tree.nil
  live : ∀ rest, mm.kheap.live.Perm (v.nodes mm.fuel ++ rest) →
    mm'.kheap.live.Perm (v'.nodes mm'.fuel ++ rest)
  pool : ∀ base, Accounts L base v.dir mm.paging → Accounts L base v'.dir mm'.paging

namespace Keeps

/-- The physical memory manager plays no part. -/
theorem of_eq (hlocks : mm'.locks = mm.locks) (hkheap : mm'.kheap = mm.kheap)
    (hpaging : mm'.paging = mm.paging) : Keeps L mm v mm' v := by
  refine ⟨hlocks, rfl, rfl, rfl, fun rest h => ?_, fun base h => hpaging ▸ h⟩
  have hfuel : mm'.fuel = mm.fuel := congrArg (·.calls + 1) hkheap
  rw [hkheap, hfuel]
  exact h

theorem refl (L : Layout) (mm : Resources) (v : Vcb) : Keeps L mm v mm v := of_eq rfl rfl rfl

theorem trans (h : Keeps L mm v mm' v') (h' : Keeps L mm' v' mm'' v'') : Keeps L mm v mm'' v'' :=
  ⟨h'.locks.trans h.locks, h'.lock.trans h.lock, h'.treeAddr.trans h.treeAddr, h'.nil.trans h.nil,
    fun rest hl => h'.live rest (h.live rest hl), fun base ha => h'.pool base (h.pool base ha)⟩

/-- The paging structures change and keep account. -/
theorem withPaging {pg : Paging}
    (h : ∀ base, Accounts L base v.dir mm.paging → Accounts L base v.dir pg) :
    Keeps L mm v (mm.withPaging pg) v :=
  ⟨rfl, rfl, rfl, rfl, fun _ hl => hl, h⟩

/-- A request that the heap refuses. -/
theorem kmalloc_zero (hv : v.Ok mm.kheap.calls) (h : mm.kmalloc.1 = 0) :
    Keeps L mm v mm.kmalloc.2 v := by
  refine ⟨rfl, rfl, rfl, rfl, fun rest hl => ?_, fun base ha => ha⟩
  have hnodes : v.nodes mm.kmalloc.2.fuel = v.nodes mm.fuel :=
    hv.nodes_congr (Nat.lt_succ_self _) (Nat.lt_succ_of_le (same_kmalloc mm).calls)
  rw [kmalloc_live_of_zero h, hnodes]
  exact hl

/-- A block that is not needed after all. -/
theorem kmalloc_kfree (hv : v.Ok mm.kheap.calls) (h : mm.kmalloc.1 ≠ 0) :
    Keeps L mm v (mm.kmalloc.2.kfree mm.kmalloc.1) v := by
  refine ⟨rfl, rfl, rfl, rfl, fun rest hl => ?_, fun base ha => ha⟩
  have hnodes : v.nodes (mm.kmalloc.2.kfree mm.kmalloc.1).fuel = v.nodes mm.fuel :=
    hv.nodes_congr (Nat.lt_succ_self _) (Nat.lt_succ_of_le (same_kmalloc mm).calls)
  have hlive : (mm.kmalloc.2.kfree mm.kmalloc.1).kheap.live = mm.kheap.live := by
    change mm.kmalloc.2.kheap.live.erase _ = _
    rw [kmalloc_live h, List.erase_cons_head]
  rw [hlive, hnodes]
  exact hl

/-- A new block becomes a node of the tree. -/
theorem insert (hv : v.Ok mm.kheap.calls) (h : mm.kmalloc.1 ≠ 0) (r : VmmRegion) :
    Keeps L mm v mm.kmalloc.2 (v.insert mm.kmalloc.2.fuel mm.kmalloc.1 r) := by
  obtain ⟨-, -, hnodes, hnil⟩ := hv.insert_kmalloc h r
  refine ⟨rfl, rfl, rfl, hnil, fun rest hl => ?_, fun base ha => ha⟩
  rw [kmalloc_live h]
  exact (hl.cons _).trans (hnodes.symm.append_right rest)

/-- A node leaves the tree and its block goes back. -/
theorem delete (mm : Resources) (hv : v.Ok mm.kheap.calls) {n : Nat} (hn : n ∈ v.nodes mm.fuel) :
    Keeps L mm v (mm.kfree n) (v.delete mm.fuel n) := by
  obtain ⟨hnodes, hnil⟩ := hv.delete_nodes hn (Nat.lt_succ_self _)
  refine ⟨rfl, rfl, rfl, hnil, fun rest hl => ?_, fun base ha => ha⟩
  have hperm := (hl.trans (hnodes.append_right rest)).erase n
  rw [List.cons_append, List.erase_cons_head] at hperm
  exact hperm

end Keeps

/-! ## The operations -/

theorem gapSearch_aligned {fits : Nat → Bool} {size va : Nat} {rs : List VmmRegion}
    (h : gapSearch fits size rs = some va) : va % 4096 = 0 := by
  fun_induction gapSearch fits size rs with
  | case1 => cases h
  | case2 => cases h
  | case3 => cases h
  | case4 cur _ va' =>
    rw [← Option.some.inj h]
    exact pageAlign_mod _
  | case5 => cases h
  | case6 cur next rest va' =>
    rw [← Option.some.inj h]
    exact pageAlign_mod _
  | case7 cur next rest va' _ _ ih => exact ih h

theorem chooseVa_aligned {fuel first size va : Nat} {fits : Nat → Bool} (hfirst : first % 4096 = 0)
    (h : chooseVa fuel v first fits size = some va) : va % 4096 = 0 := by
  unfold chooseVa at h
  split_ifs at h
  · cases h
    exact hfirst
  · exact gapSearch_aligned h

section Operations

variable (hp : p.Sound L dirs mm)
include hp

/-- A node that has just been inserted leaves the tree again. -/
theorem keeps_undo {r : VmmRegion} (hnode : mm.kmalloc.1 ≠ 0) {mm₁ : Resources}
    (hkheap : mm₁.kheap = mm.kmalloc.2.kheap) :
    Keeps L mm₁ (p.vcb.insert mm.kmalloc.2.fuel mm.kmalloc.1 r) (mm₁.kfree mm.kmalloc.1)
      ((p.vcb.insert mm.kmalloc.2.fuel mm.kmalloc.1 r).delete mm₁.fuel mm.kmalloc.1) := by
  have hfuel : mm₁.fuel = mm.kmalloc.2.fuel := congrArg (·.calls + 1) hkheap
  obtain ⟨htree, -, hnodes, -⟩ := hp.tree.insert_kmalloc hnode r
  refine Keeps.delete mm₁ (hkheap ▸ htree) ?_
  rw [hfuel]
  exact hnodes.mem_iff.mpr List.mem_cons_self

variable (hm : mm.Ok L dirs)
include hm

/-- Mapping the pages of a region keeps account. -/
theorem keeps_mapPages {r : VmmRegion} (hal : r.startVa % 4096 = 0) (hr : Placeable L mm r)
    (mm₁ : Resources) (v₁ : Vcb) (hpaging : mm₁.paging = mm.paging) (hcr3 : v₁.cr3 = p.vcb.cr3) :
    Keeps L mm₁ v₁ (mm₁.withPaging
      (mapPages L mm₁.paging v₁.cr3 r.startVa r.pa (r.size / 4096) r.flags).2) v₁ := by
  have hdir : v₁.dir = p.vcb.dir := congrArg (· / 4096) hcr3
  have hva : r.startVa = r.startVa / 4096 * 4096 := by omega
  refine Keeps.withPaging fun base ha => ?_
  rw [hdir, hpaging] at ha
  have h := mapPages_accounts hp.dir_mem hp.dir_pos hp.dir_ne hm.paging ha r.pa r.flags
    hr.clearRange
  rwa [hdir, hpaging, hcr3, hp.cr3, hva]

/-- A region leaves the tree and the page tables. -/
theorem keeps_remove {n : Nat} (hn : n ∈ p.vcb.nodes mm.fuel) (hlocks : mm'.locks = mm.locks)
    (hkheap : mm'.kheap = (mm.kfree n).kheap)
    (hpaging : mm'.paging = (mm.unmapRegion p.vcb.cr3 (p.vcb.region n)).paging) :
    Keeps L mm p.vcb mm' (p.vcb.delete mm.fuel n) := by
  have hr : p.vcb.region n ∈ p.regions mm := List.mem_map_of_mem hn
  have hal := (hp.good _ hr).startVa
  have hfits := (hp.good _ hr).fits
  have hva : (p.vcb.region n).startVa = (p.vcb.region n).startVa / 4096 * 4096 := by omega
  have hunmap : Keeps L mm p.vcb (mm.unmapRegion p.vcb.cr3 (p.vcb.region n)) p.vcb := by
    refine Keeps.withPaging fun base ha => ?_
    rw [hp.cr3, hva]
    exact unmapPages_accounts hp.dir_mem hp.dir_pos hp.dir_ne hm.paging ha _ (by omega)
      fun q h₁ h₂ => hp.tables _ hr q ⟨h₁, h₂⟩
  have hdelete : Keeps L (mm.unmapRegion p.vcb.cr3 (p.vcb.region n)) p.vcb
      ((mm.unmapRegion p.vcb.cr3 (p.vcb.region n)).kfree n) (p.vcb.delete mm.fuel n) :=
    Keeps.delete (mm.unmapRegion p.vcb.cr3 (p.vcb.region n)) hp.tree hn
  exact (hunmap.trans hdelete).trans (Keeps.of_eq hlocks hkheap hpaging)

/-- A region is placed, or its block goes back. -/
theorem placeRegion_keeps {r : VmmRegion} (hnode : mm.kmalloc.1 ≠ 0)
    (hal : r.startVa % 4096 = 0) (hr : Placeable L mm r) :
    (∃ mm' v', placeRegion L mm.kmalloc.2 p.vcb mm.kmalloc.1 r = (true, mm', v') ∧
      Keeps L mm p.vcb mm' v') ∨
    ∃ mm' v', placeRegion L mm.kmalloc.2 p.vcb mm.kmalloc.1 r = (false, mm', v') ∧
      Keeps L mm p.vcb (mm'.kfree mm.kmalloc.1) v' := by
  have hinsert : Keeps L mm p.vcb mm.kmalloc.2 (p.vcb.insert mm.kmalloc.2.fuel mm.kmalloc.1 r) :=
    Keeps.insert hp.tree hnode r
  have hmap := keeps_mapPages hp hm hal hr mm.kmalloc.2
    (p.vcb.insert mm.kmalloc.2.fuel mm.kmalloc.1 r) rfl rfl
  unfold placeRegion
  dsimp only
  split_ifs with hok
  · exact Or.inl ⟨_, _, rfl, hinsert.trans hmap⟩
  · exact Or.inr ⟨_, _, rfl, (hinsert.trans hmap).trans (keeps_undo hp hnode rfl)⟩

theorem vmmAllocPages_keeps {pageCnt flags : Nat}
    (hr : ∀ r, AllocTries mm p pageCnt flags r → Placeable L mm r) :
    let res := vmmAllocPages L mm p.vcb pageCnt flags
    Keeps L mm p.vcb res.2.1 res.2.2 := by
  intro res
  simp only [res, vmmAllocPages]
  by_cases hzero : pageCnt = 0
  · rw [if_pos hzero]
    exact Keeps.refl L mm p.vcb
  rw [if_neg hzero]
  rcases hm.pmm.alloc pageCnt with heq | ⟨first, s, hn, hpos, hres, hend, -, heq, hready, hs⟩
  · rw [heq, if_pos rfl]
    exact Keeps.of_eq rfl rfl rfl
  have hpa : first * 4096 ≠ 0 := Nat.mul_ne_zero (Nat.pos_iff_ne_zero.mp hpos) (by decide)
  rw [heq, if_neg hpa]
  obtain ⟨hm₁, hp₁⟩ := hp.withPmm hm hready hs
  have hpmm : Keeps L mm p.vcb (mm.withPmm s) p.vcb := Keeps.of_eq rfl rfl rfl
  have hsize : pageCnt * 4096 % 2 ^ 32 = pageCnt * 4096 := by
    have := hm.pmm.totalBlocks_lt
    omega
  split_ifs with hnode
  · exact hpmm.trans ((Keeps.kmalloc_zero hp₁.tree hnode).trans (Keeps.of_eq rfl rfl rfl))
  rw [hsize]
  split
  · exact hpmm.trans ((Keeps.kmalloc_kfree hp₁.tree hnode).trans (Keeps.of_eq rfl rfl rfl))
  · rename_i va hva
    rw [chooseVa_congr hp₁.laid (same_kmalloc (mm.withPmm s)).calls] at hva
    have htries : AllocTries mm p pageCnt flags ⟨va, pageCnt * 4096, flags, first * 4096, true⟩ :=
      ⟨congrArg Prod.fst heq, hpa, hnode, rfl, rfl, rfl, hva⟩
    rcases placeRegion_keeps hp₁ hm₁ hnode
      (r := ⟨va, pageCnt * 4096, flags, first * 4096, true⟩) (chooseVa_aligned (by decide) hva)
      (hr _ htries) with ⟨mm', v', hplace, hkeeps⟩ | ⟨mm', v', hplace, hkeeps⟩
    · rw [hplace]
      exact hpmm.trans hkeeps
    · rw [hplace]
      exact (hpmm.trans hkeeps).trans (Keeps.of_eq rfl rfl rfl)

theorem vmmMapFixed_keeps {pa va size flags : Nat} {own : Bool}
    (hr : FixedTries mm p ⟨va, size, flags, pa, own⟩ →
      Placeable L mm ⟨va, size, flags, pa, own⟩) :
    let res := vmmMapFixed L mm p pa va size flags own
    Keeps L mm p.vcb res.2.1 res.2.2.vcb := by
  intro res
  simp only [res, vmmMapFixed]
  split_ifs with hal hsz hcap hnode
  · exact Keeps.refl L mm p.vcb
  · exact Keeps.refl L mm p.vcb
  · exact Keeps.refl L mm p.vcb
  · exact Keeps.kmalloc_zero hp.tree hnode
  split
  · exact Keeps.kmalloc_kfree hp.tree hnode
  · rename_i hfind
    have htries : FixedTries mm p ⟨va, size, flags, pa, own⟩ :=
      FixedTries.of_find hp.laid hal hsz (not_not.mp hcap) hnode hfind
    have haligned := htries.aligned
    rw [not_or, not_not, not_not] at haligned
    rcases placeRegion_keeps hp hm hnode haligned.2 (hr htries) with
      ⟨mm', v', hplace, hkeeps⟩ | ⟨mm', v', hplace, hkeeps⟩
    · rw [hplace]
      exact hkeeps
    · rw [hplace]
      exact hkeeps

theorem vmmMapMemory_keeps {pa size flags : Nat}
    (hr : ∀ r, MemoryTries mm p pa size flags r → Placeable L mm r) :
    let res := vmmMapMemory L mm p pa size flags
    Keeps L mm p.vcb res.2.1 res.2.2.vcb := by
  intro res
  simp only [res, vmmMapMemory]
  split_ifs with hcap hsz
  · exact Keeps.refl L mm p.vcb
  · exact Keeps.refl L mm p.vcb
  rw [not_not] at hcap
  rcases vmmMmapReserve_cases mm p.vcb (pageMask pa)
    (pageMask (size + (pa - pageMask pa) + 4095)) flags with
    ⟨mm', heq, rfl | ⟨hzero, rfl⟩⟩ | ⟨va, hva, hnode, heq⟩
  · rw [heq]
    exact Keeps.refl L _ p.vcb
  · rw [heq]
    exact Keeps.kmalloc_zero hp.tree hzero
  · rw [heq]
    set r : VmmRegion :=
      ⟨va, pageMask (size + (pa - pageMask pa) + 4095), flags, pageMask pa, false⟩ with hrdef
    have htries : MemoryTries mm p pa size flags r := ⟨hcap, hsz, hnode, rfl, rfl, rfl, rfl, hva⟩
    have hplace := hr r htries
    have hle := hplace.1
    unfold userSpaceTop at hle
    obtain ⟨hc, -⟩ := htries.hasPlace hp.laid fun _ => by omega
    have hinsert : Keeps L mm p.vcb mm.kmalloc.2 (p.vcb.insert mm.kmalloc.2.fuel mm.kmalloc.1 r) :=
      Keeps.insert hp.tree hnode r
    have hmap := keeps_mapPages hp hm hc.good.startVa hplace mm.kmalloc.2
      (p.vcb.insert mm.kmalloc.2.fuel mm.kmalloc.1 r) rfl rfl
    have hdelete (pg : Paging) {n : Nat}
        (hn : n ∈ (p.vcb.insert mm.kmalloc.2.fuel mm.kmalloc.1 r).nodes mm.kmalloc.2.fuel) :
        Keeps L (mm.kmalloc.2.withPaging pg) (p.vcb.insert mm.kmalloc.2.fuel mm.kmalloc.1 r)
          ((mm.kmalloc.2.withPaging pg).kfree n)
          ((p.vcb.insert mm.kmalloc.2.fuel mm.kmalloc.1 r).delete mm.kmalloc.2.fuel n) :=
      Keeps.delete (mm.kmalloc.2.withPaging pg) (hp.laid.tree.insert_kmalloc hnode r).1 hn
    dsimp only
    split_ifs with hok
    · exact hinsert.trans hmap
    · obtain ⟨n, hn, -, hrelease⟩ := reserved_release hp.laid hnode hc rfl
        (mapPages L mm.kmalloc.2.paging (p.vcb.insert mm.kmalloc.2.fuel mm.kmalloc.1 r).cr3 va
          (pageMask pa) (pageMask (size + (pa - pageMask pa) + 4095) / 4096) flags).2
      rw [hrelease]
      exact (hinsert.trans hmap).trans (hdelete _ hn)

theorem vmmFreePages_keeps (va : Nat) :
    let res := vmmFreePages mm p.vcb va
    Keeps L mm p.vcb res.1 res.2 := by
  intro res
  simp only [res, vmmFreePages]
  cases hfind : p.vcb.find mm.fuel fun r => r.contains va && r.ownPhys with
  | none => exact Keeps.refl L mm p.vcb
  | some n => exact keeps_remove hp hm (Vcb.Ok.find_some hfind).1 rfl rfl rfl

theorem vmmUnmapMemory_keeps (va size : Nat) :
    let res := vmmUnmapMemory mm p va size
    Keeps L mm p.vcb res.2.1 res.2.2.vcb := by
  intro res
  simp only [res, vmmUnmapMemory]
  split
  · exact Keeps.refl L mm p.vcb
  split_ifs
  · exact Keeps.refl L mm p.vcb
  rcases vmmMmapRelease_cases mm p.vcb va size with heq | ⟨n, hn, -, -, heq⟩
  · rw [heq]
    exact Keeps.refl L mm p.vcb
  · rw [heq]
    exact keeps_remove hp hm hn rfl rfl rfl

theorem vmmUnmapFixed_keeps (va size : Nat) :
    let res := vmmUnmapFixed mm p va size
    Keeps L mm p.vcb res.2.1 res.2.2.vcb := by
  intro res
  simp only [res, vmmUnmapFixed]
  split
  · exact Keeps.refl L mm p.vcb
  split_ifs
  · exact Keeps.refl L mm p.vcb
  cases hfind : p.vcb.find mm.fuel fun r => r.contains va with
  | none => exact Keeps.refl L mm p.vcb
  | some n =>
    have hn := (Vcb.Ok.find_some hfind).1
    dsimp only
    split_ifs
    · exact Keeps.refl L mm p.vcb
    · exact keeps_remove hp hm hn rfl rfl rfl
    · exact keeps_remove hp hm hn rfl rfl rfl

/-- Every operation keeps account of locks, heap and pool. -/
theorem VmmOp.exec_keeps {op : VmmOp} (hr : ∀ r, op.Tries mm p r → Placeable L mm r) :
    Keeps L mm p.vcb (op.exec L mm p).1 (op.exec L mm p).2.vcb := by
  cases op with
  | allocPages pageCnt flags => exact vmmAllocPages_keeps hp hm hr
  | freePages va => exact vmmFreePages_keeps hp hm va
  | mapMemory pa size flags => exact vmmMapMemory_keeps hp hm hr
  | unmapMemory va size => exact vmmUnmapMemory_keeps hp hm va size
  | mapFixed pa va size flags own => exact vmmMapFixed_keeps hp hm fun h => hr _ ⟨h, rfl⟩
  | unmapFixed va size => exact vmmUnmapFixed_keeps hp hm va size

end Operations

/-! ## The blocks of physical memory -/

/-- The block was in use and has not been handed over. -/
def stays (mm₀ : Resources) (handed : List VmmRegion) (b : Nat) : Bool :=
  mm₀.pmm.bitmapTest b && !handed.any fun r => decide (r.HasBlock b)

theorem stays_append (mm₀ : Resources) (handed : List VmmRegion) (r : VmmRegion) (b : Nat) :
    stays mm₀ (handed ++ [r]) b = (stays mm₀ handed b && !decide (r.HasBlock b)) := by
  simp [stays, Bool.and_assoc]

/-- The blocks that no region owns are in use just when they were before and have not been handed
over; the others will not be in use. -/
structure Ledger (mm₀ : Resources) (handed : List VmmRegion) (mm : Resources) (p : Pcb) : Prop where
  shape : mm₀.pmm.SameShape mm.pmm
  test : ∀ b < mm₀.pmm.totalBlocks, (∀ r ∈ p.regions mm, r.ownPhys = true → ¬r.HasBlock b) →
    mm.pmm.bitmapTest b = stays mm₀ handed b
  owned : ∀ b < mm₀.pmm.totalBlocks, ∀ r ∈ p.regions mm, r.ownPhys = true → r.HasBlock b →
    stays mm₀ handed b = false

/-- Every transition keeps account of the blocks. -/
theorem Ledger.effect {mm₀ : Resources} {handed : List VmmRegion} {e : Event}
    (h : Ledger mm₀ handed mm p) (he : Effect L dirs e mm p mm' p')
    (hremove : ∀ r, e = .remove r → r.ownPhys = false) :
    Ledger mm₀ (handed ++ e.handed.toList) mm' p' := by
  have htest {b : Nat} (hb : b < mm₀.pmm.totalBlocks) :
      mm'.pmm.bitmapTest b = e.bits mm.pmm.bitmapTest b :=
    he.pmm.test b (h.shape.totalBlocks ▸ hb)
  have hregions := he.regions
  have hshape := h.shape.trans he.pmm.shape
  have hnil (hnone : e.handed = none) : handed ++ e.handed.toList = handed := by
    rw [hnone]
    exact List.append_nil handed
  cases e with
  | place r =>
    have hmem {r' : VmmRegion} : r' ∈ p'.regions mm' ↔ r' = r ∨ r' ∈ p.regions mm :=
      (List.Perm.mem_iff hregions).trans List.mem_cons
    cases hown : r.ownPhys with
    | true =>
      -- the caller hands the blocks of the region over
      rw [Event.handed, if_pos hown, Option.toList_some]
      refine ⟨hshape, fun b hb hnone => ?_, fun b hb r' hr' hown' hblock => ?_⟩
      · have hr : ¬r.HasBlock b := hnone r (hmem.mpr (Or.inl rfl)) hown
        rw [htest hb, stays_append, decide_eq_false hr, Bool.not_false, Bool.and_true]
        exact h.test b hb fun r' hr' => hnone r' (hmem.mpr (Or.inr hr'))
      · grind [stays_append, h.owned]
    | false =>
      rw [hnil (if_neg (by simp [hown]))]
      refine ⟨hshape, fun b hb hnone => ?_, fun b hb r' hr' hown' => ?_⟩
      · rw [htest hb]
        exact h.test b hb fun r' hr' => hnone r' (hmem.mpr (Or.inr hr'))
      · grind [h.owned]
  | acquire r =>
    have hmem {r' : VmmRegion} : r' ∈ p'.regions mm' ↔ r' = r ∨ r' ∈ p.regions mm :=
      (List.Perm.mem_iff hregions).trans List.mem_cons
    obtain ⟨-, hown, hfree⟩ := he.ok
    rw [hnil rfl]
    refine ⟨hshape, fun b hb hnone => ?_, fun b hb r' hr' hown' hblock => ?_⟩
    · have hr : ¬r.HasBlock b := hnone r (hmem.mpr (Or.inl rfl)) hown
      rw [htest hb]
      change (decide (r.HasBlock b) || mm.pmm.bitmapTest b) = _
      rw [decide_eq_false hr, Bool.false_or]
      exact h.test b hb fun r' hr' => hnone r' (hmem.mpr (Or.inr hr'))
    · grind [h.owned, h.test]
  | dispose r =>
    have hmem {r' : VmmRegion} : r' ∈ p.regions mm ↔ r' = r ∨ r' ∈ p'.regions mm' :=
      (List.Perm.mem_iff hregions).trans List.mem_cons
    rw [hnil rfl]
    refine ⟨hshape, fun b hb hnone => ?_,
      fun b hb r' hr' => h.owned b hb r' (hmem.mpr (Or.inr hr'))⟩
    rw [htest hb]
    change (!decide (r.HasBlock b) && mm.pmm.bitmapTest b) = _
    by_cases hblock : r.HasBlock b
    · rw [decide_eq_true hblock, Bool.not_true, Bool.false_and,
        h.owned b hb r (hmem.mpr (Or.inl rfl)) he.ok hblock]
    · grind [h.test]
  | remove r =>
    have hmem {r' : VmmRegion} : r' ∈ p.regions mm ↔ r' = r ∨ r' ∈ p'.regions mm' :=
      (List.Perm.mem_iff hregions).trans List.mem_cons
    rw [hnil rfl]
    refine ⟨hshape, fun b hb hnone => ?_,
      fun b hb r' hr' => h.owned b hb r' (hmem.mpr (Or.inr hr'))⟩
    rw [htest hb]
    refine h.test b hb fun r' hr' hown' => ?_
    rcases hmem.mp hr' with rfl | hrest
    · rw [hremove r' rfl] at hown'
      cases hown'
    · exact hnone r' hrest hown'
  | quiet | cancel r | grant c | drop =>
    have hmem {r' : VmmRegion} : r' ∈ p'.regions mm' ↔ r' ∈ p.regions mm :=
      List.Perm.mem_iff hregions
    rw [hnil rfl]
    refine ⟨hshape, fun b hb hnone => ?_, fun b hb r' hr' => h.owned b hb r' (hmem.mp hr')⟩
    rw [htest hb]
    exact h.test b hb fun r' hr' => hnone r' (hmem.mpr hr')

/-! ## Creation and destruction -/

/-- What a new address space has taken. -/
structure Opens (L : Layout) (mm mm' : Resources) (v : Vcb) : Prop where
  lock : mm.locks v.lock = false
  locks : mm'.locks = Function.update mm.locks v.lock true
  live : mm'.kheap.live = v.tree.nil :: v.treeAddr :: mm.kheap.live
  pool : Accounts L mm.paging.poolUsed v.dir mm'.paging

theorem treeCreate_live {mm' : Resources} {addr : Nat} {tree : RbTree}
    (h : treeCreate mm = (some (addr, tree), mm')) :
    mm'.kheap.live = tree.nil :: addr :: mm.kheap.live ∧ mm'.locks = mm.locks ∧
      mm'.paging = mm.paging := by
  unfold treeCreate at h
  dsimp only at h
  by_cases haddr : mm.kmalloc.1 = 0
  · rw [if_pos haddr] at h
    cases h
  by_cases hnil : mm.kmalloc.2.kmalloc.1 = 0
  · rw [if_neg haddr, if_pos hnil] at h
    cases h
  rw [if_neg haddr, if_neg hnil] at h
  cases h
  refine ⟨?_, rfl, rfl⟩
  rw [kmalloc_live hnil, kmalloc_live haddr]
  rfl

theorem spinlockAlloc_some {lock : Nat} (h : mm.spinlockAlloc = (some lock, mm')) :
    mm.locks lock = false ∧
      mm' = ⟨mm.pmm, mm.paging, mm.kheap, Function.update mm.locks lock true⟩ := by
  unfold spinlockAlloc at h
  split at h
  · rename_i i hfree
    obtain ⟨rfl, rfl⟩ : i = lock ∧ _ = mm' := by simpa using h
    exact ⟨(firstFree_some hfree).2.2, rfl⟩
  · cases h

theorem spinlockAlloc_none (h : mm.spinlockAlloc = (none, mm')) : mm' = mm := by
  unfold spinlockAlloc at h
  split at h
  · cases h
  · cases h
    rfl

/-- What `vmm_create` takes. -/
theorem vmmCreate_opens (hm : mm.Ok L dirs) (h : vmmCreate L mm = (.ok v, mm')) :
    Opens L mm mm' v := by
  unfold vmmCreate at h
  split at h
  · cases h
  rename_i lock mm₁ hlock
  obtain ⟨hfree, rfl⟩ := spinlockAlloc_some hlock
  split at h
  · cases h
  rename_i addr tree mm₂ htree
  obtain ⟨hlive, hlocks, hpaging⟩ := treeCreate_live htree
  dsimp only at h
  rw [hpaging] at h
  rcases archPagingPoolAlloc_cases (L := L) hm.paging.poolLock with heq | ⟨j, -, hslot, -, heq⟩
  · rw [heq, if_pos rfl] at h
    cases h
  rcases archCloneKernelPde_created hm.paging with hfull | ⟨d, pg₁, pg₂, hpool, hclone, hcreated⟩
  · rw [hfull, if_pos rfl] at h
    cases h
  have hne : d * 4096 ≠ 0 := Nat.mul_ne_zero hcreated.pos (by decide)
  rw [hpool] at h
  simp only [if_neg hne, withPaging_paging, hclone] at h
  obtain ⟨rfl, rfl⟩ : Vcb.mk tree addr (fun _ => ⟨0, 0, 0, 0, false⟩) (d * 4096) lock = v ∧
      (mm₂.withPaging pg₁).withPaging pg₂ = mm' := by
    simpa using h
  have hdir : d * 4096 / 4096 = d := Nat.mul_div_cancel _ (by decide)
  -- the slot that the pool has handed out is the one of the directory
  rw [heq] at hpool
  obtain ⟨hframe, rfl⟩ := Prod.mk.inj hpool
  have hused : pg₂.poolUsed = Function.update mm.paging.poolUsed j true := by
    have hsnd : (archCloneKernelPde _ _).2 = pg₂ := congrArg Prod.snd hclone
    rw [← hsnd]
    unfold archCloneKernelPde
    split_ifs <;> rfl
  refine ⟨hfree, hlocks, hlive, ?_⟩
  change Accounts L mm.paging.poolUsed (d * 4096 / 4096) pg₂
  rw [hdir]
  exact accounts_clone hslot (by omega) hcreated.table_new
    (hcreated.table _ hm.paging.master_mem) hused

/-- The state between creation and destruction: the accounts, and how they began. -/
structure Open (L : Layout) (mm₀ : Resources) (handed : List VmmRegion) (mm : Resources) (p : Pcb) :
    Prop where
  lock : mm₀.locks p.vcb.lock = false
  locks : mm.locks = Function.update mm₀.locks p.vcb.lock true
  live : mm.kheap.live.Perm
    (p.vcb.nodes mm.fuel ++ p.vcb.tree.nil :: p.vcb.treeAddr :: mm₀.kheap.live)
  pool : Accounts L mm₀.paging.poolUsed p.vcb.dir mm.paging
  ledger : Ledger mm₀ handed mm p

theorem Open.step {mm₀ : Resources} {handed : List VmmRegion} {e : Event}
    (h : Open L mm₀ handed mm p) (hkeeps : Keeps L mm p.vcb mm' p'.vcb)
    (he : Effect L dirs e mm p mm' p') (hremove : ∀ r, e = .remove r → r.ownPhys = false) :
    Open L mm₀ (handed ++ e.handed.toList) mm' p' where
  lock := hkeeps.lock ▸ h.lock
  locks := by rw [hkeeps.locks, hkeeps.lock, h.locks]
  live := by
    rw [hkeeps.nil, hkeeps.treeAddr]
    exact hkeeps.live _ h.live
  pool := hkeeps.pool _ h.pool
  ledger := h.ledger.effect he hremove

theorem Opens.toOpen (h : Opens L mm mm' p.vcb) (hfresh : FreshSpace L dirs mm mm' p.vcb) :
    Open L mm [] mm' p := by
  have hregions : p.regions mm' = [] := hfresh.regions
  have hnodes : p.vcb.nodes mm'.fuel = [] := List.map_eq_nil_iff.mp hfresh.regions
  refine ⟨h.lock, h.locks, ?_, h.pool, ?_, fun b hb _ => ?_, fun b hb r hr => ?_⟩
  · rw [hnodes, h.live]
    exact List.Perm.refl _
  · exact hfresh.pmm ▸ Pmm.SameShape.refl _
  · rw [hfresh.pmm]
    simp [stays]
  · rw [hregions] at hr
    cases hr

/-- `vmm_destroy` closes the accounts. -/
theorem Open.destroy {mm₀ : Resources} {handed : List VmmRegion} (h : Open L mm₀ handed mm p)
    (hm : mm.Ok L dirs) (hp : p.Sound L dirs mm) :
    let mm' := vmmDestroy L mm p.vcb
    (∀ b < mm₀.pmm.totalBlocks, mm'.pmm.bitmapTest b = stays mm₀ handed b) ∧
      mm'.paging.poolUsed = mm₀.paging.poolUsed ∧ mm'.locks = mm₀.locks ∧
      mm'.kheap.live.Perm mm₀.kheap.live := by
  intro mm'
  have hstep {mm₁ : Resources} {p₁ : Pcb} {x : Nat} {xs : List Nat} (hm₁ : mm₁.Ok L dirs)
      (hp₁ : p₁.Sound L dirs mm₁) (hns : p₁.vcb.nodes mm₁.fuel = x :: xs)
      (hi : Open L mm₀ handed mm₁ p₁) :
      Open L mm₀ handed (destroyRegion mm₁ p₁.vcb x).1
        (p₁.withVcb (p₁.vcb.delete mm₁.fuel x)) := by
    have hx : x ∈ p₁.vcb.nodes mm₁.fuel := hns ▸ List.mem_cons_self
    have hkeeps : Keeps L mm₁ p₁.vcb (destroyRegion mm₁ p₁.vcb x).1 (p₁.vcb.delete mm₁.fuel x) := by
      unfold destroyRegion
      dsimp only
      split_ifs
      · exact keeps_remove hp₁ hm₁ hx rfl rfl rfl
      · exact keeps_remove hp₁ hm₁ hx rfl rfl rfl
    have hnext := hi.step (show Keeps L mm₁ p₁.vcb (destroyRegion mm₁ p₁.vcb x).1
        (p₁.withVcb (p₁.vcb.delete mm₁.fuel x)).vcb from hkeeps)
      (destroyRegion_effect hm₁ hp₁ hx) fun r hr => by
        unfold leave at hr
        split_ifs at hr with hown
        cases hr
        exact eq_false_of_ne_true hown
    rwa [leave, Event.handed_ite_leave, Option.toList_none, List.append_nil] at hnext
  obtain ⟨mm₁, v₁, hloop, hi, hm₁, hp₁, hnodes⟩ :=
    destroyLoop_keeps (I := Open L mm₀ handed) hstep hm hp rfl hp.tree.length_nodes_lt h
  have hregions : (p.withVcb v₁).regions mm₁ = [] := congrArg (List.map v₁.region) hnodes
  have hcr3 : v₁.cr3 = v₁.dir * 4096 := hp₁.cr3
  have heq : mm' = _ := vmmDestroy_eq hloop hp.tree
  rw [heq]
  refine ⟨fun b hb => ?_, ?_, ?_, ?_⟩
  · refine hi.ledger.test b hb fun r hr => ?_
    rw [hregions] at hr
    cases hr
  · rw [hcr3]
    exact hi.pool.destroy hm₁.paging hp₁.dir_mem hp₁.dir_ne hp₁.dir_pos
  · change Function.update mm₁.locks v₁.lock false = mm₀.locks
    rw [hi.locks]
    change Function.update (Function.update mm₀.locks v₁.lock true) v₁.lock false = mm₀.locks
    rw [Function.update_idem, ← hi.lock]
    exact Function.update_eq_self _ _
  · have hlive := hi.live
    change mm₁.kheap.live.Perm (v₁.nodes mm₁.fuel ++ v₁.tree.nil :: v₁.treeAddr :: _) at hlive
    rw [hnodes, List.nil_append] at hlive
    have hnil := hlive.erase v₁.tree.nil
    rw [List.erase_cons_head] at hnil
    have haddr := hnil.erase v₁.treeAddr
    rwa [List.erase_cons_head] at haddr

end Ukernel.Mm
