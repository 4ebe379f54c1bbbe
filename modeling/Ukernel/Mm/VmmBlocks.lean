import Ukernel.Mm.VmmBooks

/-!
# The blocks of an address space

An address space holds blocks of the kernel heap: the tree, its sentinel, and a block for each of
its regions. The operations on it free blocks that it holds and take new ones; all other blocks are
left alone. This needs the tree to be sound and nothing else, so that it holds for all address
spaces at all times.

## Main definitions

* `Vcb.Holds`: the block belongs to the address space
* `Blocks`: only blocks of the address space have been freed, and it has gained only new ones

## Main results

* `vmmAllocPages_blocks`, `vmmFreePages_blocks`, `vmmDestroy_blocks`, `vmmCreate_blocks`
-/

namespace Ukernel.Mm

open Arch Kernel Lib Lib.RbTree Resources

variable {L : Layout} {mm mm' mm'' : Resources} {v v' v'' : Vcb} {b fuel x : Nat}

namespace Vcb

/-- The block is the one of a region. -/
def HasNode (v : Vcb) (x : Nat) : Prop := ∃ b ns, Shows b v ns ∧ x ∈ ns

/-- The block belongs to the address space. -/
def Holds (v : Vcb) (x : Nat) : Prop := v.HasNode x ∨ x = v.tree.nil ∨ x = v.treeAddr

/-- The blocks of the regions are those that a loop visits. -/
theorem Ok.hasNode_iff (h : v.Ok b) (hfuel : b < fuel) : v.HasNode x ↔ x ∈ v.nodes fuel := by
  constructor
  · rintro ⟨b', ns, hns, hx⟩
    have h₁ : v.nodes (fuel + b' + 1) = ns := hns.nodes_eq (by omega)
    have h₂ : v.nodes (fuel + b' + 1) = v.nodes fuel := h.nodes_congr hfuel (by omega)
    rw [← h₂, h₁]
    exact hx
  · intro hx
    obtain ⟨ns, hns⟩ := h
    exact ⟨b, ns, hns, hns.nodes_eq hfuel ▸ hx⟩

end Vcb

/-- Only blocks of the address space have been freed, and it has gained only new ones. -/
structure Blocks (mm : Resources) (v : Vcb) (mm' : Resources) (v' : Vcb) : Prop where
  calls : mm.kheap.calls ≤ mm'.kheap.calls
  ok : v'.Ok mm'.kheap.calls
  holds : ∀ x, v'.Holds x → v.Holds x ∨ mm.kheap.calls < x ∧ x ≤ mm'.kheap.calls
  live : ∀ x ≤ mm.kheap.calls, ¬v.Holds x → x ∈ mm.kheap.live → x ∈ mm'.kheap.live

namespace Blocks

theorem trans (h : Blocks mm v mm' v') (h' : Blocks mm' v' mm'' v'') : Blocks mm v mm'' v'' := by
  refine ⟨h.calls.trans h'.calls, h'.ok, fun x hx => ?_, fun x hle hx hlive => ?_⟩
  · grind [h'.holds, h.holds, h'.calls, h.calls.trans_lt]
  · grind [h'.live, h.calls, h.live, h.holds]

variable (hv : v.Ok mm.kheap.calls)

include hv

/-- The heap plays no part. -/
theorem of_kheap (h : mm'.kheap = mm.kheap) : Blocks mm v mm' v := by
  refine ⟨by rw [h], by rwa [h], fun x hx => Or.inl hx, fun x _ _ hlive => ?_⟩
  rwa [h]

/-- A request, whatever the answer. -/
theorem kmalloc : Blocks mm v mm.kmalloc.2 v := by
  refine ⟨(same_kmalloc mm).calls, hv.mono (same_kmalloc mm).calls, fun x hx => Or.inl hx,
    fun x _ _ hlive => ?_⟩
  by_cases h : mm.kmalloc.1 = 0
  · rwa [kmalloc_live_of_zero h]
  · rw [kmalloc_live h]
    exact List.mem_cons_of_mem _ hlive

/-- A block that is not needed after all. -/
theorem kmalloc_kfree (h : mm.kmalloc.1 ≠ 0) :
    Blocks mm v (mm.kmalloc.2.kfree mm.kmalloc.1) v := by
  have hk : Blocks mm v mm.kmalloc.2 v := kmalloc hv
  refine ⟨hk.calls, hk.ok, hk.holds, fun x _ _ hlive => ?_⟩
  change x ∈ mm.kmalloc.2.kheap.live.erase mm.kmalloc.1
  rwa [kmalloc_live h, List.erase_cons_head]

/-- A new block becomes a node of the tree. -/
theorem insert (h : mm.kmalloc.1 ≠ 0) (r : VmmRegion) :
    Blocks mm v mm.kmalloc.2 (v.insert mm.kmalloc.2.fuel mm.kmalloc.1 r) ∧
      mm.kmalloc.1 ∈ (v.insert mm.kmalloc.2.fuel mm.kmalloc.1 r).nodes mm.kmalloc.2.fuel := by
  have hcalls : mm.kmalloc.2.kheap.calls = mm.kheap.calls + 1 := mm.kheap.kmalloc_calls
  have hname : mm.kmalloc.1 = mm.kheap.calls + 1 := Arena.kmalloc_name h
  obtain ⟨hok, -, hnodes, hnil⟩ := hv.insert_kmalloc h r
  refine ⟨⟨(kmalloc hv).calls, hok, fun y hy => ?_, (kmalloc hv).live⟩,
    hnodes.mem_iff.mpr List.mem_cons_self⟩
  rcases hy with hnode | hrest
  · rw [hok.hasNode_iff (Nat.lt_succ_self _)] at hnode
    rcases List.mem_cons.mp (hnodes.mem_iff.mp hnode) with rfl | hnode
    · exact Or.inr ⟨by omega, by omega⟩
    · exact Or.inl (Or.inl ((hv.hasNode_iff (Nat.lt_succ_self _)).mpr hnode))
  · rw [hnil] at hrest
    exact Or.inl (Or.inr hrest)

/-- A node leaves the tree and its block goes back. -/
theorem delete {n : Nat} (hn : n ∈ v.nodes mm.fuel) (hk : mm'.kheap = (mm.kfree n).kheap) :
    Blocks mm v mm' (v.delete mm.fuel n) := by
  have hcalls : mm'.kheap.calls = mm.kheap.calls := by
    rw [hk]
    rfl
  obtain ⟨hok, -⟩ := hv.delete hn (Nat.lt_succ_self _)
  obtain ⟨hnodes, hnil⟩ := hv.delete_nodes hn (Nat.lt_succ_self _)
  refine ⟨hcalls.ge, hcalls.symm ▸ hok, fun y hy => Or.inl ?_, fun y _ hy hlive => ?_⟩
  · rcases hy with hnode | hrest
    · rw [hok.hasNode_iff (Nat.lt_succ_self _)] at hnode
      exact Or.inl ((hv.hasNode_iff (Nat.lt_succ_self _)).mpr
        (hnodes.mem_iff.mpr (List.mem_cons_of_mem _ hnode)))
    · rw [hnil] at hrest
      exact Or.inr hrest
  · have hne : y ≠ n := fun heq =>
      hy (Or.inl ((hv.hasNode_iff (Nat.lt_succ_self _)).mpr (heq ▸ hn)))
    rw [hk]
    exact (List.mem_erase_of_ne hne).mpr hlive

end Blocks

theorem vmmAllocPages_blocks (L : Layout) (hv : v.Ok mm.kheap.calls) (pageCnt flags : Nat) :
    Blocks mm v (vmmAllocPages L mm v pageCnt flags).2.1
      (vmmAllocPages L mm v pageCnt flags).2.2 := by
  unfold vmmAllocPages
  dsimp only
  have hpmm : Blocks mm v (mm.withPmm (mm.pmm.pmmAllocPages pageCnt).2) v := .of_kheap hv rfl
  by_cases hzero : pageCnt = 0
  · rw [if_pos hzero]
    exact .of_kheap hv rfl
  rw [if_neg hzero]
  by_cases hpa : (mm.pmm.pmmAllocPages pageCnt).1 = 0
  · rw [if_pos hpa]
    exact hpmm
  rw [if_neg hpa]
  generalize mm.withPmm (mm.pmm.pmmAllocPages pageCnt).2 = mm₁ at hpmm ⊢
  by_cases hnode : mm₁.kmalloc.1 = 0
  · rw [if_pos hnode]
    have hk : Blocks mm₁ v mm₁.kmalloc.2 v := .kmalloc hpmm.ok
    exact (hpmm.trans hk).trans (.of_kheap hk.ok rfl)
  rw [if_neg hnode]
  split
  · have hk : Blocks mm₁ v (mm₁.kmalloc.2.kfree mm₁.kmalloc.1) v := .kmalloc_kfree hpmm.ok hnode
    exact (hpmm.trans hk).trans (.of_kheap hk.ok rfl)
  · rename_i va _
    unfold placeRegion
    dsimp only
    set r : VmmRegion :=
      ⟨va, pageCnt * 4096 % 2 ^ 32, flags, (mm.pmm.pmmAllocPages pageCnt).1, true⟩
    obtain ⟨hinsert, hmem⟩ := Blocks.insert hpmm.ok hnode r
    by_cases hok : (mapPages L mm₁.kmalloc.2.paging
      (v.insert mm₁.kmalloc.2.fuel mm₁.kmalloc.1 r).cr3
        r.startVa r.pa (r.size / 4096) r.flags).1 = true
    · rw [if_pos hok]
      exact (hpmm.trans hinsert).trans (.of_kheap hinsert.ok rfl)
    · rw [if_neg hok]
      exact (hpmm.trans hinsert).trans (.delete hinsert.ok hmem rfl)

theorem vmmFreePages_blocks (hv : v.Ok mm.kheap.calls) (va : Nat) :
    Blocks mm v (vmmFreePages mm v va).1 (vmmFreePages mm v va).2 := by
  unfold vmmFreePages
  cases hfind : v.find mm.fuel fun r => r.contains va && r.ownPhys with
  | none => exact .of_kheap hv rfl
  | some n => exact .delete hv (Vcb.Ok.find_some hfind).1 rfl

/-- Destruction frees the blocks of the address space and no other. -/
theorem vmmDestroy_blocks (L : Layout) (hv : v.Ok mm.kheap.calls) (hx : ¬v.Holds x)
    (hlive : x ∈ mm.kheap.live) : x ∈ (vmmDestroy L mm v).kheap.live := by
  let I (mm₁ : Resources) (v₁ : Vcb) : Prop := v₁.Ok mm₁.kheap.calls ∧ ¬v₁.Holds x ∧
    x ∈ mm₁.kheap.live
  have hlen : (v.nodes mm.fuel).length < mm.fuel := by
    obtain ⟨ns, h⟩ := hv
    have heq : v.nodes mm.fuel = ns := h.nodes_eq (Nat.lt_succ_self _)
    rw [heq]
    exact Nat.lt_succ_of_le h.length_le
  obtain ⟨mm₁, v₁, hloop, ⟨-, hx₁, hlive₁⟩, -⟩ := destroyLoop_visits (I := I)
    (fun {mm₁ v₁ n ns} hv₁ hns hi => by
      have hblocks : Blocks mm₁ v₁ (destroyRegion mm₁ v₁ n).1 (v₁.delete mm₁.fuel n) := by
        refine .delete hv₁ (hns ▸ List.mem_cons_self) ?_
        unfold destroyRegion
        dsimp only
        split_ifs <;> rfl
      have hcalls : (destroyRegion mm₁ v₁ n).1.kheap.calls = mm₁.kheap.calls :=
        Nat.succ.inj (destroyRegion_vcb mm₁ v₁ n).2
      refine ⟨hblocks.ok, fun hheld => ?_, ?_⟩
      · grind [hblocks.holds]
      · have hne : x ≠ n := fun heq => hi.2.1 (Or.inl ((hi.1.hasNode_iff (Nat.lt_succ_self _)).mpr
          (heq ▸ hns ▸ List.mem_cons_self)))
        unfold destroyRegion
        dsimp only
        split_ifs
        · exact (List.mem_erase_of_ne hne).mpr hi.2.2
        · exact (List.mem_erase_of_ne hne).mpr hi.2.2)
    hv rfl hlen ⟨hv, hx, hlive⟩
  rw [vmmDestroy_eq hloop hv]
  have hnil : x ≠ v₁.tree.nil := fun heq => hx₁ (Or.inr (Or.inl heq))
  have haddr : x ≠ v₁.treeAddr := fun heq => hx₁ (Or.inr (Or.inr heq))
  exact (List.mem_erase_of_ne haddr).mpr ((List.mem_erase_of_ne hnil).mpr hlive₁)

/-! ## Creation -/

theorem treeCreate_blocks (mm : Resources) :
    (∀ x ≤ mm.kheap.calls, x ∈ mm.kheap.live → x ∈ (treeCreate mm).2.kheap.live) ∧
      ∀ addr tree, (treeCreate mm).1 = some (addr, tree) →
        tree = rbtreeCreate (fun _ => ⟨.red, 0, 0, 0⟩) tree.nil ∧
        ∀ x, x = tree.nil ∨ x = addr → mm.kheap.calls < x ∧ x ≤ (treeCreate mm).2.kheap.calls := by
  have hcalls : mm.kmalloc.2.kheap.calls = mm.kheap.calls + 1 := mm.kheap.kmalloc_calls
  have hcalls' : mm.kmalloc.2.kmalloc.2.kheap.calls = mm.kmalloc.2.kheap.calls + 1 :=
    mm.kmalloc.2.kheap.kmalloc_calls
  have hkeep (mm : Resources) {x : Nat} (hx : x ∈ mm.kheap.live) : x ∈ mm.kmalloc.2.kheap.live := by
    grind [kmalloc_live_of_zero, kmalloc_live]
  unfold treeCreate
  dsimp only
  split_ifs with haddr hnil
  · exact ⟨fun x _ hx => hkeep mm hx, fun _ _ h => nomatch h⟩
  · -- the first block goes back
    refine ⟨fun x hle hx => ?_, fun _ _ h => nomatch h⟩
    have hname : mm.kmalloc.1 = mm.kheap.calls + 1 := Arena.kmalloc_name haddr
    exact (List.mem_erase_of_ne (by omega)).mpr (hkeep _ (hkeep mm hx))
  · refine ⟨fun x _ hx => hkeep _ (hkeep mm hx), fun addr tree h => ?_⟩
    have hname : mm.kmalloc.1 = mm.kheap.calls + 1 := Arena.kmalloc_name haddr
    have hname' : mm.kmalloc.2.kmalloc.1 = mm.kmalloc.2.kheap.calls + 1 := Arena.kmalloc_name hnil
    cases h
    refine ⟨rfl, fun x hx => ?_⟩
    change x = mm.kmalloc.2.kmalloc.1 ∨ x = mm.kmalloc.1 at hx
    change mm.kheap.calls < x ∧ x ≤ mm.kmalloc.2.kmalloc.2.kheap.calls
    omega

/-- Creation frees no block that was there, and a new address space holds only new ones. -/
theorem vmmCreate_blocks (L : Layout) (mm : Resources) :
    (∀ x ≤ mm.kheap.calls, x ∈ mm.kheap.live → x ∈ (vmmCreate L mm).2.kheap.live) ∧
      ∀ v, (vmmCreate L mm).1 = .ok v → v.Ok (vmmCreate L mm).2.kheap.calls ∧
        ∀ x, v.Holds x → mm.kheap.calls < x ∧ x ≤ (vmmCreate L mm).2.kheap.calls := by
  unfold vmmCreate
  have hlock : mm.spinlockAlloc.2.kheap = mm.kheap := by
    unfold spinlockAlloc
    split <;> rfl
  generalize mm.spinlockAlloc = res at hlock ⊢
  obtain ⟨_ | lock, mm₁⟩ := res
  · grind
  dsimp only at hlock ⊢
  rw [← hlock]
  obtain ⟨hlive, htree⟩ := treeCreate_blocks mm₁
  generalize treeCreate mm₁ = res at hlive htree ⊢
  obtain ⟨_ | ⟨addr, tree⟩, mm₂⟩ := res
  · exact ⟨hlive, fun _ h => nomatch h⟩
  obtain ⟨hmade, hnew⟩ := htree addr tree rfl
  dsimp only at hlive hnew ⊢
  -- a tree that is not needed goes back
  have hback {mm₃ : Resources} (hk : mm₃.kheap = mm₂.kheap) (x : Nat) (hle : x ≤ mm₁.kheap.calls)
      (hx : x ∈ mm₁.kheap.live) : x ∈ (treeDestroy mm₃ addr tree).kheap.live := by
    have h₁ := hnew tree.nil (Or.inl rfl)
    have h₂ := hnew addr (Or.inr rfl)
    change x ∈ (mm₃.kheap.live.erase tree.nil).erase addr
    rw [hk]
    exact (List.mem_erase_of_ne (by omega)).mpr ((List.mem_erase_of_ne (by omega)).mpr
      (hlive x hle hx))
  split_ifs
  · exact ⟨hback rfl, fun _ h => nomatch h⟩
  · exact ⟨hback rfl, fun _ h => nomatch h⟩
  · refine ⟨hlive, fun v hv => ?_⟩
    cases hv
    have hok (cr3 : Nat) : (Vcb.mk tree addr (fun _ => ⟨0, 0, 0, 0, false⟩) cr3 lock).Ok
        mm₂.kheap.calls := by grind [ok_create]
    refine ⟨hok _, fun x hx => ?_⟩
    rcases hx with hnode | hrest
    · -- there is no region yet
      rw [(hok _).hasNode_iff (Nat.lt_succ_self _)] at hnode
      have hroot : tree.root = tree.nil := by
        rw [hmade]
        rfl
      have hnone {cr3 : Nat} : (Vcb.mk tree addr (fun _ => ⟨0, 0, 0, 0, false⟩) cr3 lock).nodes
          mm₂.kheap.calls.succ = [] :=
        List.map_eq_nil_iff.mp (((hok cr3).root_eq_nil_iff (Nat.lt_succ_self _)).mp hroot)
      rw [hnone] at hnode
      exact absurd hnode List.not_mem_nil
    · exact hnew x hrest

end Ukernel.Mm
