import Ukernel.Mm.VmmSpec

/-!
# The life of an address space

An address space begins as a copy of the kernel's directory without regions. When it is destroyed
its regions leave one by one, in the order of the tree, and then its directory goes.

## Main results

* `vmmCreate_cases`: what a new address space looks like
* `destroyLoop_keeps`: what every transition keeps, the end of an old one keeps
-/

namespace Ukernel.Mm

open Arch Kernel Lib Lib.RbTree VmmRegion Resources

variable {L : Layout} {dirs : Set Nat} {mm mm' : Resources} {p p' : Pcb}

/-! ## Creation -/

theorem ok_create {nil b : Nat} (hb : nil ≤ b) (addr cr3 lock : Nat) (region : Nat → VmmRegion)
    (mem : Nat → RbNode) : (Vcb.mk (rbtreeCreate mem nil) addr region cr3 lock).Ok b := by
  refine ⟨[], ⟨.nil, ?_, ⟨0, .nil⟩, rfl⟩, List.Pairwise.nil, fun n hn => ?_, hb⟩
  · refine ⟨⟨rfl, trivial, List.nodup_nil⟩, ?_⟩
    simp [rbtreeCreate]
  · cases hn

theorem treeCreate_cases (mm : Resources) :
    (∃ mm', treeCreate mm = (none, mm') ∧ Same mm mm') ∨
      ∃ addr nil mm', treeCreate mm = (some (addr, rbtreeCreate (fun _ => ⟨.red, 0, 0, 0⟩) nil),
        mm') ∧ Same mm mm' ∧ nil ≤ mm'.kheap.calls := by
  unfold treeCreate
  have hs := (same_kmalloc mm).trans (same_kmalloc mm.kmalloc.2)
  dsimp only
  split_ifs with haddr hnil
  · exact Or.inl ⟨_, rfl, same_kmalloc mm⟩
  · exact Or.inl ⟨_, rfl, hs.trans (same_kfree _ _)⟩
  · refine Or.inr ⟨_, _, _, rfl, hs, Nat.le_of_eq ?_⟩
    have hname : mm.kmalloc.2.kmalloc.1 = mm.kmalloc.2.kheap.calls + 1 := Arena.kmalloc_name hnil
    rw [hname]
    exact (mm.kmalloc.2.kheap.kmalloc_calls).symm

theorem same_treeDestroy (mm : Resources) (addr : Nat) (tree : RbTree) :
    Same mm (treeDestroy mm addr tree) :=
  (same_kfree _ _).trans (same_kfree _ _)

/-- What a new address space looks like. -/
structure FreshSpace (L : Layout) (dirs : Set Nat) (mm mm' : Resources) (v : Vcb) : Prop where
  paging : Created L dirs v.dir mm.paging mm'.paging
  pmm : mm'.pmm = mm.pmm
  calls : mm.kheap.calls ≤ mm'.kheap.calls
  cr3 : v.cr3 = v.dir * 4096
  tree : v.Ok mm'.kheap.calls
  regions : v.regions mm'.fuel = []

theorem FreshSpace.laid (h : FreshSpace L dirs mm mm' p.vcb)
    (hcaps : ∀ e ∈ p.capabilities, e.cap.Mem CapMem.Ok) :
    p.Laid L (insert p.vcb.dir dirs) mm' := by
  have hregions : p.regions mm' = [] := h.regions
  refine ⟨h.tree, h.cr3, Set.mem_insert _ _, h.paging.pos, h.paging.ne_master, ?_, ?_, ?_, hcaps⟩
  · simp [hregions]
  · simp [hregions]
  · simp [hregions]

/-- A new address space is sound. -/
theorem FreshSpace.sound (h : FreshSpace L dirs mm mm' p.vcb)
    (hcaps : ∀ e ∈ p.capabilities, e.cap.Mem CapMem.Ok) :
    p.Sound L (insert p.vcb.dir dirs) mm' := by
  have hregions : p.regions mm' = [] := h.regions
  exact (h.laid hcaps).sound (by simp [hregions])

theorem FreshSpace.ok {v : Vcb} (h : FreshSpace L dirs mm mm' v) (hm : mm.Ok L dirs) :
    mm'.Ok L (insert v.dir dirs) :=
  ⟨h.paging.wf, h.pmm ▸ hm.pmm⟩

/-- `vmm_create` fails and nothing shows, or makes a new address space. -/
theorem vmmCreate_cases (hwf : mm.paging.Wf L dirs) :
    (∃ err mm', vmmCreate L mm = (.error err, mm') ∧ Same mm mm') ∨
      ∃ v mm', vmmCreate L mm = (.ok v, mm') ∧ FreshSpace L dirs mm mm' v := by
  unfold vmmCreate
  have hlock := same_spinlockAlloc mm
  rcases hl : mm.spinlockAlloc with ⟨_ | lock, mm₁⟩
  · rw [hl] at hlock
    exact Or.inl ⟨_, _, rfl, hlock⟩
  · rw [hl] at hlock
    dsimp only
    rcases treeCreate_cases mm₁ with ⟨mm₂, heq, hs⟩ | ⟨addr, nil, mm₂, heq, hs, hnil⟩
    · rw [heq]
      exact Or.inl ⟨_, _, rfl, (hlock.trans hs).trans (same_spinlockRelease _ _)⟩
    · rw [heq]
      have hsame := hlock.trans hs
      dsimp only
      rw [hsame.paging]
      rcases archCloneKernelPde_created hwf with
        hfull | ⟨d, pg₁, pg₂, hpool, hclone, hcreated⟩
      · -- the pool is exhausted: the tree and the lock go back
        rw [hfull, if_pos rfl]
        refine Or.inl ⟨_, _, rfl, Same.trans ?_ ((same_treeDestroy _ _ _).trans
          (same_spinlockRelease _ _))⟩
        exact ⟨hsame.pmm, rfl, hsame.calls⟩
      · have hne : d * 4096 ≠ 0 := Nat.mul_ne_zero hcreated.pos (by decide)
        rw [hpool]
        simp only [if_neg hne, withPaging_paging, hclone]
        have hfresh (v : Vcb) (hcr3 : v.cr3 = d * 4096) (htree : v.Ok mm₂.kheap.calls)
            (hempty : v.tree.root = v.tree.nil) :
            FreshSpace L dirs mm ((mm₂.withPaging pg₁).withPaging pg₂) v := by
          have hdir : v.dir = d := by grind [Vcb.dir]
          exact ⟨hdir.symm ▸ hcreated, hsame.pmm, hsame.calls, by rw [hdir, hcr3], htree,
            (htree.root_eq_nil_iff (Nat.lt_succ_self _)).mp hempty⟩
        exact Or.inr ⟨_, _, rfl, hfresh _ rfl (ok_create hnil _ _ _ _ _) rfl⟩

/-! ## Destruction -/

/-- One pass of the loop of `vmm_destroy`: a region leaves. -/
theorem destroyRegion_leaves {n : Nat} (hn : n ∈ p.vcb.nodes mm.fuel) :
    Leaves mm p n (destroyRegion mm p.vcb n).1 (p.withVcb (p.vcb.delete mm.fuel n)) := by
  refine ⟨hn, rfl, ?_, ?_, ?_⟩
  all_goals
    unfold destroyRegion
    dsimp only
    split_ifs <;> rfl

theorem destroyRegion_effect (hm : mm.Ok L dirs) (hp : p.Sound L dirs mm) {n : Nat}
    (hn : n ∈ p.vcb.nodes mm.fuel) :
    Effect L dirs (leave (p.vcb.region n)) mm p (destroyRegion mm p.vcb n).1
      (p.withVcb (p.vcb.delete mm.fuel n)) :=
  (destroyRegion_leaves hn).effect hm hp

theorem destroyRegion_vcb (mm : Resources) (v : Vcb) (n : Nat) :
    (destroyRegion mm v n).2 = v.delete mm.fuel n ∧ (destroyRegion mm v n).1.fuel = mm.fuel := by
  unfold destroyRegion
  dsimp only
  split_ifs <;> exact ⟨rfl, rfl⟩

/-- The loop of `vmm_destroy` visits all nodes of a sound tree, and keeps what one pass keeps. -/
theorem destroyLoop_visits {I : Resources → Vcb → Prop}
    (hstep : ∀ {mm : Resources} {v : Vcb} {x : Nat} {xs : List Nat}, v.Ok mm.kheap.calls →
      v.nodes mm.fuel = x :: xs → I mm v → I (destroyRegion mm v x).1 (v.delete mm.fuel x))
    {v : Vcb} {ns : List Nat} {steps : Nat} (hv : v.Ok mm.kheap.calls)
    (hns : v.nodes mm.fuel = ns) (hsteps : ns.length < steps) (hi : I mm v) :
    ∃ mm' v', destroyLoop steps mm v (ns.headD 0) (ns.tail.headD 0) = some (mm', v') ∧
      I mm' v' ∧ v'.nodes mm'.fuel = [] := by
  induction ns generalizing mm v steps with
  | nil =>
    obtain ⟨steps, rfl⟩ : ∃ k, steps = k + 1 := ⟨steps - 1, by simp at hsteps; omega⟩
    exact ⟨mm, v, if_pos rfl, hi, hns⟩
  | cons x xs ih =>
    obtain ⟨steps, rfl⟩ : ∃ k, steps = k + 1 := ⟨steps - 1, by simp at hsteps; omega⟩
    have hx : x ∈ v.nodes mm.fuel := hns ▸ List.mem_cons_self
    have hpos : x ≠ 0 := Nat.pos_iff_ne_zero.mp (hv.pos (Nat.lt_succ_self _) hx)
    obtain ⟨hvcb, hfuel⟩ := destroyRegion_vcb mm v x
    have hcalls : (destroyRegion mm v x).1.kheap.calls = mm.kheap.calls := Nat.succ.inj hfuel
    have hv₁ : (v.delete mm.fuel x).Ok (destroyRegion mm v x).1.kheap.calls := by
      rw [hcalls]
      exact (hv.delete hx (Nat.lt_succ_self _)).1
    have hxs₁ : (v.delete mm.fuel x).nodes (destroyRegion mm v x).1.fuel = xs := by
      rw [hfuel]
      exact hv.delete_head (Nat.lt_succ_self _) hns
    -- the node after the next one is found in the tree that deletion has left
    have hnext : (if xs.headD 0 = 0 then 0 else
        (rbtreeNext mm.fuel (v.delete mm.fuel x).tree (xs.headD 0)).getD 0) =
        xs.tail.headD 0 := by
      cases xs with
      | nil => rfl
      | cons y ys =>
        have hy : rbtreeNext (destroyRegion mm v x).1.fuel (v.delete mm.fuel x).tree y =
            some (ys.headD 0) :=
          hv₁.next (Nat.lt_succ_self _) (hxs₁.trans (List.nil_append _).symm)
        rw [hfuel] at hy
        rw [List.headD_cons, hy]
        split_ifs with hzero
        · have := hv₁.pos (Nat.lt_succ_self _) (hxs₁ ▸ List.mem_cons_self)
          omega
        · rfl
    obtain ⟨mm', v', hloop, hend⟩ := ih hv₁ hxs₁ (Nat.lt_of_succ_lt_succ hsteps)
      (hstep hv hns hi)
    refine ⟨mm', v', ?_, hend⟩
    rw [destroyLoop, List.headD_cons, if_neg hpos, List.tail_cons]
    dsimp only
    rw [hvcb, hfuel, hnext]
    exact hloop

/-- The same for a sound process. -/
theorem destroyLoop_keeps {I : Resources → Pcb → Prop}
    (hstep : ∀ {mm : Resources} {p : Pcb} {x : Nat} {xs : List Nat}, mm.Ok L dirs →
      p.Sound L dirs mm → p.vcb.nodes mm.fuel = x :: xs → I mm p →
        I (destroyRegion mm p.vcb x).1 (p.withVcb (p.vcb.delete mm.fuel x)))
    {ns : List Nat} {steps : Nat} (hm : mm.Ok L dirs) (hp : p.Sound L dirs mm)
    (hns : p.vcb.nodes mm.fuel = ns) (hsteps : ns.length < steps) (hi : I mm p) :
    ∃ mm' v', destroyLoop steps mm p.vcb (ns.headD 0) (ns.tail.headD 0) = some (mm', v') ∧
      I mm' (p.withVcb v') ∧ mm'.Ok L dirs ∧ (p.withVcb v').Sound L dirs mm' ∧
      v'.nodes mm'.fuel = [] := by
  let J (mm : Resources) (v : Vcb) : Prop :=
    mm.Ok L dirs ∧ (p.withVcb v).Sound L dirs mm ∧ I mm (p.withVcb v)
  obtain ⟨mm', v', hloop, ⟨hm', hp', hi'⟩, hnone⟩ := destroyLoop_visits (I := J)
    (fun {mm₁ v₁ x xs} _ hns₁ hj => by
      obtain ⟨hm₁, hp₁, hi₁⟩ := hj
      have heff := destroyRegion_effect hm₁ hp₁ (hns₁ ▸ List.mem_cons_self)
      exact ⟨(heff.steps hm₁ hp₁).ok, heff.sound hm₁ hp₁, hstep hm₁ hp₁ hns₁ hi₁⟩)
    hp.tree hns hsteps ⟨hm, hp, hi⟩
  exact ⟨mm', v', hloop, hi', hm', hp', hnone⟩

theorem Vcb.Ok.length_nodes_lt {v : Vcb} (hv : v.Ok mm.kheap.calls) :
    (v.nodes mm.fuel).length < mm.fuel := by
  obtain ⟨ns, h⟩ := hv
  have heq : v.nodes mm.fuel = ns := h.nodes_eq (Nat.lt_succ_self _)
  rw [heq]
  exact Nat.lt_succ_of_le h.length_le

theorem vmmDestroy_eq {mm₁ : Resources} {v v₁ : Vcb}
    (h : destroyLoop mm.fuel mm v ((v.nodes mm.fuel).headD 0)
      ((v.nodes mm.fuel).tail.headD 0) = some (mm₁, v₁)) (hv : v.Ok mm.kheap.calls) :
    vmmDestroy L mm v = ((treeDestroy mm₁ v₁.treeAddr v₁.tree).withPaging
      (archPagingPoolFree L (archDestroyAddressSpace L mm₁.paging v₁.cr3) v₁.cr3)).spinlockRelease
        v₁.lock := by
  have hfirst : rbtreeFirst mm.fuel v.tree = some ((v.nodes mm.fuel).headD 0) :=
    hv.first (Nat.lt_succ_self _)
  have hnext : (if (v.nodes mm.fuel).headD 0 = 0 then 0 else
      (rbtreeNext mm.fuel v.tree ((v.nodes mm.fuel).headD 0)).getD 0) =
      (v.nodes mm.fuel).tail.headD 0 := by
    cases hns : v.nodes mm.fuel with
    | nil => rfl
    | cons y ys =>
      have hy : rbtreeNext mm.fuel v.tree y = some (ys.headD 0) :=
        hv.next (Nat.lt_succ_self _) (hns.trans (List.nil_append _).symm)
      have hpos : 0 < y := hv.pos (Nat.lt_succ_self _) (hns ▸ List.mem_cons_self)
      rw [List.headD_cons, if_neg (by omega), hy]
      rfl
  unfold vmmDestroy
  simp only [hfirst, Option.getD_some, hnext, h]
  rfl

end Ukernel.Mm
