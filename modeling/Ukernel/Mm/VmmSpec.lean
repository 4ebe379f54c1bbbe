import Ukernel.Mm.Effect

/-!
# The operations refine the abstract machine

Every function of `vmm.c` that works on an address space makes one transition of the abstract
machine. The lemmas say which, and what the function answers. What happens to the address space
itself comes first (`Change`); the blocks of the physical memory manager are added to that.

## Main definitions

* `FixedTries`, `AllocTries`, `MemoryTries`: the region that a function puts into the tree
* `Leaves`: a region leaves

## Main results

* `gapSearch_spec`: the search finds the first gap, which is disjoint from all regions
* `vmmMapFixed_change`, `vmmAllocPages_change`, `vmmMapMemory_change`: a region enters, or nothing
  remains of the attempt
* `vmmFreePages_cases`, `vmmUnmapMemory_cases`, `vmmUnmapFixed_cases`: a region leaves
* `vmmMapFixed_attempt`, `vmmAllocPages_cases`, `vmmMapMemory_cases`, `vmmFreePages_detach`,
  `vmmUnmapMemory_detach`, `vmmUnmapFixed_detach`: the same with the blocks
-/

namespace Ukernel.Mm

open Arch Kernel Lib Lib.RbTree Machine VmmRegion Resources

/-! ## Gaps -/

/-- A gap begins where a region ends, and is disjoint from all regions. It is the first one: the
regions that end before it have no room behind them. -/
theorem gapSearch_spec {fits : Nat → Bool} {size va : Nat} {rs : List VmmRegion}
    (hgood : ∀ r ∈ rs, r.Good) (hapart : rs.Pairwise Apart)
    (hsorted : rs.Pairwise fun r r' => r.startVa ≤ r'.startVa)
    (hfits : ∀ va, fits va = true → va + size < 2 ^ 32) (h : gapSearch fits size rs = some va) :
    va + size < 2 ^ 32 ∧ (∃ r ∈ rs, va = r.startVa + r.size) ∧
      (∀ r ∈ rs, r.startVa + r.size ≤ va ∨ va + size ≤ r.startVa) ∧
      ∀ r ∈ rs, r.startVa + r.size < va →
        ∃ r' ∈ rs, r.startVa < r'.startVa ∧ r'.startVa < r.startVa + r.size + size := by
  have halign {r : VmmRegion} (hr : r ∈ rs) : pageAlign r.limit = r.startVa + r.size := by
    have hg := hgood r hr
    have h₁ := hg.startVa
    have h₂ := hg.size
    rw [hg.limit_eq, pageAlign_of_aligned hg.fits (by omega)]
  -- the induction is along the search: what is left of the list has the first gap of the whole
  induction rs with
  | nil => cases h
  | cons cur rest ih =>
    have hnone {r : VmmRegion} (hr : r ∈ cur :: rest)
        (hlt : r.startVa + r.size < cur.startVa + cur.size) : False := by
      have hpos := (hgood r hr).pos
      rw [List.pairwise_cons] at hapart hsorted
      rcases List.mem_cons.mp hr with rfl | hr
      · exact Nat.lt_irrefl _ hlt
      · have hle := hsorted.1 r hr
        rcases hapart.1 r hr with ha | ha <;> omega
    cases rest with
    | nil => grind [gapSearch]
    | cons next rest =>
      have hsub {r : VmmRegion} (hr : r ∈ next :: rest) : r ∈ cur :: next :: rest :=
        List.mem_cons_of_mem _ hr
      rw [List.pairwise_cons] at hapart hsorted
      unfold gapSearch at h
      rw [halign List.mem_cons_self] at h
      dsimp only at h
      split_ifs at h with h₁ h₂
      · grind [List.pairwise_cons]
      · simp only [Bool.not_eq_true', Bool.not_eq_false] at h₁
        obtain ⟨hlt, ⟨r', hr', rfl⟩, hall, hbefore⟩ := ih (fun r hr => hgood r (hsub hr)) hapart.2
          hsorted.2 h fun hr => halign (hsub hr)
        -- the first region lies before the one that the gap follows
        have hcur {r : VmmRegion} (hr : r ∈ next :: rest) : cur.startVa + cur.size ≤ r.startVa := by
          have hle := hsorted.1 r hr
          have hpos := (hgood r (hsub hr)).pos
          rcases hapart.1 r hr with ha | ha <;> omega
        have hpos := (hgood cur List.mem_cons_self).pos
        refine ⟨hlt, ⟨r', hsub hr', rfl⟩, fun r hr => ?_, fun r hr hend => ?_⟩
        · grind
        · grind

section Operations

variable {L : Layout} {dirs : Set Nat} {mm mm' : Resources} {p p' : Pcb}

/-- Where a new region begins, and that it is disjoint from the others. -/
theorem chooseVa_spec (hp : p.Laid L dirs mm) {first size va : Nat} {fits : Nat → Bool}
    (hfits : ∀ va, fits va = true → va + size < 2 ^ 32)
    (hfirst : p.regions mm = [] → va = first → va + size < 2 ^ 32)
    (h : chooseVa mm.fuel p.vcb first fits size = some va) :
    va + size < 2 ^ 32 ∧ (∀ r ∈ p.regions mm, va + size ≤ r.startVa ∨ r.startVa + r.size ≤ va) ∧
      (p.regions mm = [] ∧ va = first ∨ ∃ r ∈ p.regions mm, va = r.startVa + r.size) := by
  have hroot : p.vcb.tree.root = p.vcb.tree.nil ↔ p.regions mm = [] :=
    hp.tree.root_eq_nil_iff (Nat.lt_succ_self _)
  unfold chooseVa at h
  split_ifs at h with hempty
  · grind
  · obtain ⟨hlt, hend, hall, -⟩ := gapSearch_spec hp.good hp.apart
      (hp.tree.sorted (Nat.lt_succ_self _)) hfits h
    exact ⟨hlt, fun r hr => (hall r hr).symm, Or.inr hend⟩

theorem chooseVa_congr (hp : p.Laid L dirs mm) (hcalls : mm.kheap.calls ≤ mm'.kheap.calls)
    (first size : Nat) (fits : Nat → Bool) :
    chooseVa mm'.fuel p.vcb first fits size = chooseVa mm.fuel p.vcb first fits size := by
  have hregions : p.vcb.regions mm'.fuel = p.vcb.regions mm.fuel :=
    hp.tree.regions_congr (Nat.lt_succ_self _) (Nat.lt_succ_of_le hcalls)
  rw [chooseVa, chooseVa, hregions]

/-! ## Building transitions -/

namespace Change

variable {e : Event}

/-- Nothing that shows has changed. -/
theorem quiet (hp : p.Laid L dirs mm) (hcalls : mm.kheap.calls ≤ mm'.kheap.calls)
    (htotal : mm'.pmm.totalBlocks = mm.pmm.totalBlocks) (hpaging : mm'.paging = mm.paging)
    (hpriv : p'.priv = p.priv) (hvcb : p'.vcb = p.vcb)
    (hcaps : p'.capabilities = p.capabilities) : Change L dirs .quiet mm p mm' p' where
  fits := trivial
  priv := hpriv
  cr3 := by rw [hvcb]
  tree := hvcb ▸ hp.tree.mono hcalls
  calls := hcalls
  total := htotal
  regions := by
    refine List.Perm.of_eq ?_
    rw [Pcb.regions, hvcb]
    exact hp.tree.regions_congr (Nat.lt_succ_self _) (Nat.lt_succ_of_le hcalls)
  paging := hpaging
  caps := hcaps

theorem of_same (hp : p.Laid L dirs mm) (h : Same mm mm') : Change L dirs .quiet mm p mm' p :=
  quiet hp h.calls (h.pmm ▸ rfl) h.paging rfl rfl rfl

/-- A change behind the scenes may follow a transition. -/
theorem same_right {mm'' : Resources} (h : Change L dirs e mm p mm' p')
    (hcalls : mm'.kheap.calls ≤ mm''.kheap.calls)
    (htotal : mm''.pmm.totalBlocks = mm'.pmm.totalBlocks) (hpaging : mm''.paging = mm'.paging) :
    Change L dirs e mm p mm'' p' where
  fits := h.fits
  priv := h.priv
  cr3 := h.cr3
  tree := h.tree.mono hcalls
  calls := Nat.le_trans h.calls hcalls
  total := htotal.trans h.total
  regions := by
    have heq : p'.regions mm'' = p'.regions mm' :=
      h.tree.regions_congr (Nat.lt_succ_self _) (Nat.lt_succ_of_le hcalls)
    rw [heq]
    exact h.regions
  paging := hpaging ▸ h.paging
  caps := h.caps

/-- A capability is granted. -/
theorem grant (hp : p.Laid L dirs mm) {c : Cap} (hc : c.Mem CapMem.Ok) (addr : Nat)
    (hs : Same mm mm') :
    Change L dirs (.grant c) mm p mm' (p.withCapabilities (⟨addr, c⟩ :: p.capabilities)) := by
  have h : Change L dirs (.grant c) mm p mm
      (p.withCapabilities (⟨addr, c⟩ :: p.capabilities)) :=
    ⟨hc, rfl, rfl, hp.tree, Nat.le_refl _, rfl, List.Perm.refl _, rfl, addr, rfl⟩
  exact h.same_right hs.calls (hs.pmm ▸ rfl) hs.paging

end Change

namespace Effect

variable {e : Event}

/-- Nothing that shows has changed. -/
theorem quiet (hp : p.Sound L dirs mm) (hcalls : mm.kheap.calls ≤ mm'.kheap.calls)
    (hpmm : Pmm.Becomes mm.pmm mm'.pmm mm.pmm.bitmapTest) (hpaging : mm'.paging = mm.paging)
    (hpriv : p'.priv = p.priv) (hvcb : p'.vcb = p.vcb)
    (hcaps : p'.capabilities = p.capabilities) : Effect L dirs .quiet mm p mm' p' :=
  (Change.quiet hp.laid hcalls hpmm.shape.totalBlocks hpaging hpriv hvcb hcaps).effect trivial hpmm

theorem of_same (hp : p.Sound L dirs mm) (h : Same mm mm') : Effect L dirs .quiet mm p mm' p :=
  quiet hp h.calls (h.pmm ▸ Pmm.Becomes.refl _) h.paging rfl rfl rfl

/-- A change behind the scenes may follow a transition. -/
theorem same_right {mm'' : Resources} (h : Effect L dirs e mm p mm' p') (hs : Same mm' mm'') :
    Effect L dirs e mm p mm'' p' :=
  (h.change.same_right hs.calls (hs.pmm ▸ rfl) hs.paging).effect h.ok (hs.pmm ▸ h.pmm)

/-- A capability is granted. -/
theorem grant (hp : p.Sound L dirs mm) {c : Cap} (hc : c.Mem CapMem.Ok) (addr : Nat) :
    Effect L dirs (.grant c) mm p mm (p.withCapabilities (⟨addr, c⟩ :: p.capabilities)) :=
  (Change.grant hp.laid hc addr (Same.refl mm)).effect hc (Pmm.Becomes.refl _)

end Effect

/-! ## Placing -/

/-- Mapping the pages of a region that may enter. -/
theorem mapRegion_cases (hwf : mm.paging.Wf L dirs) (hp : p.Laid L dirs mm) {r : VmmRegion}
    (hgood : r.Good) :
    (∃ pg, mapPages L mm.paging p.vcb.cr3 r.startVa r.pa (r.size / 4096) r.flags = (true, pg) ∧
      MappedRange L dirs p.vcb.dir (r.startVa / 4096) (r.size / 4096) r.pa r.flags mm.paging pg) ∨
    ∃ pg, mapPages L mm.paging p.vcb.cr3 r.startVa r.pa (r.size / 4096) r.flags = (false, pg) ∧
      ∃ k ≤ r.size / 4096,
        RolledBack L dirs p.vcb.dir (r.startVa / 4096) k r.flags mm.paging pg := by
  have h₁ := hgood.startVa
  have h₂ := hgood.fits
  have hva : r.startVa = r.startVa / 4096 * 4096 := by omega
  rw [hp.cr3, hva, Nat.mul_div_cancel _ (by decide)]
  rcases mapPages_cases r.pa r.flags hwf hp.dir_mem hp.dir_pos
    (fun hk => absurd hk hp.dir_ne) (show r.startVa / 4096 + r.size / 4096 ≤ 2 ^ 20 by omega) with
    ⟨pg, heq, hmap⟩ | ⟨k, pg, heq, hlt, hback⟩
  · exact Or.inl ⟨pg, heq, hmap⟩
  · exact Or.inr ⟨pg, heq, k, Nat.le_of_lt hlt, hback⟩

/-- A new block becomes a node of the tree: what is in the tree then. -/
theorem Vcb.Ok.insert_kmalloc {v : Vcb} (hv : v.Ok mm.kheap.calls) (hnode : mm.kmalloc.1 ≠ 0)
    (r : VmmRegion) :
    let v' := v.insert mm.kmalloc.2.fuel mm.kmalloc.1 r
    v'.Ok mm.kmalloc.2.kheap.calls ∧
      (v'.regions mm.kmalloc.2.fuel).Perm (r :: v.regions mm.fuel) ∧
      (v'.nodes mm.kmalloc.2.fuel).Perm (mm.kmalloc.1 :: v.nodes mm.fuel) ∧
      v'.tree.nil = v.tree.nil := by
  have hcalls : mm.kmalloc.2.kheap.calls = mm.kheap.calls + 1 := mm.kheap.kmalloc_calls
  have hname : mm.kmalloc.1 = mm.kheap.calls + 1 := Arena.kmalloc_name hnode
  have hnew : mm.kheap.calls < mm.kmalloc.1 := by omega
  have hle : mm.kmalloc.1 ≤ mm.kmalloc.2.kheap.calls := by omega
  have hfuel : mm.kheap.calls < mm.kmalloc.2.fuel := Nat.lt_succ_of_le (by omega)
  obtain ⟨hok, hregions⟩ := hv.insert r hnew hle hfuel
  obtain ⟨hnodes, hnil⟩ := hv.insert_nodes r hnew hle hfuel (Nat.lt_succ_self _)
  rw [hv.nodes_congr (Nat.lt_succ_self _) hfuel] at hnodes
  rw [hv.regions_congr (Nat.lt_succ_self _) hfuel] at hregions
  exact ⟨hok, hregions _ (Nat.lt_succ_self _), hnodes, hnil⟩

/-- The region leaves the tree again. -/
theorem unreserved_regions (hp : p.Laid L dirs mm) (r : VmmRegion) (hnode : mm.kmalloc.1 ≠ 0) :
    ((p.vcb.insert mm.kmalloc.2.fuel mm.kmalloc.1 r).delete mm.kmalloc.2.fuel mm.kmalloc.1).Ok
        mm.kmalloc.2.kheap.calls ∧
      (((p.vcb.insert mm.kmalloc.2.fuel mm.kmalloc.1 r).delete mm.kmalloc.2.fuel
        mm.kmalloc.1).regions mm.kmalloc.2.fuel).Perm (p.regions mm) := by
  obtain ⟨hok, hregions, hnodes, -⟩ := hp.tree.insert_kmalloc hnode r
  obtain ⟨hok', hdelete⟩ :=
    hok.delete (hnodes.mem_iff.mpr List.mem_cons_self) (Nat.lt_succ_self _)
  have hself : (p.vcb.insert mm.kmalloc.2.fuel mm.kmalloc.1 r).region mm.kmalloc.1 = r :=
    Function.update_self _ _ _
  have hperm := hdelete _ (Nat.lt_succ_self _)
  rw [hself] at hperm
  exact ⟨hok', (hperm.symm.trans hregions).cons_inv⟩

/-- A region that may enter is placed, or nothing of it remains. -/
theorem placeRegion_change (hwf : mm.paging.Wf L dirs) (hp : p.Laid L dirs mm) {r : VmmRegion}
    (hnode : mm.kmalloc.1 ≠ 0) (hc : HasPlace mm p r) :
    (∃ mm' v', placeRegion L mm.kmalloc.2 p.vcb mm.kmalloc.1 r = (true, mm', v') ∧
      Change L dirs (.place r) mm p mm' (p.withVcb v')) ∨
    ∃ mm' v', placeRegion L mm.kmalloc.2 p.vcb mm.kmalloc.1 r = (false, mm', v') ∧
      Change L dirs (.cancel r) mm p mm' (p.withVcb v') := by
  have hsame := same_kmalloc mm
  unfold placeRegion
  dsimp only
  have hcr3 : (p.vcb.insert mm.kmalloc.2.fuel mm.kmalloc.1 r).cr3 = p.vcb.cr3 := rfl
  rw [hcr3, hsame.paging]
  rcases mapRegion_cases hwf hp hc.good with ⟨pg, heq, hmap⟩ | ⟨pg, heq, k, hk, hback⟩
  · rw [heq]
    obtain ⟨htree, hregions, -⟩ := hp.tree.insert_kmalloc hnode r
    exact Or.inl ⟨_, _, rfl, hc, rfl, rfl, htree, hsame.calls, rfl, hregions, hmap, rfl⟩
  · rw [heq]
    obtain ⟨htree, hregions⟩ := unreserved_regions hp r hnode
    exact Or.inr ⟨_, _, rfl, hc, rfl, rfl, htree, hsame.calls, rfl, hregions, ⟨k, hk, hback⟩, rfl⟩

theorem placeRegion_pmm (L : Layout) (mm : Resources) (v : Vcb) (node : Nat) (r : VmmRegion) :
    (placeRegion L mm v node r).2.1.pmm = mm.pmm := by
  unfold placeRegion
  dsimp only
  split <;> rfl

theorem placeRegion_cases (hm : mm.Ok L dirs) (hp : p.Sound L dirs mm) {r : VmmRegion}
    (hnode : mm.kmalloc.1 ≠ 0) (hc : Candidate mm p r) :
    (∃ mm' v', placeRegion L mm.kmalloc.2 p.vcb mm.kmalloc.1 r = (true, mm', v') ∧
      Effect L dirs (.place r) mm p mm' (p.withVcb v')) ∨
    ∃ mm' v', placeRegion L mm.kmalloc.2 p.vcb mm.kmalloc.1 r = (false, mm', v') ∧
      Effect L dirs (.cancel r) mm p mm' (p.withVcb v') := by
  have hpmm : (placeRegion L mm.kmalloc.2 p.vcb mm.kmalloc.1 r).2.1.pmm = mm.pmm :=
    placeRegion_pmm L mm.kmalloc.2 p.vcb mm.kmalloc.1 r
  rcases placeRegion_change hm.paging hp.laid hnode hc.hasPlace with
    ⟨mm', v', heq, h⟩ | ⟨mm', v', heq, h⟩
  · rw [heq] at hpmm
    exact Or.inl ⟨mm', v', heq, h.effect hc (hpmm ▸ Pmm.Becomes.refl _)⟩
  · rw [heq] at hpmm
    exact Or.inr ⟨mm', v', heq, h.effect hc (hpmm ▸ Pmm.Becomes.refl _)⟩

/-- What an attempt to place a region does to the address space. -/
def Tried (L : Layout) (dirs : Set Nat) (mm : Resources) (p : Pcb) (r : VmmRegion) (ok : Prop)
    (mm' : Resources) (p' : Pcb) : Prop :=
  ¬ok ∧ Change L dirs (.cancel r) mm p mm' p' ∨ ok ∧ Change L dirs (.place r) mm p mm' p'

/-- What an attempt to place a region leads to: it is placed, or nothing of it remains. -/
def Attempt (L : Layout) (dirs : Set Nat) (mm : Resources) (p : Pcb) (r : VmmRegion) (ok : Prop)
    (mm' : Resources) (p' : Pcb) : Prop :=
  ¬ok ∧ Effect L dirs (.cancel r) mm p mm' p' ∨ ok ∧ Effect L dirs (.place r) mm p mm' p'

theorem Tried.attempt {r : VmmRegion} {ok : Prop} (h : Tried L dirs mm p r ok mm' p')
    (hc : Candidate mm p r) (hpmm : mm'.pmm = mm.pmm) : Attempt L dirs mm p r ok mm' p' := by
  have hbec : Pmm.Becomes mm.pmm mm'.pmm mm.pmm.bitmapTest := hpmm ▸ Pmm.Becomes.refl _
  rcases h with ⟨hno, h⟩ | ⟨hok, h⟩
  · exact Or.inl ⟨hno, h.effect hc hbec⟩
  · exact Or.inr ⟨hok, h.effect hc hbec⟩

/-- `vmm_map_fixed` puts the region into the tree, be it only to take it out again. -/
structure FixedTries (mm : Resources) (p : Pcb) (r : VmmRegion) : Prop where
  aligned : ¬(r.pa % 4096 ≠ 0 ∨ r.startVa % 4096 ≠ 0)
  size : ¬(r.size = 0 ∨ r.size % 4096 ≠ 0)
  cap : capCheck p.capabilities (.mapMem ⟨r.pa, r.size, r.flags⟩) = 0
  node : mm.kmalloc.1 ≠ 0
  free : ∀ r' ∈ p.regions mm, ¬(r.startVa < r'.limit ∧ r'.startVa < (r.startVa + r.size) % 2 ^ 32)

/-- A region that `vmm_map_fixed` puts into the tree has a place. -/
theorem FixedTries.hasPlace (hp : p.Laid L dirs mm) {r : VmmRegion} (h : FixedTries mm p r)
    (hfits : r.startVa + r.size < 2 ^ 32) : HasPlace mm p r := by
  have hal := h.aligned
  have hsz := h.size
  rw [not_or, not_not, not_not] at hal
  rw [not_or, not_not] at hsz
  -- the capability keeps the blocks inside the physical address space
  obtain ⟨c, hcmem, d, hd, hpos, hbase, hend⟩ := capCheck_mapMem h.cap
  have hdok := (hp.caps c hcmem d hd).2
  refine ⟨⟨hal.2, hsz.2, hpos, hfits, hal.1, ?_⟩, fun r' hr' => ?_⟩
  · dsimp only at hend
    omega
  · have hno := h.free r' hr'
    rw [(hp.good r' hr').limit_eq, Nat.mod_eq_of_lt hfits] at hno
    unfold VmmRegion.Apart
    omega

theorem FixedTries.of_find (hp : p.Laid L dirs mm) {r : VmmRegion}
    (hal : ¬(r.pa % 4096 ≠ 0 ∨ r.startVa % 4096 ≠ 0)) (hsz : ¬(r.size = 0 ∨ r.size % 4096 ≠ 0))
    (hcap : capCheck p.capabilities (.mapMem ⟨r.pa, r.size, r.flags⟩) = 0)
    (hnode : mm.kmalloc.1 ≠ 0)
    (hfind : (p.vcb.find mm.kmalloc.2.fuel fun r' => decide (r.startVa < r'.limit) &&
      decide (r'.startVa < (r.startVa + r.size) % 2 ^ 32)) = none) : FixedTries mm p r := by
  refine ⟨hal, hsz, hcap, hnode, fun r' hr' => ?_⟩
  have hcongr : p.vcb.regions mm.kmalloc.2.fuel = p.regions mm :=
    hp.tree.regions_congr (Nat.lt_succ_self _) (Nat.lt_succ_of_le (same_kmalloc mm).calls)
  have hno := Vcb.Ok.find_none hfind (hcongr ▸ hr')
  rw [Bool.and_eq_false_iff, decide_eq_false_iff_not, decide_eq_false_iff_not] at hno
  exact not_and_or.mpr hno

/-- `vmm_map_fixed` tries to place a region at the address asked for. -/
theorem vmmMapFixed_change (hwf : mm.paging.Wf L dirs) (hp : p.Laid L dirs mm)
    {pa va size flags : Nat} {own : Bool}
    (hfits : FixedTries mm p ⟨va, size, flags, pa, own⟩ → va + size < 2 ^ 32) :
    let res := vmmMapFixed L mm p pa va size flags own
    res.1 ≠ 0 ∧ Change L dirs .quiet mm p res.2.1 res.2.2 ∨
      FixedTries mm p ⟨va, size, flags, pa, own⟩ ∧
        Tried L dirs mm p ⟨va, size, flags, pa, own⟩ (res.1 = 0) res.2.1 res.2.2 := by
  intro res
  have hs := same_kmalloc mm
  simp only [res, vmmMapFixed]
  split_ifs with hal hsz hcap hnode
  · exact Or.inl ⟨eInval_ne_zero, Change.of_same hp (Same.refl mm)⟩
  · exact Or.inl ⟨eInval_ne_zero, Change.of_same hp (Same.refl mm)⟩
  · exact Or.inl ⟨ePerm_ne_zero, Change.of_same hp (Same.refl mm)⟩
  · exact Or.inl ⟨eNomem_ne_zero, Change.of_same hp hs⟩
  split
  · exact Or.inl ⟨eExists_ne_zero, Change.of_same hp (hs.trans (same_kfree _ _))⟩
  · rename_i hfind
    have htries := FixedTries.of_find (r := ⟨va, size, flags, pa, own⟩) hp hal hsz
      (not_not.mp hcap) hnode hfind
    refine Or.inr ⟨htries, ?_⟩
    rcases placeRegion_change hwf hp hnode (htries.hasPlace hp (hfits htries)) with
      ⟨mm', v', heq, h⟩ | ⟨mm', v', heq, h⟩
    · rw [heq]
      exact Or.inr ⟨rfl, h⟩
    · rw [heq]
      exact Or.inl ⟨eLimit_ne_zero, h.same_right (Nat.le_refl _) rfl rfl⟩

/-- `vmm_map_fixed` writes to no page. -/
theorem vmmMapFixed_pmm (L : Layout) (mm : Resources) (p : Pcb) (pa va size flags : Nat)
    (own : Bool) : (vmmMapFixed L mm p pa va size flags own).2.1.pmm = mm.pmm := by
  unfold vmmMapFixed
  dsimp only
  split_ifs
  all_goals try rfl
  split
  · rfl
  · have hplace := placeRegion_pmm L mm.kmalloc.2 p.vcb mm.kmalloc.1 ⟨va, size, flags, pa, own⟩
    split
    all_goals
      rename_i heq
      rw [heq] at hplace
      exact hplace

theorem vmmMapFixed_attempt (hm : mm.Ok L dirs) (hp : p.Sound L dirs mm) {pa va size flags : Nat}
    {own : Bool} (hfits : FixedTries mm p ⟨va, size, flags, pa, own⟩ → va + size < 2 ^ 32)
    (howned : FixedTries mm p ⟨va, size, flags, pa, own⟩ → own = true →
      mm.pmm.reserveBlocks ≤ pa / 4096) :
    let res := vmmMapFixed L mm p pa va size flags own
    res.1 ≠ 0 ∧ Effect L dirs .quiet mm p res.2.1 res.2.2 ∨
      FixedTries mm p ⟨va, size, flags, pa, own⟩ ∧
        Attempt L dirs mm p ⟨va, size, flags, pa, own⟩ (res.1 = 0) res.2.1 res.2.2 := by
  intro res
  have hpmm : res.2.1.pmm = mm.pmm := vmmMapFixed_pmm L mm p pa va size flags own
  rcases vmmMapFixed_change hm.paging hp.laid hfits with ⟨hne, h⟩ | ⟨htries, h⟩
  · exact Or.inl ⟨hne, h.effect trivial (hpmm ▸ Pmm.Becomes.refl _)⟩
  · have hplace := htries.hasPlace hp.laid (hfits htries)
    exact Or.inr ⟨htries, h.attempt ⟨hplace.good, hplace.apart, howned htries⟩ hpmm⟩

/-! ## Allocating -/

/-- The claimed run is not among the regions' concerns. -/
theorem Pcb.Sound.withPmm (hm : mm.Ok L dirs) (hp : p.Sound L dirs mm) {s : Pmm}
    {f : Nat → Bool} (hready : s.Ready) (hs : Pmm.Becomes mm.pmm s f) :
    (mm.withPmm s).Ok L dirs ∧ p.Sound L dirs (mm.withPmm s) :=
  ⟨⟨hm.paging, hready⟩, hp.frame (d := p.vcb.dir)
    ⟨Steady.refl hm.paging _, hready, hs.shape, Nat.le_refl _⟩⟩

/-- A region that is placed with blocks claimed for it is acquired. -/
theorem Effect.acquire {r : VmmRegion} {mm₁ : Resources} (hp : p.Sound L dirs mm)
    (hown : r.ownPhys = true)
    (hfree : ∀ b, r.HasBlock b → b < mm.pmm.totalBlocks ∧ mm.pmm.bitmapTest b = false)
    (hcalls : mm.kheap.calls ≤ mm₁.kheap.calls) (hpaging : mm₁.paging = mm.paging)
    (hs : Pmm.Becomes mm.pmm mm₁.pmm fun b => decide (r.HasBlock b) || mm.pmm.bitmapTest b)
    (h : Effect L dirs (.place r) mm₁ p mm' p') : Effect L dirs (.acquire r) mm p mm' p' := by
  have heq : p.regions mm₁ = p.regions mm :=
    hp.tree.regions_congr (Nat.lt_succ_self _) (Nat.lt_succ_of_le hcalls)
  have hc : Candidate mm₁ p r := h.ok
  have hcand : Candidate mm p r :=
    ⟨hc.good, heq ▸ hc.apart, fun ho => hs.shape.reserveBlocks ▸ hc.owned ho⟩
  refine ⟨⟨hcand, hown, hfree⟩, h.priv, h.cr3, h.tree, Nat.le_trans hcalls h.calls,
    (hs.trans h.pmm).congr fun b hb => hs.test b hb, ?_, ?_, h.caps⟩
  · rw [← heq]
    exact h.regions
  · rw [← hpaging]
    exact h.paging

/-- A region that is not placed leaves nothing, once the blocks claimed for it are freed. -/
theorem Effect.undo {r : VmmRegion} {mm₁ : Resources} (hm : mm.Ok L dirs) (hp : p.Sound L dirs mm)
    (hcalls : mm.kheap.calls ≤ mm₁.kheap.calls) (hpaging : mm₁.paging = mm.paging)
    {first n : Nat} (hres : mm.pmm.reserveBlocks ≤ first)
    (hend : first + n ≤ mm.pmm.totalBlocks)
    (hclear : ∀ b, first ≤ b → b < first + n → mm.pmm.bitmapTest b = false)
    (hs : Pmm.Becomes mm.pmm mm₁.pmm fun b =>
      decide (first ≤ b ∧ b < first + n) || mm.pmm.bitmapTest b)
    (h : Effect L dirs (.cancel r) mm₁ p mm' p') :
    Effect L dirs (.cancel r) mm p (mm'.pmmFreePages (first * 4096) n) p' := by
  have heq : p.regions mm₁ = p.regions mm :=
    hp.tree.regions_congr (Nat.lt_succ_self _) (Nat.lt_succ_of_le hcalls)
  have hc : Candidate mm₁ p r := h.ok
  have hcand : Candidate mm p r :=
    ⟨hc.good, heq ▸ hc.apart, fun ho => hs.shape.reserveBlocks ▸ hc.owned ho⟩
  refine ⟨hcand, h.priv, h.cr3, h.tree, Nat.le_trans hcalls h.calls,
    hm.pmm.undo hres hend hclear ((hs.trans h.pmm).congr fun b hb => hs.test b hb), ?_, ?_, h.caps⟩
  · rw [← heq]
    exact h.regions
  · rw [← hpaging]
    exact h.paging

/-- `vmm_alloc_pages` puts the region into the tree, be it only to take it out again. -/
structure AllocTries (mm : Resources) (p : Pcb) (pageCnt flags : Nat) (r : VmmRegion) : Prop where
  pa : (mm.pmm.pmmAllocPages pageCnt).1 = r.pa
  pa_ne : r.pa ≠ 0
  node : mm.kmalloc.1 ≠ 0
  size : r.size = pageCnt * 4096
  flags : r.flags = flags
  ownPhys : r.ownPhys = true
  chosen : chooseVa mm.fuel p.vcb userAnonBase (allocFits pageCnt) (pageCnt * 4096) =
    some r.startVa

theorem allocFits_lt {pageCnt va : Nat} (hpos : 0 < pageCnt) (h : allocFits pageCnt va = true) :
    va + pageCnt * 4096 < 2 ^ 32 := by
  unfold allocFits at h
  rw [decide_eq_true_eq] at h
  omega

/-- A region that `vmm_alloc_pages` puts into the tree has a place. -/
theorem AllocTries.hasPlace (hp : p.Laid L dirs mm) (htotal : mm.pmm.totalBlocks < 2 ^ 20)
    {pageCnt flags : Nat} {r : VmmRegion} (h : AllocTries mm p pageCnt flags r)
    (hfits : p.regions mm = [] → r.startVa + r.size < 2 ^ 32) :
    HasPlace mm p r ∧ r.startVa ≠ 0 := by
  obtain ⟨first, hn, hend, hpa⟩ : ∃ first, 0 < pageCnt ∧ first + pageCnt ≤ mm.pmm.totalBlocks ∧
      r.pa = first * 4096 := by
    rcases mm.pmm.pmmAllocPages_cases pageCnt with hfail | ⟨first, hn, hend, -, heq⟩
    · exact absurd (h.pa ▸ congrArg Prod.fst hfail) h.pa_ne
    · refine ⟨first, hn, hend, ?_⟩
      rw [← h.pa, heq]
      exact Nat.mod_eq_of_lt (by omega)
  have hsize := h.size
  obtain ⟨hlt, hapart, hwhere⟩ := chooseVa_spec hp (fun _ => allocFits_lt hn)
    (fun hempty _ => hsize ▸ hfits hempty) h.chosen
  rw [← hsize] at hlt hapart
  have hal : r.startVa % 4096 = 0 ∧ r.startVa ≠ 0 := by
    rcases hwhere with ⟨-, heq⟩ | ⟨r', hr', heq⟩
    · rw [heq]
      decide
    · have h₁ := (hp.good r' hr').startVa
      have h₂ := (hp.good r' hr').size
      have h₃ := (hp.good r' hr').pos
      omega
  exact ⟨⟨⟨hal.1, by omega, by omega, hlt, by omega, by omega⟩, hapart⟩, hal.2⟩

/-- `vmm_alloc_pages`: a region enters with free blocks, or nothing of it remains. -/
theorem vmmAllocPages_cases (hm : mm.Ok L dirs) (hp : p.Sound L dirs mm) (pageCnt flags : Nat)
    (hfits : ∀ r, AllocTries mm p pageCnt flags r → p.regions mm = [] →
      r.startVa + r.size < 2 ^ 32) :
    let res := vmmAllocPages L mm p.vcb pageCnt flags
    res.1 = 0 ∧ Effect L dirs .quiet mm p res.2.1 (p.withVcb res.2.2) ∨
      ∃ r, AllocTries mm p pageCnt flags r ∧
        (res.1 = 0 ∧ Effect L dirs (.cancel r) mm p res.2.1 (p.withVcb res.2.2) ∨
          res.1 = r.startVa ∧ r.startVa ≠ 0 ∧
            Effect L dirs (.acquire r) mm p res.2.1 (p.withVcb res.2.2)) := by
  intro res
  simp only [res, vmmAllocPages]
  by_cases hzero : pageCnt = 0
  · rw [if_pos hzero]
    exact Or.inl ⟨rfl, Effect.of_same hp (Same.refl mm)⟩
  rw [if_neg hzero]
  rcases hm.pmm.alloc pageCnt with heq | ⟨first, s, hn, hpos, hres, hend, hclear, heq, hready, hs⟩
  · rw [heq, if_pos rfl]
    exact Or.inl ⟨rfl, Effect.of_same hp (Same.refl mm)⟩
  have hpa : first * 4096 ≠ 0 := Nat.mul_ne_zero (Nat.pos_iff_ne_zero.mp hpos) (by decide)
  rw [heq, if_neg hpa]
  obtain ⟨hm₁, hp₁⟩ := hp.withPmm hm hready hs
  have hsame := same_kmalloc (mm.withPmm s)
  have ht := hm.pmm.totalBlocks_lt
  have hsize : pageCnt * 4096 % 2 ^ 32 = pageCnt * 4096 := by omega
  split_ifs with hnode
  · -- no memory for the record: the blocks go back
    exact Or.inl ⟨rfl,
      Effect.quiet hp hsame.calls (hm.pmm.undo hres hend hclear hs) rfl rfl rfl rfl⟩
  rw [hsize]
  split
  · exact Or.inl ⟨rfl,
      Effect.quiet hp hsame.calls (hm.pmm.undo hres hend hclear hs) rfl rfl rfl rfl⟩
  · rename_i va hva
    rw [chooseVa_congr hp₁.laid hsame.calls] at hva
    set r : VmmRegion := ⟨va, pageCnt * 4096, flags, first * 4096, true⟩ with hr
    have htries : AllocTries mm p pageCnt flags r :=
      ⟨congrArg Prod.fst heq, hpa, hnode, rfl, rfl, rfl, hva⟩
    obtain ⟨hplace, hne⟩ := htries.hasPlace hp.laid ht (hfits r htries)
    have hblock {b : Nat} : r.HasBlock b ↔ first ≤ b ∧ b < first + pageCnt := by grind [HasBlock]
    have hc : Candidate (mm.withPmm s) p r := by
      refine ⟨hplace.good, hplace.apart, fun _ => ?_⟩
      change s.reserveBlocks ≤ first * 4096 / 4096
      rw [hs.shape.reserveBlocks]
      omega
    have hcalls : mm.kheap.calls ≤ (mm.withPmm s).kheap.calls := Nat.le_refl _
    refine Or.inr ⟨r, htries, ?_⟩
    rcases placeRegion_cases hm₁ hp₁ hnode hc with
      ⟨mm', v', hplaced, heff⟩ | ⟨mm', v', hplaced, heff⟩
    · rw [hplaced]
      refine Or.inr ⟨rfl, hne, heff.acquire hp rfl (fun b hb => ?_) hcalls rfl ?_⟩
      · grind
      · simp only [hblock]
        exact hs
    · rw [hplaced]
      exact Or.inl ⟨rfl, (heff.undo hm hp hcalls rfl hres hend hclear hs).same_right
        (same_kfree _ _)⟩

/-! ## Removing -/

/-- The region of the node `n` leaves, with its blocks if it owns them. -/
structure Leaves (mm : Resources) (p : Pcb) (n : Nat) (mm' : Resources) (p' : Pcb) : Prop where
  mem : n ∈ p.vcb.nodes mm.fuel
  proc : p' = p.withVcb (p.vcb.delete mm.fuel n)
  calls : mm'.kheap.calls = mm.kheap.calls
  paging : mm'.paging = (mm.unmapRegion p.vcb.cr3 (p.vcb.region n)).paging
  pmm : mm'.pmm = if (p.vcb.region n).ownPhys then
    mm.pmm.pmmFreePages (p.vcb.region n).pa ((p.vcb.region n).size / 4096) else mm.pmm

/-- How a region leaves. -/
def leave (r : VmmRegion) : Event := if r.ownPhys then .dispose r else .remove r

namespace Leaves

variable {n : Nat} (h : Leaves mm p n mm' p')
include h

theorem region_mem : p.vcb.region n ∈ p.regions mm := List.mem_map_of_mem h.mem

theorem unmapped (hwf : mm.paging.Wf L dirs) (hp : p.Laid L dirs mm) :
    Unmapped L dirs p.vcb.dir ((p.vcb.region n).startVa / 4096) ((p.vcb.region n).size / 4096)
      mm.paging mm'.paging := by
  have hgood := hp.good _ h.region_mem
  have h₁ := hgood.startVa
  have h₂ := hgood.fits
  have hva : (p.vcb.region n).startVa = (p.vcb.region n).startVa / 4096 * 4096 := by omega
  rw [h.paging, unmapRegion, withPaging_paging, hp.cr3, hva, Nat.mul_div_cancel _ (by decide)]
  refine unmapPages_unmapped hwf hp.dir_mem hp.dir_pos (fun hk => absurd hk hp.dir_ne) _
    (by omega) fun q hq₁ hq₂ => ?_
  exact hp.tables _ h.region_mem q ⟨hq₁, hq₂⟩

theorem total : mm'.pmm.totalBlocks = mm.pmm.totalBlocks := by
  rw [h.pmm]
  split_ifs
  · exact (mm.pmm.sameShape_pmmFreePages _ _).totalBlocks
  · rfl

/-- The region leaves the tree and the page tables. -/
theorem change (hwf : mm.paging.Wf L dirs) (hp : p.Laid L dirs mm) :
    Change L dirs (leave (p.vcb.region n)) mm p mm' p' := by
  obtain ⟨htree, hregions⟩ := hp.tree.delete h.mem (Nat.lt_succ_self _)
  have hfuel : mm'.fuel = mm.fuel := congrArg (· + 1) h.calls
  have hunmapped := h.unmapped hwf hp
  have hperm : (p.regions mm).Perm
    (p.vcb.region n :: (p.vcb.delete mm.fuel n).regions mm'.fuel) := by
    rw [hfuel]
    exact hregions _ (Nat.lt_succ_self _)
  have htotal := h.total
  have hcalls := h.calls
  rw [h.proc]
  unfold leave
  split_ifs
  · exact ⟨trivial, rfl, rfl, hcalls ▸ htree, Nat.le_of_eq hcalls.symm, htotal, hperm, hunmapped,
      rfl⟩
  · exact ⟨trivial, rfl, rfl, hcalls ▸ htree, Nat.le_of_eq hcalls.symm, htotal, hperm, hunmapped,
      rfl⟩

theorem effect (hm : mm.Ok L dirs) (hp : p.Sound L dirs mm) :
    Effect L dirs (leave (p.vcb.region n)) mm p mm' p' := by
  have hchange := h.change hm.paging hp.laid
  have hpmm := h.pmm
  unfold leave at hchange ⊢
  split_ifs at hchange hpmm ⊢ with hown
  · have hfits := (hp.good _ h.region_mem).paFits
    refine hchange.effect hown ?_
    rw [hpmm]
    exact (hm.pmm.free (hp.owned _ h.region_mem hown) (by omega)).2
  · exact hchange.effect trivial (hpmm ▸ Pmm.Becomes.refl _)

end Leaves

/-- `vmm_free_pages` does nothing, or lets a region at the address go that owns its blocks. -/
theorem vmmFreePages_cases (mm : Resources) (p : Pcb) (va : Nat) :
    vmmFreePages mm p.vcb va = (mm, p.vcb) ∨
      ∃ n, (p.vcb.region n).contains va = true ∧ (p.vcb.region n).ownPhys = true ∧
        Leaves mm p n (vmmFreePages mm p.vcb va).1 (p.withVcb (vmmFreePages mm p.vcb va).2) := by
  unfold vmmFreePages
  cases hfind : p.vcb.find mm.fuel fun r => r.contains va && r.ownPhys with
  | none => exact Or.inl rfl
  | some n =>
    obtain ⟨hn, -, htest⟩ := Vcb.Ok.find_some hfind
    rw [Bool.and_eq_true] at htest
    exact Or.inr ⟨n, htest.1, htest.2, hn, rfl, rfl, rfl, (if_pos htest.2).symm⟩

/-- `vmm_mmap_release` refuses, or takes out of the tree a region that does not own its blocks. -/
theorem vmmMmapRelease_cases (mm : Resources) (v : Vcb) (va size : Nat) :
    vmmMmapRelease mm v va size = (none, mm, v) ∨
      ∃ n, n ∈ v.nodes mm.fuel ∧ (v.region n).ownPhys = false ∧ (v.region n).contains va = true ∧
        vmmMmapRelease mm v va size =
          (some (v.region n), mm.kfree n, v.delete mm.fuel n) := by
  unfold vmmMmapRelease
  cases hfind : v.find mm.fuel fun r => !r.ownPhys && r.contains va with
  | none => exact Or.inl rfl
  | some n => grind [Vcb.Ok.find_some]

/-- `vmm_unmap_memory` does nothing, or lets a region at the address go that does not own its
blocks. -/
theorem vmmUnmapMemory_cases (mm : Resources) (p : Pcb) (va size : Nat) :
    (vmmUnmapMemory mm p va size).2 = (mm, p) ∨
      ∃ n, (p.vcb.region n).contains va = true ∧ (p.vcb.region n).ownPhys = false ∧
        Leaves mm p n (vmmUnmapMemory mm p va size).2.1 (vmmUnmapMemory mm p va size).2.2 := by
  unfold vmmUnmapMemory
  split
  · exact Or.inl rfl
  split_ifs with hcap
  · exact Or.inl rfl
  rcases vmmMmapRelease_cases mm p.vcb va size with heq | ⟨n, hn, hown, hva, heq⟩
  · rw [heq]
    exact Or.inl rfl
  · rw [heq]
    exact Or.inr ⟨n, hva, hown, hn, rfl, rfl, rfl, (if_neg (by simp [hown])).symm⟩

/-- `vmm_unmap_fixed` does nothing, or lets the region at the address go. -/
theorem vmmUnmapFixed_cases (mm : Resources) (p : Pcb) (va size : Nat) :
    (vmmUnmapFixed mm p va size).2 = (mm, p) ∨
      ∃ n, (p.vcb.region n).contains va = true ∧
        Leaves mm p n (vmmUnmapFixed mm p va size).2.1 (vmmUnmapFixed mm p va size).2.2 := by
  unfold vmmUnmapFixed
  split
  · exact Or.inl rfl
  split_ifs with hcap
  · exact Or.inl rfl
  cases hfind : p.vcb.find mm.fuel fun r => r.contains va with
  | none => exact Or.inl rfl
  | some n =>
    obtain ⟨hn, -, htest⟩ := Vcb.Ok.find_some hfind
    dsimp only
    split_ifs with hsize hown
    · exact Or.inl rfl
    · exact Or.inr ⟨n, htest, hn, rfl, rfl, rfl, (if_pos hown).symm⟩
    · exact Or.inr ⟨n, htest, hn, rfl, rfl, rfl, (if_neg hown).symm⟩

/-- What an attempt to remove the region at an address leads to. -/
def Detach (L : Layout) (dirs : Set Nat) (mm : Resources) (p : Pcb) (va : Nat) (own : Bool → Prop)
    (mm' : Resources) (p' : Pcb) : Prop :=
  Effect L dirs .quiet mm p mm' p' ∨ ∃ r ∈ p.regions mm, r.contains va = true ∧ own r.ownPhys ∧
    Effect L dirs (if r.ownPhys then .dispose r else .remove r) mm p mm' p'

theorem Leaves.detach {n va : Nat} {own : Bool → Prop} (h : Leaves mm p n mm' p')
    (hm : mm.Ok L dirs) (hp : p.Sound L dirs mm) (hva : (p.vcb.region n).contains va = true)
    (hown : own (p.vcb.region n).ownPhys) : Detach L dirs mm p va own mm' p' :=
  Or.inr ⟨p.vcb.region n, h.region_mem, hva, hown, h.effect hm hp⟩

/-- `vmm_free_pages` disposes of a region of its own at the address. -/
theorem vmmFreePages_detach (hm : mm.Ok L dirs) (hp : p.Sound L dirs mm) (va : Nat) :
    let res := vmmFreePages mm p.vcb va
    Detach L dirs mm p va (· = true) res.1 (p.withVcb res.2) := by
  intro res
  rcases vmmFreePages_cases mm p va with heq | ⟨n, hva, hown, h⟩
  · have hres : res = (mm, p.vcb) := heq
    rw [hres]
    exact Or.inl (Effect.of_same hp (Same.refl mm))
  · exact h.detach hm hp hva hown

/-- `vmm_unmap_memory` removes a region at the address that does not own its blocks. -/
theorem vmmUnmapMemory_detach (hm : mm.Ok L dirs) (hp : p.Sound L dirs mm) (va size : Nat) :
    let res := vmmUnmapMemory mm p va size
    Detach L dirs mm p va (· = false) res.2.1 res.2.2 := by
  intro res
  rcases vmmUnmapMemory_cases mm p va size with heq | ⟨n, hva, hown, h⟩
  · have hres : res.2 = (mm, p) := heq
    rw [hres]
    exact Or.inl (Effect.of_same hp (Same.refl mm))
  · exact h.detach hm hp hva hown

/-- `vmm_unmap_fixed` removes the region at the address, or disposes of it. -/
theorem vmmUnmapFixed_detach (hm : mm.Ok L dirs) (hp : p.Sound L dirs mm) (va size : Nat) :
    let res := vmmUnmapFixed mm p va size
    Detach L dirs mm p va (fun _ => True) res.2.1 res.2.2 := by
  intro res
  rcases vmmUnmapFixed_cases mm p va size with heq | ⟨n, hva, h⟩
  · have hres : res.2 = (mm, p) := heq
    rw [hres]
    exact Or.inl (Effect.of_same hp (Same.refl mm))
  · exact h.detach hm hp hva trivial

/-! ## Mapping behind the other regions -/

/-- `vmm_map_memory` puts the region into the tree, be it only to take it out again. -/
structure MemoryTries (mm : Resources) (p : Pcb) (pa size flags : Nat) (r : VmmRegion) :
    Prop where
  cap : capCheck p.capabilities (.mapMem ⟨pa, size, flags⟩) = 0
  bound : ¬(size = 0 ∨ size > 0xffffffff - (pa - pageMask pa) - 4095)
  node : mm.kmalloc.1 ≠ 0
  size : r.size = pageMask (size + (pa - pageMask pa) + 4095)
  flags : r.flags = flags
  pa : r.pa = pageMask pa
  ownPhys : r.ownPhys = false
  chosen : chooseVa mm.fuel p.vcb r.pa (reserveFits r.size) r.size = some r.startVa

theorem reserveFits_lt {size va : Nat} (hpos : 0 < size) (h : reserveFits size va = true) :
    va + size < 2 ^ 32 := by
  unfold reserveFits at h
  rw [decide_eq_true_eq] at h
  omega

/-- `vmm_mmap_release` finds a region by its start. -/
theorem vmmMmapRelease_of_mem {v : Vcb} {r : VmmRegion} {size : Nat} (hr : r ∈ v.regions mm.fuel)
    (hgood : ∀ r' ∈ v.regions mm.fuel, r'.Good) (hapart : (v.regions mm.fuel).Pairwise Apart)
    (hown : r.ownPhys = false) (hsize : size ≤ r.size) :
    ∃ n ∈ v.nodes mm.fuel, v.region n = r ∧
      vmmMmapRelease mm v r.startVa size = (some r, mm.kfree n, v.delete mm.fuel n) := by
  have hrgood := hgood r hr
  have hpos := hrgood.pos
  have hfits := hrgood.fits
  have hself : r.contains r.startVa = true := hrgood.contains_iff.mpr ⟨Nat.le_refl _, by omega⟩
  unfold vmmMmapRelease
  cases hfind : v.find mm.fuel fun r' => !r'.ownPhys && r'.contains r.startVa with
  | none => grind [Vcb.Ok.find_none]
  | some n =>
    obtain ⟨hn, hmem, htest⟩ := Vcb.Ok.find_some hfind
    rw [Bool.and_eq_true] at htest
    have heq : v.region n = r := eq_of_contains hapart hmem hr htest.2 hself
    refine ⟨n, hn, heq, ?_⟩
    dsimp only
    rw [heq, if_neg]
    rw [hrgood.limit_eq, Nat.mod_eq_of_lt (by omega)]
    omega

theorem not_vmmIsErr {r : VmmRegion} (h : r.Good) {i : Nat} (hi : i < r.size) :
    vmmIsErr ((r.startVa + i) % 2 ^ 32) = false := by
  have h₁ := h.fits
  have h₂ := h.startVa
  have h₃ := h.size
  unfold vmmIsErr
  rw [decide_eq_false_iff_not]
  omega

theorem vmmIsErr_eNomem : vmmIsErr (vmmErrPtr eNomem) = true := by decide

theorem vmmIsErr_eInval : vmmIsErr (vmmErrPtr eInval) = true := by decide

theorem vmmIsErr_ePerm : vmmIsErr (vmmErrPtr ePerm) = true := by decide

/-- `vmm_mmap_reserve` finds no place, or puts the region into the tree. -/
theorem vmmMmapReserve_cases (mm : Resources) (v : Vcb) (pa size flags : Nat) :
    (∃ mm', vmmMmapReserve mm v pa size flags = (none, mm', v) ∧
        (mm' = mm ∨ mm.kmalloc.1 = 0 ∧ mm' = mm.kmalloc.2)) ∨
      ∃ va, chooseVa mm.fuel v pa (reserveFits size) size = some va ∧ mm.kmalloc.1 ≠ 0 ∧
        vmmMmapReserve mm v pa size flags = (some va, mm.kmalloc.2,
          v.insert mm.kmalloc.2.fuel mm.kmalloc.1 ⟨va, size, flags, pa, false⟩) := by
  unfold vmmMmapReserve
  cases hva : chooseVa mm.fuel v pa (reserveFits size) size with
  | none => exact Or.inl ⟨mm, rfl, Or.inl rfl⟩
  | some va => grind

/-- The release that follows a failure finds the region that has been reserved. -/
theorem reserved_release (hp : p.Laid L dirs mm) {r : VmmRegion} (hnode : mm.kmalloc.1 ≠ 0)
    (hc : HasPlace mm p r) (hown : r.ownPhys = false) (pg : Paging) :
    let v := p.vcb.insert mm.kmalloc.2.fuel mm.kmalloc.1 r
    ∃ n ∈ v.nodes mm.kmalloc.2.fuel, v.region n = r ∧
      vmmMmapRelease (mm.kmalloc.2.withPaging pg) v r.startVa 0 =
        (some r, (mm.kmalloc.2.withPaging pg).kfree n, v.delete mm.kmalloc.2.fuel n) := by
  intro v
  have hperm : (v.regions (mm.kmalloc.2.withPaging pg).fuel).Perm (r :: p.regions mm) :=
    (hp.tree.insert_kmalloc hnode r).2.1
  have hgood : ∀ r' ∈ r :: p.regions mm, r'.Good := List.forall_mem_cons.mpr ⟨hc.good, hp.good⟩
  have hapart : (r :: p.regions mm).Pairwise Apart := List.pairwise_cons.mpr ⟨hc.apart, hp.apart⟩
  exact vmmMmapRelease_of_mem (hperm.mem_iff.mpr List.mem_cons_self)
    (fun r' hr' => hgood r' (hperm.mem_iff.mp hr'))
    ((hperm.pairwise_iff fun hrr => Apart.symm hrr).mpr hapart) hown (Nat.zero_le _)

/-- The pages of a region that has been reserved are mapped, or the region is released. -/
theorem mapReserved_change (hwf : mm.paging.Wf L dirs) (hp : p.Laid L dirs mm) {r : VmmRegion}
    (hnode : mm.kmalloc.1 ≠ 0) (hc : HasPlace mm p r) (hown : r.ownPhys = false) :
    let v := p.vcb.insert mm.kmalloc.2.fuel mm.kmalloc.1 r
    (∃ pg, mapPages L mm.kmalloc.2.paging v.cr3 r.startVa r.pa (r.size / 4096) r.flags =
        (true, pg) ∧ Change L dirs (.place r) mm p (mm.kmalloc.2.withPaging pg) (p.withVcb v)) ∨
    ∃ pg, mapPages L mm.kmalloc.2.paging v.cr3 r.startVa r.pa (r.size / 4096) r.flags =
        (false, pg) ∧
      let res := vmmMmapRelease (mm.kmalloc.2.withPaging pg) v r.startVa 0
      res.2.1.pmm = mm.pmm ∧ Change L dirs (.cancel r) mm p res.2.1 (p.withVcb res.2.2) := by
  intro v
  have hsame := same_kmalloc mm
  obtain ⟨htree, hperm, -⟩ := hp.tree.insert_kmalloc hnode r
  rcases mapRegion_cases hwf hp hc.good with ⟨pg, heq, hmap⟩ | ⟨pg, heq, k, hk, hback⟩
  · exact Or.inl ⟨pg, heq, hc, rfl, rfl, htree, hsame.calls, rfl, hperm, hmap, rfl⟩
  · refine Or.inr ⟨pg, heq, ?_⟩
    obtain ⟨n, hn, hregion, hrelease⟩ := reserved_release hp hnode hc hown pg
    obtain ⟨htree', hregions'⟩ := htree.delete hn (Nat.lt_succ_self _)
    rw [hrelease]
    refine ⟨rfl, hc, rfl, rfl, htree', hsame.calls, rfl, ?_, ⟨k, hk, hback⟩, rfl⟩
    have hperm' := hregions' _ (Nat.lt_succ_self _)
    rw [hregion] at hperm'
    exact ((hperm.symm.trans hperm').cons_inv).symm

/-- A region that `vmm_map_memory` puts into the tree has a place. -/
theorem MemoryTries.hasPlace (hp : p.Laid L dirs mm) {pa size flags : Nat} {r : VmmRegion}
    (h : MemoryTries mm p pa size flags r)
    (hfits : p.regions mm = [] → r.startVa + r.size < 2 ^ 32) :
    HasPlace mm p r ∧ pa - pageMask pa < r.size := by
  -- the capability keeps the blocks inside the physical address space
  obtain ⟨c, hcmem, d, hd, hpos, hbase, hend⟩ := capCheck_mapMem h.cap
  have hdok := (hp.caps c hcmem d hd).2
  dsimp only at hpos hbase hend
  have hal : r.pa % 4096 = 0 := h.pa ▸ pageMask_mod pa
  have hals : r.size % 4096 = 0 := h.size ▸ pageMask_mod _
  have hoff : pa - pageMask pa < r.size := by
    rw [h.size]
    unfold pageMask
    omega
  have hpaFits : r.pa + r.size ≤ 2 ^ 32 := by
    rw [h.pa, h.size]
    unfold pageMask
    omega
  obtain ⟨hlt, hapart, hwhere⟩ := chooseVa_spec hp
    (fun _ => reserveFits_lt (Nat.zero_lt_of_lt hoff)) (fun hempty _ => hfits hempty) h.chosen
  have hval : r.startVa % 4096 = 0 := by
    rcases hwhere with ⟨-, heq⟩ | ⟨r', hr', heq⟩
    · rw [heq]
      exact hal
    · have h₁ := (hp.good r' hr').startVa
      have h₂ := (hp.good r' hr').size
      omega
  exact ⟨⟨⟨hval, hals, Nat.zero_lt_of_lt hoff, hlt, hal, hpaFits⟩, hapart⟩, hoff⟩

/-- `vmm_map_memory`: a region enters behind another, or nothing of it remains. -/
theorem vmmMapMemory_change (hwf : mm.paging.Wf L dirs) (hp : p.Laid L dirs mm)
    {pa size flags : Nat}
    (hfits : ∀ r, MemoryTries mm p pa size flags r → p.regions mm = [] →
      r.startVa + r.size < 2 ^ 32) :
    let res := vmmMapMemory L mm p pa size flags
    res.2.1.pmm = mm.pmm ∧
      (vmmIsErr res.1 = true ∧ Change L dirs .quiet mm p res.2.1 res.2.2 ∨
        ∃ r, MemoryTries mm p pa size flags r ∧
          Tried L dirs mm p r (vmmIsErr res.1 = false) res.2.1 res.2.2 ∧
          (vmmIsErr res.1 = false → res.1 = r.startVa + (pa - pageMask pa))) := by
  intro res
  simp only [res, vmmMapMemory]
  split_ifs with hcap hsz
  · exact ⟨rfl, Or.inl ⟨vmmIsErr_ePerm, Change.of_same hp (Same.refl mm)⟩⟩
  · exact ⟨rfl, Or.inl ⟨vmmIsErr_eInval, Change.of_same hp (Same.refl mm)⟩⟩
  rw [not_not] at hcap
  rcases vmmMmapReserve_cases mm p.vcb (pageMask pa)
    (pageMask (size + (pa - pageMask pa) + 4095)) flags with
    ⟨mm', heq, rfl | ⟨-, rfl⟩⟩ | ⟨va, hva, hnode, heq⟩
  · rw [heq]
    exact ⟨rfl, Or.inl ⟨vmmIsErr_eNomem, Change.of_same hp (Same.refl _)⟩⟩
  · rw [heq]
    exact ⟨rfl, Or.inl ⟨vmmIsErr_eNomem, Change.of_same hp (same_kmalloc mm)⟩⟩
  · rw [heq]
    have htries : MemoryTries mm p pa size flags ⟨va,
        pageMask (size + (pa - pageMask pa) + 4095), flags, pageMask pa, false⟩ :=
      ⟨hcap, hsz, hnode, rfl, rfl, rfl, rfl, hva⟩
    obtain ⟨hc, hoff⟩ := htries.hasPlace hp (hfits _ htries)
    have hfit := hc.good.fits
    rcases mapReserved_change hwf hp hnode hc rfl with ⟨pg, hmap, h⟩ | ⟨pg, hmap, hpmm, h⟩
    · dsimp only at hmap hoff hfit ⊢
      simp only [hmap, if_true]
      exact ⟨rfl, Or.inr ⟨_, htries, Or.inr ⟨not_vmmIsErr hc.good hoff, h⟩,
        fun _ => Nat.mod_eq_of_lt (by omega)⟩⟩
    · simp only [hmap, Bool.false_eq_true, if_false, vmmIsErr_eNomem]
      exact ⟨hpmm, Or.inr ⟨_, htries, Or.inl ⟨Bool.noConfusion, h⟩, fun h => nomatch h⟩⟩

theorem vmmMapMemory_cases (hm : mm.Ok L dirs) (hp : p.Sound L dirs mm) {pa size flags : Nat}
    (hfits : ∀ r, MemoryTries mm p pa size flags r → p.regions mm = [] →
      r.startVa + r.size < 2 ^ 32) :
    let res := vmmMapMemory L mm p pa size flags
    vmmIsErr res.1 = true ∧ Effect L dirs .quiet mm p res.2.1 res.2.2 ∨
      ∃ r, MemoryTries mm p pa size flags r ∧
        Attempt L dirs mm p r (vmmIsErr res.1 = false) res.2.1 res.2.2 ∧
        (vmmIsErr res.1 = false → res.1 = r.startVa + (pa - pageMask pa)) := by
  intro res
  obtain ⟨hpmm, ⟨herr, h⟩ | ⟨r, htries, h, hres⟩⟩ := vmmMapMemory_change hm.paging hp.laid hfits
  · exact Or.inl ⟨herr, h.effect trivial (hpmm ▸ Pmm.Becomes.refl _)⟩
  · have hplace := (htries.hasPlace hp.laid (hfits r htries)).1
    have hown : r.ownPhys = true → mm.pmm.reserveBlocks ≤ r.pa / 4096 := fun hown => by
      rw [htries.ownPhys] at hown
      cases hown
    exact Or.inr ⟨r, htries, h.attempt ⟨hplace.good, hplace.apart, hown⟩ hpmm, hres⟩

/-! ## Queries -/

theorem vmmLookupRegion_some {v : Vcb} {va : Nat} {r : VmmRegion}
    (h : vmmLookupRegion mm v va = some r) :
    r ∈ v.regions mm.fuel ∧ r.contains va = true := by
  obtain ⟨n, hn, rfl⟩ := Option.map_eq_some_iff.mp h
  exact (Vcb.Ok.find_some hn).2

section Lookup

variable {b va : Nat} {v : Vcb} {r : VmmRegion}

/-- The answer of `vmm_vcb_va_to_pa` is 0 or comes from a region that contains the address. -/
theorem vmmVcbVaToPa_cases (h : v.Ok b) (hb : b < mm.fuel) (va : Nat) :
    vmmVcbVaToPa mm v va = 0 ∨ va ≠ 0 ∧ ∃ r ∈ v.regions mm.fuel, r.contains va = true ∧
      vmmVcbVaToPa mm v va = (r.pa + (va - r.startVa)) % 2 ^ 32 := by
  obtain ⟨n, hn, hfound⟩ := h.search hb va
  have heq : vmmVcbVaToPa mm v va = if n = 0 then 0 else
      ((v.region n).pa + (va - (v.region n).startVa)) % 2 ^ 32 := by
    rw [vmmVcbVaToPa, hn]
    rfl
  rw [heq]
  rcases hfound with ⟨hz, hne, hmem, hcontains⟩ | ⟨hz, -⟩
  · exact Or.inr ⟨hne, _, hmem, hcontains, if_neg hz⟩
  · exact Or.inl (if_pos hz)

/-- `vmm_vcb_va_to_pa` knows the physical address of every address in a region, except 0. -/
theorem vmmVcbVaToPa_of_mem (h : v.Ok b) (hb : b < mm.fuel)
    (hpos : ∀ r ∈ v.regions mm.fuel, 0 < r.size) (hapart : (v.regions mm.fuel).Pairwise Apart)
    (hne : va ≠ 0) (hr : r ∈ v.regions mm.fuel) (hva : r.contains va = true) :
    vmmVcbVaToPa mm v va = (r.pa + (va - r.startVa)) % 2 ^ 32 := by
  have horder : (v.regions mm.fuel).Pairwise fun r r' =>
      r.contains va = true ∨ va < r.startVa → r'.contains va = false ∧ va < r'.startVa := by
    refine ((h.sorted hb).and hapart).imp_of_mem fun {r₁ r₂} _ h₂ hrr hle => ?_
    -- the first region ends before the second one begins
    have hpos₂ := hpos r₂ h₂
    obtain ⟨hstart, hap⟩ := hrr
    unfold Apart at hap
    have hlt : va < r₂.startVa := by
      rcases hle with hin | hlt
      · have := bounds_of_contains hin
        omega
      · omega
    refine ⟨?_, hlt⟩
    rw [← Bool.not_eq_true]
    intro hin
    have := bounds_of_contains hin
    omega
  obtain ⟨n, hn, ⟨hz, -, hmem, hcontains⟩ | ⟨-, hnone⟩⟩ := h.search hb va
  · have heq : v.region n = r := eq_of_contains hapart hmem hr hcontains hva
    rw [vmmVcbVaToPa, hn, ← heq]
    exact if_neg hz
  · rw [hnone hne horder r hr] at hva
    cases hva

/-- The region that contains an address is the answer of `vmm_lookup_region`. -/
theorem vmmLookupRegion_of_mem (hapart : (v.regions mm.fuel).Pairwise Apart)
    (hr : r ∈ v.regions mm.fuel) (hva : r.contains va = true) :
    vmmLookupRegion mm v va = some r := by
  unfold vmmLookupRegion
  cases hfind : v.find mm.fuel fun r => r.contains va with
  | none =>
    rw [Vcb.Ok.find_none hfind hr] at hva
    cases hva
  | some n =>
    obtain ⟨-, hmem, htest⟩ := Vcb.Ok.find_some hfind
    exact congrArg some (eq_of_contains hapart hmem hr htest hva)

end Lookup

/-- The answer of `vmm_va_to_pa` is 0 or comes from a region that contains the address. -/
theorem vmmVaToPa_spec (hp : p.Laid L dirs mm) (va : Nat) :
    vmmVaToPa mm p va = 0 ∨ va ≠ 0 ∧ ∃ r ∈ p.regions mm, r.contains va = true ∧
      vmmVaToPa mm p va = r.pa + (va - r.startVa) := by
  refine (vmmVcbVaToPa_cases hp.tree (Nat.lt_succ_self _) va).imp_right ?_
  rintro ⟨hne, r, hr, hva, heq⟩
  refine ⟨hne, r, hr, hva, heq.trans (Nat.mod_eq_of_lt ?_)⟩
  have hpa := (hp.good r hr).paFits
  have hin := bounds_of_contains hva
  omega

/-- `vmm_va_to_pa` knows the physical address of every address in a region, except 0. -/
theorem vmmVaToPa_of_mem (hp : p.Laid L dirs mm) {va : Nat} (hne : va ≠ 0) {r : VmmRegion}
    (hr : r ∈ p.regions mm) (hva : r.contains va = true) :
    vmmVaToPa mm p va = r.pa + (va - r.startVa) := by
  refine (vmmVcbVaToPa_of_mem hp.tree (Nat.lt_succ_self _) (fun r hr => (hp.good r hr).pos) hp.apart
    hne hr hva).trans (Nat.mod_eq_of_lt ?_)
  have hpa := (hp.good r hr).paFits
  have hin := bounds_of_contains hva
  omega

/-- `vmm_unmap_memory` lets a region go that is named by its start, if the process may map it. -/
theorem vmmUnmapMemory_of_mem (hp : p.Laid L dirs mm) {r : VmmRegion} (hr : r ∈ p.regions mm)
    (hown : r.ownPhys = false)
    (hcap : capCheck p.capabilities (.mapMem ⟨r.pa, r.size, 0⟩) = 0) :
    (vmmUnmapMemory mm p r.startVa r.size).1 = 0 ∧ ∃ n, p.vcb.region n = r ∧
      Leaves mm p n (vmmUnmapMemory mm p r.startVa r.size).2.1
        (vmmUnmapMemory mm p r.startVa r.size).2.2 := by
  have hgood := hp.good r hr
  have hpos := hgood.pos
  have hself : r.contains r.startVa = true :=
    hgood.contains_iff.mpr ⟨Nat.le_refl _, by omega⟩
  obtain ⟨n, hn, heq, hrelease⟩ :=
    vmmMmapRelease_of_mem hr hp.good hp.apart hown (Nat.le_refl r.size)
  unfold vmmUnmapMemory
  rw [vmmLookupRegion_of_mem hp.apart hr hself]
  dsimp only
  rw [if_neg (not_not.mpr hcap), hrelease]
  refine ⟨rfl, n, heq, hn, rfl, rfl, ?_, ?_⟩
  · rw [heq]
    rfl
  · rw [heq, hown]
    rfl

end Operations

end Ukernel.Mm
