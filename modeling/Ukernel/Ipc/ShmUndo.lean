import Ukernel.Ipc.Shm
import Ukernel.Mm.VmmRollback

/-!
# Sharing and its end

`shm_unshare` undoes what `shm_share` does: it finds the region by any address in it, unmaps it, and
revokes the capability that the region has come with.

## What is undone, and what is not

The region and the capability are always gone again, also when `shm_share` fails half way. The pages
are unmapped, which is what they were before only if the target could not reach them: a region that
is placed in the user heap takes the place of pages of the heap, and these do not come back.

## Main definitions

* `shmUnshare`: `shm_unshare`
* `SharePasses`: the addresses at which `shm_share` maps pages, be it only to unmap them again
* `Undone`: a failure changes nothing, and `shm_unshare` brings everything back after a success

## Main results

* `share_undone`: sharing is undone just if the target could not reach any address at which pages
  are mapped
-/

namespace Ukernel.Kernel

open Arch

/-- The translation that a process can use at an address. -/
def State.reach (s : State) (id va : Nat) : Option Translation :=
  (s.translation id va).filter (·.user)

theorem State.reach_of_some {s : State} {id : Nat} {p : Mm.Pcb} (h : s.procs id = some p)
    (va : Nat) : s.reach id va = p.reach s.mm va := by
  rw [State.reach, State.translation, h]
  rfl

end Ukernel.Kernel

namespace Ukernel.Ipc

open Arch Kernel Lib Machine Mm VmmRegion Resources

/-- `shm_unshare` by the process `curr`. -/
def shmUnshare (s : State) (curr pid va : Nat) : Int × State :=
  match s.procs curr, s.procs pid with
  | some c, some target =>
    if c.priv ≠ .kernel ∧ capCheck c.capabilities (.ipc 1) ≠ 0 then (ePerm, s)
    else
      match vmmLookupRegion s.mm target.vcb va with
      | none => (eNotfound, s)
      | some r =>
        let (ret, mm, target) := vmmUnmapMemory s.mm target r.startVa r.size
        if ret ≠ 0 then (eLimit, s.set pid mm target)
        else
          let (mm, caps) := capRevoke mm target.capabilities (.mapMem ⟨r.pa, r.size, pteUserPage⟩)
          (0, s.set pid mm (target.withCapabilities caps))
  | _, _ => (eNotfound, s)

variable {L : Layout} {s s' : State} {c t : Pcb} {curr pid va size pa : Nat} {cmem : CapMem}

/-! ## What is left of a share -/

/-- The address space of a process is as before: its regions, its capabilities and what it can
reach. -/
structure SameSpace (s s' : State) (pid : Nat) : Prop where
  regions : (s'.regions pid).Perm (s.regions pid)
  capabilities : s'.capabilities pid = s.capabilities pid
  reach : ∀ va < 2 ^ 32, s'.reach pid va = s.reach pid va

/-- The address space is as before, except that the process cannot reach some addresses. -/
structure Cleared (s s' : State) (pid : Nat) (P : Nat → Prop) : Prop where
  regions : (s'.regions pid).Perm (s.regions pid)
  capabilities : s'.capabilities pid = s.capabilities pid
  cleared : ∀ va < 2 ^ 32, P va → s'.reach pid va = none
  others : ∀ va < 2 ^ 32, ¬P va → s'.reach pid va = s.reach pid va

theorem Cleared.sameSpace_iff {P : Nat → Prop} (h : Cleared s s' pid P) :
    SameSpace s s' pid ↔ ∀ va < 2 ^ 32, P va → s.reach pid va = none := by
  constructor
  · intro hsame va hva hp
    rw [← hsame.reach va hva]
    exact h.cleared va hva hp
  · intro hnone
    refine ⟨h.regions, h.capabilities, fun va hva => ?_⟩
    by_cases hp : P va
    · rw [h.cleared va hva hp, hnone va hva hp]
    · exact h.others va hva hp

/-- What has happened to the process that has been replaced. -/
theorem Cleared.of_set (ht : s.procs pid = some t) {mm : Resources} {t' : Pcb} {P : Nat → Prop}
    (hregions : (t'.regions mm).Perm (t.regions s.mm)) (hcaps : t'.capabilities = t.capabilities)
    (hcleared : ∀ va < 2 ^ 32, P va → t'.reach mm va = none)
    (hothers : ∀ va < 2 ^ 32, ¬P va → t'.reach mm va = t.reach s.mm va) :
    Cleared s (s.set pid mm t') pid P := by
  have hself : (s.set pid mm t').procs pid = some t' := Function.update_self ..
  refine ⟨?_, ?_, fun va hva hp => ?_, fun va hva hp => ?_⟩
  · rw [State.regions_of_some hself, State.regions_of_some ht]
    exact hregions
  · rw [State.capabilities_of_some hself, State.capabilities_of_some ht, hcaps]
  · rw [State.reach_of_some hself]
    exact hcleared va hva hp
  · rw [State.reach_of_some hself, State.reach_of_some ht]
    exact hothers va hva hp

/-- Nothing has happened that the process could see. -/
theorem Cleared.of_same (hs : Sane L s) (ht : s.procs pid = some t) {mm : Resources}
    (hsame : Same s.mm mm) : Cleared s (s.set pid mm t) pid fun _ => False := by
  refine Cleared.of_set ht (List.Perm.of_eq ?_) rfl (fun _ _ hp => hp.elim) fun va _ _ => ?_
  · exact (hs.sound pid t ht).tree.regions_congr (Nat.lt_succ_self _)
      (Nat.lt_succ_of_le hsame.calls)
  · exact t.reach_same hsame va

/-- `shm_share` tries to put the region into the tree of the target `t`. -/
def ShareTries (s : State) (curr pid va size : Nat) (t : Pcb) (r : VmmRegion) : Prop :=
  ∃ c pa cmem, s.procs curr = some c ∧ s.procs pid = some t ∧ Offers s.mm c va size pa cmem ∧
    let res := capGrant s.mm t.capabilities (.mapMem cmem)
    res.1 = 0 ∧ MemoryTries res.2.1 (t.withCapabilities res.2.2) pa size pteUserPage r

/-- `shm_share` writes the entry for this address of the target: the address lies in the part of the
new region that the pool has tables for. -/
def SharePasses (s : State) (curr pid va size a : Nat) : Prop :=
  ∃ t r, ShareTries s curr pid va size t r ∧ ∃ n ≤ r.size / 4096,
    Supplied s.mm.paging t.vcb.dir (r.startVa / 4096) n ∧
      r.startVa ≤ a ∧ a < r.startVa + n * 4096

/-- A share that fails leaves the target as it was, and one that succeeds can be ended by its caller
and leaves the target as it was then. -/
def Undone (L : Layout) (s : State) (curr pid va size : Nat) : Prop :=
  match shmShare L s curr pid va size with
  | (.error _, s') => SameSpace s s' pid
  | (.ok outVa, s') => (shmUnshare s' curr pid outVa).1 = 0 ∧
      SameSpace s (shmUnshare s' curr pid outVa).2 pid

section Target

variable {mm : Resources} {addr : Nat}

/-- Once the capability has been granted, the pages are those of `vmm_map_memory`. -/
theorem sharePasses_iff (hc : s.procs curr = some c) (ht : s.procs pid = some t)
    (ho : Offers s.mm c va size pa cmem) (hg : Granted s t cmem mm addr) (a : Nat) :
    SharePasses s curr pid va size a ↔
      (VmmOp.mapMemory pa size pteUserPage).Passes mm (grantee t addr cmem) a := by
  constructor
  · rintro ⟨t', r, ⟨c', pa', cmem', hc', ht', ho', -, htries⟩, n, hn, hsup, hle, hlt⟩
    cases hc.symm.trans hc'
    cases ht.symm.trans ht'
    obtain ⟨rfl, rfl⟩ := ho.unique ho'
    rw [hg.grant] at htries
    exact ⟨r, htries, n, hn, hg.same.paging ▸ hsup, hle, hlt⟩
  · rintro ⟨r, htries, n, hn, hsup, hle, hlt⟩
    refine ⟨t, r, ⟨c, pa, cmem, hc, ht, ho, ?_, ?_⟩, n, hn, hg.same.paging ▸ hsup, hle, hlt⟩
    · rw [hg.grant]
    · rw [hg.grant]
      exact htries

/-- The pages could not be mapped. -/
theorem cleared_of_failure (hs : Sane L s) (ht : s.procs pid = some t)
    (ho : Offers s.mm c va size pa cmem) (hg : Granted s t cmem mm addr) {mm' : Resources}
    (herr : vmmIsErr (vmmMapMemory L mm (grantee t addr cmem) pa size pteUserPage).1 = true)
    (hsame : Same (vmmMapMemory L mm (grantee t addr cmem) pa size pteUserPage).2.1 mm') :
    Cleared s (s.set pid mm' ((vmmMapMemory L mm (grantee t addr cmem) pa size
        pteUserPage).2.2.withCapabilities t.capabilities)) pid
      ((VmmOp.mapMemory pa size pteUserPage).Passes mm (grantee t addr cmem)) := by
  obtain ⟨hm₁, hp₁, hready⟩ := hg.ready hs ht ho
  have hfits (r : VmmRegion)
      (hr : (VmmOp.mapMemory pa size pteUserPage).Tries mm (grantee t addr cmem) r) :
      r.startVa + r.size < 2 ^ 32 := (hready r hr).2.2
  set op : VmmOp := .mapMemory pa size pteUserPage with hop
  obtain ⟨e, hchange, -⟩ := VmmOp.change_of_fails hm₁ hp₁ hfits herr
  have hregions := (VmmOp.books_of_fails hm₁ hp₁ hfits herr).1
  have hsound := hchange.laid hm₁.paging hp₁.laid
  have hfinal :
      ((op.exec L mm (grantee t addr cmem)).2.withCapabilities t.capabilities).regions mm' =
      (op.exec L mm (grantee t addr cmem)).2.regions (op.exec L mm (grantee t addr cmem)).1 :=
    hsound.tree.regions_congr (Nat.lt_succ_self _) (Nat.lt_succ_of_le hsame.calls)
  refine Cleared.of_set ht ?_ rfl (fun va hva hp => ?_) fun va hva hp => ?_
  · rw [← hg.regions hs ht]
    exact (List.Perm.of_eq hfinal).trans hregions
  · exact (Pcb.reach_same hsame _ va).trans ((VmmOp.reach_of_fails hm₁ hp₁ hfits herr hva).1 hp)
  · refine (Pcb.reach_same hsame _ va).trans
      (((VmmOp.reach_of_fails hm₁ hp₁ hfits herr hva).2 hp).trans ?_)
    exact Pcb.reach_same hg.same t va

/-- The pages have been mapped: all of them are passed. -/
theorem passes_of_success (hs : Sane L s) (ht : s.procs pid = some t)
    (ho : Offers s.mm c va size pa cmem) (hg : Granted s t cmem mm addr)
    (hok : vmmIsErr (vmmMapMemory L mm (grantee t addr cmem) pa size pteUserPage).1 = false)
    {r : VmmRegion} (htries : MemoryTries mm (grantee t addr cmem) pa size pteUserPage r)
    (a : Nat) :
    (VmmOp.mapMemory pa size pteUserPage).Passes mm (grantee t addr cmem) a ↔
      r.startVa ≤ a ∧ a < r.startVa + r.size := by
  obtain ⟨hm₁, hp₁, hready⟩ := hg.ready hs ht ho
  have hfits := (hready r htries).2.2
  obtain ⟨hplace, hoff⟩ := htries.hasPlace hp₁.laid fun _ => hfits
  have hals := hplace.good.size
  constructor
  · rintro ⟨r', hr', n, hn, -, hle, hlt⟩
    obtain rfl := htries.unique hr'
    exact ⟨hle, by omega⟩
  · rintro ⟨hle, hlt⟩
    refine ⟨r, htries, r.size / 4096, Nat.le_refl _, ?_, hle, by omega⟩
    exact (htries.succeeds_iff hm₁.paging hp₁.laid hfits).mp hok

theorem capCheck_cons {caps : List Capability} {e : Capability} {args : Cap}
    (h : capCheck caps args = 0) : capCheck (e :: caps) args = 0 := by
  unfold capCheck at h ⊢
  split_ifs at h with hany
  · rw [List.any_cons, hany, Bool.or_true]
    rfl
  · exact absurd h (by decide)

/-- The capability that a region has come with allows to unmap it. -/
theorem capCheck_of_granted {caps : List Capability} {addr base size : Nat} (hpos : 0 < size) :
    capCheck (⟨addr, .mapMem ⟨base, size, pteUserPage⟩⟩ :: caps) (.mapMem ⟨base, size, 0⟩) = 0 := by
  have hcheck : Cap.check (.mapMem ⟨base, size, pteUserPage⟩) (.mapMem ⟨base, size, 0⟩) = 0 := by
    simp [Cap.check, capMemCheck, Nat.ne_of_gt hpos]
  unfold capCheck
  rw [List.any_cons, hcheck]
  rfl

/-- `shm_unshare` ends the share whose region contains the address. -/
theorem shmUnshare_of_region (hs : Sane L s) (hc : s.procs curr = some c)
    (hipc : ¬(c.priv ≠ .kernel ∧ capCheck c.capabilities (.ipc 1) ≠ 0))
    (ht : s.procs pid = some t) {r : VmmRegion} (hr : r ∈ t.regions s.mm)
    (hva : r.contains va = true) (hown : r.ownPhys = false) {caps : List Capability}
    (hcaps : t.capabilities = ⟨addr, .mapMem ⟨r.pa, r.size, pteUserPage⟩⟩ :: caps)
    (hfresh : ∀ e ∈ caps, e.cap ≠ .mapMem ⟨r.pa, r.size, pteUserPage⟩) :
    ∃ mm' t', shmUnshare s curr pid va = (0, s.set pid mm' t') ∧
      (t.regions s.mm).Perm (r :: t'.regions mm') ∧ t'.capabilities = caps ∧
      t'.vcb.cr3 = t.vcb.cr3 ∧ Unmapped L (s.dirs L) t.vcb.dir (r.startVa / 4096) (r.size / 4096)
        s.mm.paging mm'.paging := by
  have hst := hs.sound pid t ht
  obtain ⟨hret, n, rfl, hleaves⟩ := vmmUnmapMemory_of_mem hst.laid hr hown
    (hcaps ▸ capCheck_of_granted (hst.good r hr).pos)
  have hchange := hleaves.change hs.ok.paging hst.laid
  rw [leave, if_neg (by rw [hown]; decide)] at hchange
  set r := t.vcb.region n
  rcases hun : vmmUnmapMemory s.mm t r.startVa r.size with ⟨ret, mm₁, t₁⟩
  rw [hun] at hret hchange
  have hcaps₁ : t₁.capabilities = t.capabilities := hchange.caps
  obtain ⟨mm', hrevoke, hsame⟩ := capRevoke_grant mm₁ addr hfresh
  have hlaid := hchange.laid hs.ok.paging hst.laid
  have hregions : (t₁.withCapabilities caps).regions mm' = t₁.regions mm₁ :=
    hlaid.tree.regions_congr (Nat.lt_succ_self _) (Nat.lt_succ_of_le hsame.calls)
  refine ⟨mm', t₁.withCapabilities caps, ?_, ?_, rfl, hchange.cr3, ?_⟩
  · unfold shmUnshare
    rw [hc, ht]
    dsimp only
    rw [if_neg hipc, vmmLookupRegion_of_mem hst.laid.apart hr hva]
    dsimp only
    rw [hun]
    rw [if_neg (not_not.mpr hret), hcaps₁, hcaps, hrevoke]
  · rw [hregions]
    exact hchange.regions
  · rw [hsame.paging]
    exact hchange.paging

/-- The caller may still share. -/
theorem Placed.ipc {r : VmmRegion} {t' : Pcb} (h : Placed L s pid t cmem addr r s' t')
    (hc : s.procs curr = some c) (ht : s.procs pid = some t)
    (hipc : ¬(c.priv ≠ .kernel ∧ capCheck c.capabilities (.ipc 1) ≠ 0)) :
    ∃ c', s'.procs curr = some c' ∧
      ¬(c'.priv ≠ .kernel ∧ capCheck c'.capabilities (.ipc 1) ≠ 0) := by
  rw [h.procs]
  by_cases hcp : curr = pid
  · grind [h.priv, h.capabilities, capCheck_cons]
  · exact ⟨c, (Function.update_of_ne hcp ..).trans hc, hipc⟩

/-- The share has succeeded, and its caller ends it. -/
theorem cleared_of_unshare (hs : Sane L s) (hc : s.procs curr = some c) (ht : s.procs pid = some t)
    (ho : Offers s.mm c va size pa cmem) (hg : Granted s t cmem mm addr)
    (hok : vmmIsErr (vmmMapMemory L mm (grantee t addr cmem) pa size pteUserPage).1 = false) :
    let res := vmmMapMemory L mm (grantee t addr cmem) pa size pteUserPage
    let s' := s.set pid res.2.1 res.2.2
    (shmUnshare s' curr pid res.1).1 = 0 ∧ Cleared s (shmUnshare s' curr pid res.1).2 pid
      ((VmmOp.mapMemory pa size pteUserPage).Passes mm (grantee t addr cmem)) := by
  intro res s'
  obtain ⟨r, htries, hout, hplaced⟩ := placed_of_success hs ht ho hg hok
  obtain ⟨-, hp₁, hready⟩ := hg.ready hs ht ho
  obtain ⟨-, hoff⟩ := htries.hasPlace hp₁.laid fun _ => (hready r htries).2.2
  have hgood := hplaced.good
  have hout : res.1 = r.startVa + (pa - pageMask pa) := hout
  have hva : r.contains res.1 = true := hgood.contains_iff.mpr ⟨by omega, by omega⟩
  have hself : s'.procs pid = some res.2.2 := Function.update_self ..
  obtain ⟨c', hc', hipc'⟩ := hplaced.ipc hc ht ho.ipc
  obtain ⟨mm', t', hrun, hregions, hcaps, hcr3, hun⟩ := shmUnshare_of_region hplaced.sane hc' hipc'
    hself (hplaced.regions.mem_iff.mpr List.mem_cons_self) hva
    hplaced.ownPhys (by rw [← hplaced.pages]; exact hplaced.capabilities)
    (by rw [← hplaced.pages]; exact hg.fresh)
  have hfinal : s'.set pid mm' t' = s.set pid mm' t' := by
    simp only [s', State.set, Function.update_idem]
  rw [hrun, hfinal]
  have hdir : res.2.2.vcb.dir = t.vcb.dir := congrArg (· / 4096) hplaced.cr3
  have hdir' : t'.vcb.dir = t.vcb.dir := (congrArg (· / 4096) hcr3).trans hdir
  rw [hplaced.dirs, hdir] at hun
  obtain ⟨hin, hout⟩ := userView_unmapped (State.mem_dirs ht) hplaced.paging hun
  have hal := hgood.startVa
  have hals := hgood.size
  refine ⟨rfl, Cleared.of_set ht ?_ hcaps (fun a ha hp => ?_) fun a ha hp => ?_⟩
  · exact ((hplaced.regions.symm.trans hregions).cons_inv).symm
  · grind [passes_of_success, Pcb.reach_eq]
  · grind [passes_of_success, Pcb.reach_eq]

end Target

/-- A share that fails leaves the target as it was, and one that succeeds can be ended and leaves
the target as it was then, just if the target could not reach any of the addresses at which pages
are mapped. -/
theorem share_undone (hs : Sane L s) : Undone L s curr pid va size ↔
    ∀ a < 2 ^ 32, SharePasses s curr pid va size a → s.reach pid a = none := by
  unfold Undone
  rcases shmShare_cases L s curr pid va size with
    ⟨⟨err, heq⟩, hno⟩ | ⟨c, t, pa, cmem, hc, ht, ho, heq⟩
  · rw [heq]
    refine iff_of_true ⟨List.Perm.refl _, rfl, fun _ _ => rfl⟩ fun a _ hp => ?_
    obtain ⟨t, r, ⟨c, pa, cmem, hc, ht, ho, -⟩, -⟩ := hp
    exact absurd ho (hno c t pa cmem hc ht)
  · rw [heq]
    rcases shmGrantAndMap_cases L s pid t cmem pa size with
      ⟨err, mm, hret, hsame, hrun⟩ | ⟨mm, addr, hg, ⟨herr, mm', hsame, hrun⟩ | ⟨hok, hrun⟩⟩
    · rw [hrun]
      refine iff_of_true ?_ fun a _ hp => ?_
      · exact (Cleared.of_same hs ht hsame).sameSpace_iff.mpr fun _ _ hp => hp.elim
      · obtain ⟨t', r, ⟨c', pa', cmem', hc', ht', ho', hgrant, -⟩, -⟩ := hp
        cases hc.symm.trans hc'
        cases ht.symm.trans ht'
        obtain ⟨rfl, rfl⟩ := ho.unique ho'
        exact absurd hgrant hret
    · rw [hrun]
      refine (cleared_of_failure hs ht ho hg herr hsame).sameSpace_iff.trans ?_
      simp only [sharePasses_iff hc ht ho hg]
    · rw [hrun]
      obtain ⟨hzero, hcleared⟩ := cleared_of_unshare hs hc ht ho hg hok
      refine (and_iff_right hzero).trans (hcleared.sameSpace_iff.trans ?_)
      simp only [sharePasses_iff hc ht ho hg]

/-- The region that `shm_share` tries begins where a region of the target ends, or where the
physical pages are. -/
theorem ShareTries.startVa (hs : Sane L s) {r : VmmRegion}
    (h : ShareTries s curr pid va size t r) :
    t.regions s.mm = [] ∨ ∃ r' ∈ t.regions s.mm, r.startVa = r'.startVa + r'.size := by
  obtain ⟨c, pa, cmem, hc, ht, ho, hret, htries⟩ := h
  rcases capGrant_cases s.mm t.capabilities (.mapMem cmem) with
    ⟨ret, mm, hne, hgrant, -⟩ | ⟨mm, addr, hgrant, hsame, hcheck, hfresh⟩
  · rw [hgrant] at hret
    exact absurd hret hne
  · have hg : Granted s t cmem mm addr := ⟨hgrant, hsame, hcheck, hfresh⟩
    obtain ⟨-, hp, hready⟩ := hg.ready hs ht ho
    rw [hgrant] at htries
    have hfits := (hready r htries).2.2
    have hgood := (htries.hasPlace hp.laid fun _ => hfits).1.good
    rw [← hg.regions hs ht]
    obtain ⟨-, -, hwhere⟩ := chooseVa_spec hp.laid (fun _ => reserveFits_lt hgood.pos)
      (fun _ _ => hfits) htries.chosen
    exact hwhere.imp_left And.left

/-- Behind a region at `userAnonBase` nothing is in reach. -/
theorem share_undone_anon : ∃ s outVa s', Sane .documented s ∧
    shmShare .documented s 1 2 userAnonBase 0x1000 = (.ok outVa, s') ∧
      Undone .documented s 1 2 userAnonBase 0x1000 := by
  obtain ⟨s, outVa, s', htwo, hshare, hf⟩ := exists_of_afterSharing userAnonBase
    (fun s _ _ => decide (s.regions 2 = [⟨userAnonBase, 0x1000, pteUserPage, 0x02001000, false⟩]) &&
      decide (s.reach 2 (userAnonBase + 0x1000) = none) &&
      decide (((s.procs 1).map fun c => vmmVaToPa s.mm c userAnonBase) = some 0x02000000))
    (by decide +kernel)
  simp only [Bool.and_eq_true, decide_eq_true_eq] at hf
  obtain ⟨⟨hregions, hreach⟩, hpa⟩ := hf
  have hsane := twoProcesses_sane (by decide) htwo
  refine ⟨s, outVa, s', hsane, hshare, (share_undone hsane).mpr ?_⟩
  rintro a - ⟨t, r, htries, n, hn, -, hle, hlt⟩
  have hstart := htries.startVa hsane
  obtain ⟨c, pa, cmem, hc, ht, ho, -, hmem⟩ := htries
  rw [State.regions_of_some ht] at hregions
  rw [hc, Option.map_some, ho.address] at hpa
  obtain rfl : pa = 0x02000000 := Option.some.inj hpa
  have hsize : r.size = 0x1000 := hmem.size.trans (by decide)
  have hva : r.startVa = userAnonBase + 0x1000 := by grind
  have hpage : a / 4096 = (userAnonBase + 0x1000) / 4096 := by
    unfold userAnonBase at hva ⊢
    omega
  rw [State.reach_of_some ht, Pcb.reach_eq] at hreach ⊢
  rw [hpage]
  exact hreach

/-- The second process has a page right below the user heap: the first page of the heap does not
come back when the share ends. -/
theorem share_not_undone : ∃ s outVa s', Sane .documented s ∧
    shmShare .documented s 1 2 userAnonBase 0x1000 = (.ok outVa, s') ∧
      (shmUnshare s' 1 2 outVa).1 = 0 ∧
      s.reach 2 userHeapBase = some ⟨0x3000, true, true⟩ ∧
      (shmUnshare s' 1 2 outVa).2.reach 2 userHeapBase = none := by
  obtain ⟨s, outVa, s', htwo, hshare, hf⟩ := exists_of_afterSharing (userHeapBase - 0x1000)
    (fun s outVa s' => decide ((shmUnshare s' 1 2 outVa).1 = 0) &&
      decide (s.reach 2 userHeapBase = some ⟨0x3000, true, true⟩) &&
      decide ((shmUnshare s' 1 2 outVa).2.reach 2 userHeapBase = none)) (by decide +kernel)
  simp only [Bool.and_eq_true, decide_eq_true_eq] at hf
  exact ⟨s, outVa, s', twoProcesses_sane (by decide) htwo, hshare, hf.1.1, hf.1.2, hf.2⟩

end Ukernel.Ipc
