import Ukernel.Kernel.State
import Ukernel.Mm.VmmConserve

/-!
# Shared memory

`kernel/ipc/shm.c`: a process lets another one map pages of its own. The target gets a capability
for the pages and a region that `vmm_map_memory` places.

## Why the place of the region matters

`vmm_map_memory` puts the region behind the first region of the target that has room behind it, or
where its physical pages are if the target has no region. Directories share the tables of the
kernel's directory, which are those of the user heap: a region that is placed there shows in every
address space, and the heap's pages are gone. The new region goes there if the target's regions end
right below the user heap, which nothing prevents.

## Main definitions

* `shmShare`: `shm_share`
* `FirstGap`: where `vmm_map_memory` puts a region
* `Offers`: what `shm_share` asks of its caller
* `Placed`: what it leaves in the address space of its target
* `Exposes`: what sharing is for

## Main results

* `chooseVa_firstGap`, `FirstGap.unique`: a region goes to the first gap
* `shmShare_cases`, `shmGrantAndMap_cases`: the ways through `shm_share`
* `shmShare_ok`: what has happened when `shm_share` succeeds
* `shm_exposes_pages`: when it shares what it should and nothing else
-/

namespace Ukernel.Ipc

open Arch Kernel Lib Machine Mm VmmRegion Resources

/-- The second half of `shm_share`: the target gets its capability and its region, or neither. -/
def shmGrantAndMap (L : Layout) (s : State) (pid : Nat) (target : Pcb) (cmem : CapMem)
    (pa size : Nat) : Except Int Nat × State :=
  let (ret, mm, caps) := capGrant s.mm target.capabilities (.mapMem cmem)
  let target := target.withCapabilities caps
  if ret ≠ 0 then (.error ret, s.set pid mm target)
  else
    let (targetVa, mm, target) := vmmMapMemory L mm target pa size pteUserPage
    if vmmIsErr targetVa then
      let (mm, caps) := capRevoke mm target.capabilities (.mapMem cmem)
      (.error eLimit, s.set pid mm (target.withCapabilities caps))
    else (.ok targetVa, s.set pid mm target)

/-- `shm_share` by the process `curr`; the answer 0 comes with `*out_va`. -/
def shmShare (L : Layout) (s : State) (curr pid va size : Nat) : Except Int Nat × State :=
  match s.procs curr, s.procs pid with
  | some c, some target =>
    if size = 0 then (.error eInval, s)
    else if c.priv ≠ .kernel ∧ capCheck c.capabilities (.ipc 1) ≠ 0 then (.error ePerm, s)
    else
      let pa := vmmVaToPa s.mm c va
      if pa = 0 then (.error eInval, s)
      else
        let alignedPa := pageMask pa
        let alignedPaSize := pageMask ((size + (pa - alignedPa) + 4095) % 2 ^ 32)
        match vmmLookupRegion s.mm c.vcb va with
        | none => (.error eInval, s)
        | some src =>
          if alignedPa < src.pa ∨
              alignedPaSize > (src.size + 2 ^ 32 - (alignedPa - src.pa)) % 2 ^ 32 then
            (.error eInval, s)
          else shmGrantAndMap L s pid target ⟨alignedPa, alignedPaSize, pteUserPage⟩ pa size
  | _, _ => (.error eNotfound, s)

variable {L : Layout} {s s' : State} {c t : Pcb} {curr pid va size pa outVa : Nat} {cmem : CapMem}

/-! ## Where a region goes -/

/-- There is room for `size` bytes between a region and the next one. -/
def Room (rs : List VmmRegion) (size : Nat) (r : VmmRegion) : Prop :=
  ∀ r' ∈ rs, r.startVa < r'.startVa → r.startVa + r.size + size ≤ r'.startVa

/-- The first region with room behind it ends at `va`; without regions, `va` is the address of the
physical pages. -/
def FirstGap (rs : List VmmRegion) (pa size va : Nat) : Prop :=
  rs = [] ∧ va = pa ∨ ∃ r ∈ rs, va = r.startVa + r.size ∧ Room rs size r ∧
    ∀ r' ∈ rs, r'.startVa < r.startVa → ¬Room rs size r'

/-- The place that `vmm_map_memory` chooses. -/
theorem chooseVa_firstGap {dirs : Set Nat} {mm : Resources} {p : Pcb} (hp : p.Laid L dirs mm)
    {pa size va : Nat} (hpos : 0 < size)
    (h : chooseVa mm.fuel p.vcb pa (reserveFits size) size = some va) :
    FirstGap (p.regions mm) pa size va := by
  have hroot : p.vcb.tree.root = p.vcb.tree.nil ↔ p.regions mm = [] :=
    hp.tree.root_eq_nil_iff (Nat.lt_succ_self _)
  unfold chooseVa at h
  split_ifs at h with hempty
  · exact Or.inl ⟨hroot.mp hempty, (Option.some.inj h).symm⟩
  obtain ⟨-, ⟨r, hr, hva⟩, hall, hbefore⟩ := gapSearch_spec hp.good hp.apart
    (hp.tree.sorted (Nat.lt_succ_self _)) (fun _ => reserveFits_lt hpos) h
  have hend {r r' : VmmRegion} (hr : r ∈ p.regions mm) (hr' : r' ∈ p.regions mm)
      (hlt : r.startVa < r'.startVa) : r.startVa + r.size ≤ r'.startVa := by
    have hne : r ≠ r' := fun heq => absurd (heq ▸ hlt) (Nat.lt_irrefl _)
    rcases hp.apart.forall hr hr' hne with ha | ha <;> omega
  refine Or.inr ⟨r, hr, hva, fun r' hr' hlt => ?_, fun r' hr' hlt hroom => ?_⟩
  · have hle := hend hr hr' hlt
    have hpos' := (hp.good r' hr').pos
    rcases hall r' hr' with hdone | hroom <;> omega
  · have hle := hend hr' hr hlt
    have hpos' := (hp.good r hr).pos
    obtain ⟨r'', hr'', hafter, hnear⟩ := hbefore r' hr' (by omega)
    exact absurd (hroom r'' hr'' hafter) (Nat.not_le.mpr hnear)

/-- There is one first gap. -/
theorem FirstGap.unique {rs : List VmmRegion} {pa size va va' : Nat} (hgood : ∀ r ∈ rs, r.Good)
    (hapart : rs.Pairwise Apart) (h : FirstGap rs pa size va) (h' : FirstGap rs pa size va') :
    va = va' := by
  rcases h with ⟨hnil, heq⟩ | ⟨r, hr, heq, hroom, hbefore⟩
  · rcases h' with ⟨-, heq'⟩ | ⟨r, hr, -⟩
    · rw [heq, heq']
    · rw [hnil] at hr
      exact absurd hr List.not_mem_nil
  · rcases h' with ⟨hnil, -⟩ | ⟨r', hr', heq', hroom', hbefore'⟩
    · rw [hnil] at hr
      exact absurd hr List.not_mem_nil
    · have hstart : r.startVa = r'.startVa := by
        rcases Nat.lt_trichotomy r.startVa r'.startVa with hlt | heq | hlt
        · exact absurd hroom (hbefore' r hr hlt)
        · exact heq
        · exact absurd hroom' (hbefore r' hr' hlt)
      have hself {x : VmmRegion} (hx : x ∈ rs) : x.contains x.startVa = true := by
        have hpos := (hgood x hx).pos
        exact (hgood x hx).contains_iff.mpr ⟨Nat.le_refl _, by omega⟩
      have hsame : r = r' := eq_of_contains hapart hr hr' (hself hr) (hstart ▸ hself hr')
      rw [heq, heq', hsame]

/-! ## The caller's side -/

/-- The caller may share, and the buffer at `va` lies in a region; the pages of the buffer are those
of the capability `cmem`. -/
structure Offers (mm : Resources) (c : Pcb) (va size pa : Nat) (cmem : CapMem) : Prop where
  nonempty : size ≠ 0
  ipc : ¬(c.priv ≠ .kernel ∧ capCheck c.capabilities (.ipc 1) ≠ 0)
  address : vmmVaToPa mm c va = pa
  mapped : pa ≠ 0
  pages : cmem =
    ⟨pageMask pa, pageMask ((size + (pa - pageMask pa) + 4095) % 2 ^ 32), pteUserPage⟩
  source : ∃ src, vmmLookupRegion mm c.vcb va = some src ∧ ¬(pageMask pa < src.pa ∨
    cmem.size > (src.size + 2 ^ 32 - (pageMask pa - src.pa)) % 2 ^ 32)

theorem shmShare_of_offers (hc : s.procs curr = some c) (ht : s.procs pid = some t)
    (h : Offers s.mm c va size pa cmem) :
    shmShare L s curr pid va size = shmGrantAndMap L s pid t cmem pa size := by
  obtain ⟨hsize, hipc, rfl, hne, rfl, src, hsrc, hbounds⟩ := h
  unfold shmShare
  rw [hc, ht]
  dsimp only
  rw [if_neg hsize, if_neg hipc, if_neg hne, hsrc]
  exact if_neg hbounds

/-- `shm_share` refuses, or has something to share. -/
theorem shmShare_cases (L : Layout) (s : State) (curr pid va size : Nat) :
    (∃ err, shmShare L s curr pid va size = (.error err, s)) ∧
        (∀ c t pa cmem, s.procs curr = some c → s.procs pid = some t →
          ¬Offers s.mm c va size pa cmem) ∨
      ∃ c t pa cmem, s.procs curr = some c ∧ s.procs pid = some t ∧
        Offers s.mm c va size pa cmem ∧
        shmShare L s curr pid va size = shmGrantAndMap L s pid t cmem pa size := by
  by_cases hex : ∃ c t pa cmem, s.procs curr = some c ∧ s.procs pid = some t ∧
      Offers s.mm c va size pa cmem
  · grind [shmShare_of_offers]
  · refine Or.inl ⟨?_, fun c t pa cmem hc ht ho => hex ⟨c, t, pa, cmem, hc, ht, ho⟩⟩
    unfold shmShare
    split
    · rename_i c t hc ht
      dsimp only
      split_ifs with hsize hipc hne
      · exact ⟨_, rfl⟩
      · exact ⟨_, rfl⟩
      · exact ⟨_, rfl⟩
      · split
        · exact ⟨_, rfl⟩
        · rename_i src hsrc
          split_ifs with hbounds
          · exact ⟨_, rfl⟩
          · exact absurd ⟨c, t, _, _, hc, ht, hsize, hipc, rfl, hne, rfl, src, hsrc, hbounds⟩ hex
    · exact ⟨_, rfl⟩

namespace Offers

theorem pa_lt {mm : Resources} (h : Offers mm c va size pa cmem) : pa < 2 ^ 32 := by
  rw [← h.address]
  unfold vmmVaToPa vmmVcbVaToPa
  dsimp only
  split_ifs
  · decide
  · exact Nat.mod_lt _ (by decide)

/-- The caller's side decides the pages. -/
theorem unique {mm : Resources} {pa' : Nat} {cmem' : CapMem} (h : Offers mm c va size pa cmem)
    (h' : Offers mm c va size pa' cmem') : pa' = pa ∧ cmem' = cmem := by
  obtain rfl := h.address
  obtain rfl := h'.address
  rw [h.pages, h'.pages]
  exact ⟨rfl, rfl⟩

end Offers

/-! ## The target's side -/

/-- The target with the capability for the pages. -/
def grantee (t : Pcb) (addr : Nat) (cmem : CapMem) : Pcb :=
  t.withCapabilities (⟨addr, .mapMem cmem⟩ :: t.capabilities)

/-- The capability has been granted. -/
structure Granted (s : State) (t : Pcb) (cmem : CapMem) (mm : Resources) (addr : Nat) : Prop where
  grant : capGrant s.mm t.capabilities (.mapMem cmem) =
    (0, mm, ⟨addr, .mapMem cmem⟩ :: t.capabilities)
  same : Same s.mm mm
  check : capMemGrantCheck cmem = 0
  fresh : ∀ e ∈ t.capabilities, e.cap ≠ .mapMem cmem

theorem vmmMapMemory_capabilities (L : Layout) (mm : Resources) (p : Pcb) (pa size flags : Nat) :
    (vmmMapMemory L mm p pa size flags).2.2.capabilities = p.capabilities := by
  unfold vmmMapMemory
  dsimp only
  split_ifs
  · rfl
  · rfl
  · split
    · rfl
    · split_ifs <;> rfl

/-- The second half of `shm_share`: the capability is refused, or granted and, if the pages cannot
be mapped, revoked again. -/
theorem shmGrantAndMap_cases (L : Layout) (s : State) (pid : Nat) (t : Pcb) (cmem : CapMem)
    (pa size : Nat) :
    (∃ err mm, (capGrant s.mm t.capabilities (.mapMem cmem)).1 ≠ 0 ∧ Same s.mm mm ∧
        shmGrantAndMap L s pid t cmem pa size = (.error err, s.set pid mm t)) ∨
      ∃ mm addr, Granted s t cmem mm addr ∧
        let res := vmmMapMemory L mm (grantee t addr cmem) pa size pteUserPage
        (vmmIsErr res.1 = true ∧ (∃ mm', Same res.2.1 mm' ∧
            shmGrantAndMap L s pid t cmem pa size =
              (.error eLimit, s.set pid mm' (res.2.2.withCapabilities t.capabilities))) ∨
          vmmIsErr res.1 = false ∧
            shmGrantAndMap L s pid t cmem pa size = (.ok res.1, s.set pid res.2.1 res.2.2)) := by
  unfold shmGrantAndMap
  rcases capGrant_cases s.mm t.capabilities (.mapMem cmem) with
    ⟨ret, mm, hret, hgrant, hsame⟩ | ⟨mm, addr, hgrant, hsame, hcheck, hfresh⟩
  · refine Or.inl ⟨ret, mm, by rw [hgrant]; exact hret, hsame, ?_⟩
    rw [hgrant]
    exact if_pos hret
  · refine Or.inr ⟨mm, addr, ⟨hgrant, hsame, hcheck, hfresh⟩, ?_⟩
    have hcaps := vmmMapMemory_capabilities L mm (grantee t addr cmem) pa size pteUserPage
    unfold grantee at hcaps ⊢
    rw [hgrant]
    dsimp only
    rw [if_neg (not_not.mpr rfl)]
    rcases hres : vmmMapMemory L mm (t.withCapabilities (⟨addr, .mapMem cmem⟩ :: t.capabilities)) pa
      size pteUserPage with ⟨out, mm₁, t₁⟩
    rw [hres] at hcaps
    cases herr : vmmIsErr out with
    | true =>
      obtain ⟨mm', hrevoke, hsame'⟩ := capRevoke_grant mm₁ addr hfresh
      refine Or.inl ⟨rfl, mm', hsame', ?_⟩
      rw [if_pos rfl, hcaps]
      change (_, s.set pid (capRevoke mm₁ (⟨addr, .mapMem cmem⟩ :: t.capabilities) _).1
        (t₁.withCapabilities (capRevoke mm₁ (⟨addr, .mapMem cmem⟩ :: t.capabilities) _).2)) = _
      rw [hrevoke]
    | false => exact Or.inr ⟨rfl, if_neg Bool.false_ne_true⟩

namespace Granted

variable {mm : Resources} {addr : Nat} (h : Granted s t cmem mm addr)
include h

/-- The state with the capability. -/
theorem effect (hs : Sane L s) (ht : s.procs pid = some t) (hok : cmem.Ok) :
    Effect L (s.dirs L) (.grant (.mapMem cmem)) s.mm t mm (grantee t addr cmem) :=
  (Effect.grant (hs.sound pid t ht) (fun _ hm => Cap.mapMem.inj hm ▸ hok) addr).same_right h.same

theorem regions (hs : Sane L s) (ht : s.procs pid = some t) :
    (grantee t addr cmem).regions mm = t.regions s.mm :=
  (hs.sound pid t ht).tree.regions_congr (Nat.lt_succ_self _) (Nat.lt_succ_of_le h.same.calls)

end Granted

/-- The capability is made of machine words that do not wrap around. -/
theorem Offers.ok {mm mm' : Resources} {addr : Nat} (ho : Offers mm c va size pa cmem)
    (h : Granted s t cmem mm' addr) : cmem.Ok := by
  have hlt := ho.pa_lt
  have hmask := pageMask_le pa
  have hpages := ho.pages
  refine capMemGrantCheck_ok ?_ ?_ h.check
  · rw [hpages]
    dsimp only
    omega
  · rw [hpages]
    dsimp only
    unfold pageMask
    omega

/-- The region that is tried for the target stays below the top of the address space. -/
theorem Offers.fits {mm mm' : Resources} {dirs : Set Nat} {p : Pcb}
    (ho : Offers mm c va size pa cmem) (hok : cmem.Ok) (hp : p.Laid L dirs mm') {r : VmmRegion}
    (htries : MemoryTries mm' p pa size pteUserPage r) :
    r.size = cmem.size ∧ r.pa = cmem.base ∧ r.startVa + r.size < 2 ^ 32 := by
  have hbound := htries.bound
  have hpos : 0 < r.size := by
    rw [htries.size]
    unfold pageMask
    omega
  have hsize : r.size = cmem.size := by
    rw [htries.size, ho.pages]
    rw [Nat.mod_eq_of_lt (by omega)]
  have hbase : r.pa = cmem.base := by rw [htries.pa, ho.pages]
  refine ⟨hsize, hbase, ?_⟩
  have hchosen := htries.chosen
  unfold chooseVa at hchosen
  split_ifs at hchosen with hnil
  · -- without regions the place is that of the physical pages
    have := hok.2
    rw [← Option.some.inj hchosen, hbase, hsize]
    exact this
  · exact (gapSearch_spec hp.good hp.apart (hp.tree.sorted (Nat.lt_succ_self _))
      (fun _ => reserveFits_lt hpos) hchosen).1

/-- The target is sound with its capability, and so is what `vmm_map_memory` tries for it. -/
theorem Granted.ready {mm : Resources} {addr : Nat} (hg : Granted s t cmem mm addr) (hs : Sane L s)
    (ht : s.procs pid = some t) (ho : Offers s.mm c va size pa cmem) :
    mm.Ok L (s.dirs L) ∧ (grantee t addr cmem).Sound L (s.dirs L) mm ∧
      ∀ r, MemoryTries mm (grantee t addr cmem) pa size pteUserPage r →
        r.size = cmem.size ∧ r.pa = cmem.base ∧ r.startVa + r.size < 2 ^ 32 := by
  have hok := ho.ok hg
  have hgrant := hg.effect hs ht hok
  have hp := hgrant.sound hs.ok (hs.sound pid t ht)
  exact ⟨(hgrant.steps hs.ok (hs.sound pid t ht)).ok, hp, fun r hr => ho.fits hok hp.laid hr⟩

/-- What has happened when a share has succeeded: the region `r` has entered, with the capability
for its pages. -/
structure Placed (L : Layout) (s : State) (pid : Nat) (t : Pcb) (cmem : CapMem) (addr : Nat)
    (r : VmmRegion) (s' : State) (t' : Pcb) : Prop where
  sane : Sane L s'
  procs : s'.procs = Function.update s.procs pid (some t')
  dirs : s'.dirs L = s.dirs L
  priv : t'.priv = t.priv
  cr3 : t'.vcb.cr3 = t.vcb.cr3
  capabilities : t'.capabilities = ⟨addr, .mapMem cmem⟩ :: t.capabilities
  regions : (t'.regions s'.mm).Perm (r :: t.regions s.mm)
  calls : s.mm.kheap.calls ≤ s'.mm.kheap.calls
  pages : cmem = ⟨r.pa, r.size, pteUserPage⟩
  ownPhys : r.ownPhys = false
  good : r.Good
  paging : MappedRange L (s.dirs L) t.vcb.dir (r.startVa / 4096) (r.size / 4096) r.pa pteUserPage
    s.mm.paging s'.mm.paging

/-- The pages have been mapped. -/
theorem placed_of_success (hs : Sane L s) (ht : s.procs pid = some t)
    (ho : Offers s.mm c va size pa cmem) {mm : Resources} {addr : Nat}
    (hg : Granted s t cmem mm addr)
    (hok : vmmIsErr (vmmMapMemory L mm (grantee t addr cmem) pa size pteUserPage).1 = false) :
    let res := vmmMapMemory L mm (grantee t addr cmem) pa size pteUserPage
    ∃ r, MemoryTries mm (grantee t addr cmem) pa size pteUserPage r ∧
      res.1 = r.startVa + (pa - pageMask pa) ∧
      Placed L s pid t cmem addr r (s.set pid res.2.1 res.2.2) res.2.2 := by
  intro res
  obtain ⟨hm₁, hp₁, hready⟩ := hg.ready hs ht ho
  rcases vmmMapMemory_cases hm₁ hp₁ (fun r hr _ => (hready r hr).2.2) with
    ⟨herr, -⟩ | ⟨r, htries, ⟨hno, -⟩ | ⟨-, heff⟩, hout⟩
  · rw [hok] at herr
    cases herr
  · exact absurd hok hno
  obtain ⟨hsize, hbase, hfit⟩ := hready r htries
  have hgrant := hg.effect hs ht (ho.ok hg)
  have hs₁ : Sane L (s.set pid mm (grantee t addr cmem)) := hs.act ht hgrant rfl (Nat.le_refl _)
  have hself₁ : (s.set pid mm (grantee t addr cmem)).procs pid = some (grantee t addr cmem) :=
    Function.update_self ..
  have hdirs : (s.set pid mm (grantee t addr cmem)).dirs L = s.dirs L :=
    dirs_update ht hgrant.change.dir rfl
  have hset : (s.set pid res.2.1 res.2.2).procs =
      Function.update (s.set pid mm (grantee t addr cmem)).procs pid (some res.2.2) :=
    (Function.update_idem ..).symm
  have hpaging := heff.paging
  rw [hg.same.paging] at hpaging
  refine ⟨r, htries, hout hok, ?_, rfl, dirs_update ht heff.change.dir rfl, heff.priv, heff.cr3,
    ?_, ?_, ?_, ?_, htries.ownPhys, heff.ok.good, htries.flags ▸ hpaging⟩
  · have hs₂ : Sane L (s.set pid res.2.1 res.2.2) :=
      hs₁.act hself₁ (hdirs.symm ▸ heff) hset (Nat.le_refl _)
    exact hs₂
  · exact vmmMapMemory_capabilities L mm (grantee t addr cmem) pa size pteUserPage
  · rw [← hg.regions hs ht]
    exact heff.regions
  · exact Nat.le_trans hg.same.calls heff.calls
  · rw [hsize, hbase, ho.pages]

/-- `shm_share` has succeeded. -/
theorem placed_of_shmShare (hs : Sane L s) (h : shmShare L s curr pid va size = (.ok outVa, s')) :
    ∃ c t pa cmem mm addr r t', s.procs curr = some c ∧ s.procs pid = some t ∧
      Offers s.mm c va size pa cmem ∧ Granted s t cmem mm addr ∧
      MemoryTries mm (grantee t addr cmem) pa size pteUserPage r ∧
      outVa = r.startVa + (pa - pageMask pa) ∧ Placed L s pid t cmem addr r s' t' := by
  rcases shmShare_cases L s curr pid va size with
    ⟨⟨err, heq⟩, -⟩ | ⟨c, t, pa, cmem, hc, ht, ho, heq⟩
  · rw [heq] at h
    cases h
  rw [heq] at h
  rcases shmGrantAndMap_cases L s pid t cmem pa size with
    ⟨err, mm, -, -, hrun⟩ | ⟨mm, addr, hg, ⟨-, mm', -, hrun⟩ | ⟨hok, hrun⟩⟩
  · rw [hrun] at h
    cases h
  · rw [hrun] at h
    cases h
  · grind [placed_of_success]

/-! ## What sharing does -/

/-- What has happened when `shm_share` answers `outVa`: the pages of `size` bytes at `va` belong to
the region `src` of the caller, and the region `r` of the target maps them. -/
structure Sharing (L : Layout) (s : State) (c t : Pcb) (pid va size outVa : Nat) (s' : State)
    (src r : VmmRegion) : Prop where
  mem : src ∈ c.regions s.mm
  source : src.Good
  pos : 0 < size
  start : src.startVa ≤ va
  inside : pageMask va - src.startVa + r.size ≤ src.size
  pa : r.pa = src.pa + (pageMask va - src.startVa)
  size : r.size = pageMask (va % 4096 + size + 4095)
  good : r.Good
  gap : FirstGap (t.regions s.mm) r.pa r.size r.startVa
  outVa : outVa = r.startVa + va % 4096
  procs : ∃ t', s'.procs = Function.update s.procs pid (some t') ∧ t'.vcb.cr3 = t.vcb.cr3 ∧
    (t'.regions s'.mm).Perm (r :: t.regions s.mm)
  calls : s.mm.kheap.calls ≤ s'.mm.kheap.calls
  paging : MappedRange L (s.dirs L) t.vcb.dir (r.startVa / 4096) (r.size / 4096) r.pa pteUserPage
    s.mm.paging s'.mm.paging

/-- The pages of an address in a region that is made of pages. -/
theorem pageMask_region {src : VmmRegion} (hgood : src.Good) (hstart : src.startVa ≤ va) :
    pageMask (src.pa + (va - src.startVa)) = src.pa + (pageMask va - src.startVa) ∧
      src.pa + (va - src.startVa) - pageMask (src.pa + (va - src.startVa)) = va % 4096 := by
  have h₁ := hgood.startVa
  have h₂ := hgood.pa
  unfold pageMask
  omega

/-- The pages of a share are those of a region of the caller. -/
theorem Offers.source_region {dirs : Set Nat} {mm : Resources} (ho : Offers mm c va size pa cmem)
    (hc : c.Laid L dirs mm) : ∃ src ∈ c.regions mm, src.Good ∧ src.startVa ≤ va ∧
      pageMask pa = src.pa + (pageMask va - src.startVa) ∧ pa - pageMask pa = va % 4096 ∧
      pageMask va - src.startVa + cmem.size ≤ src.size := by
  obtain ⟨src, hlookup, hbounds⟩ := ho.source
  -- the address and the region come from the same place
  obtain ⟨-, src₀, hsrc₀, hin₀, hpa⟩ :=
    (vmmVaToPa_spec hc va).resolve_left (ho.address ▸ ho.mapped)
  obtain ⟨hsrc, hin⟩ := vmmLookupRegion_some hlookup
  obtain rfl := eq_of_contains hc.apart hsrc hsrc₀ hin hin₀
  have hgood := hc.good src hsrc
  have hcontains := hgood.contains_iff.mp hin
  have hle := pageMask_le va
  obtain ⟨hmask, hoff⟩ := pageMask_region hgood hcontains.1
  rw [← hpa, ho.address] at hmask hoff
  exact ⟨src, hsrc, hgood, hcontains.1, hmask, hoff, by omega⟩

/-- `shm_share` has succeeded. -/
theorem shmShare_ok (hs : Sane L s)
    (h : shmShare L s curr pid va size = (.ok outVa, s')) : ∃ c t src r,
      s.procs curr = some c ∧ s.procs pid = some t ∧
        Sharing L s c t pid va size outVa s' src r := by
  obtain ⟨c, t, pa, cmem, mm, addr, r, t', hc, ht, ho, hg, htries, hout, hp⟩ :=
    placed_of_shmShare hs h
  obtain ⟨src, hsrc, hgood, hstart, hmask, hoff, hinside⟩ :=
    ho.source_region (hs.sound curr c hc).laid
  obtain ⟨-, hlaid, -⟩ := hg.ready hs ht ho
  have hgap := chooseVa_firstGap hlaid.laid hp.good.pos htries.chosen
  rw [hg.regions hs ht] at hgap
  refine ⟨c, t, src, r, hc, ht, hsrc, hgood, Nat.pos_of_ne_zero ho.nonempty, hstart, ?_,
    htries.pa.trans hmask, ?_, hp.good, hgap, hoff ▸ hout, ⟨t', hp.procs, hp.cr3, hp.regions⟩,
    hp.calls, hp.paging⟩
  · rw [hp.pages] at hinside
    exact hinside
  · rw [htries.size, hoff, Nat.add_comm size]

/-! ## Exactly the pages -/

/-- The region `r` of the target lets it see `size` bytes at `va` of the caller, which lie in the
region `src`, and nothing else has changed in the two address spaces. -/
structure Exposes (s : State) (curr pid va size outVa : Nat) (s' : State) (src r : VmmRegion) :
    Prop where
  source : src ∈ s.regions curr ∧ src.startVa ≤ va ∧ va + size ≤ src.startVa + src.size
  regions : (s'.regions pid).Perm (r :: s.regions pid)
  pages : src.pa ≤ r.pa ∧ r.pa + r.size ≤ src.pa + src.size
  /-- Every page of the region has been asked for. -/
  needed : ∀ a, r.contains a = true → ∃ i < size, (outVa + i) / 4096 = a / 4096
  covers : ∀ i < size, r.contains (outVa + i) = true ∧
    r.pa + (outVa + i - r.startVa) = src.pa + (va + i - src.startVa)
  translates : ∀ i < size, ∃ tr, s'.translation pid (outVa + i) = some tr ∧
    tr.frame * 4096 + (outVa + i) % 4096 = src.pa + (va + i - src.startVa)
  others : ∀ a < 2 ^ 32, r.contains a = false → s'.translation pid a = s.translation pid a
  caller : curr ≠ pid → s'.regions curr = s.regions curr ∧
    ∀ a < 2 ^ 32, s'.translation curr a = s.translation curr a

/-- The place of the new region has no page with a table that all address spaces share, save where
such a page is mapped as it is going to be. -/
def Unseen (L : Layout) (s : State) (curr pid va size : Nat) : Prop :=
  ∀ src ∈ s.regions curr, src.contains va = true →
    let pa := src.pa + (pageMask va - src.startVa)
    let n := pageMask (va % 4096 + size + 4095)
    ∀ a, FirstGap (s.regions pid) pa n a → ∀ q, a / 4096 ≤ q → q < a / 4096 + n / 4096 →
      Shared L s.mm.paging (q / 1024) → s.translation curr (q * 4096) =
        some ⟨pa / 4096 + (q - a / 4096), true, (s.mm.paging.table L.master (q / 1024)).user⟩

namespace Sharing

variable {src r : VmmRegion} (h : Sharing L s c t pid va size outVa s' src r)
include h

/-- A page of the new region, in every address space that has the table of the page. -/
theorem view_new (hs : Sane L s) (ht : s.procs pid = some t) {d q : Nat} (hd : d ∈ s.dirs L)
    (hq : r.HasPage q) (hsees : Sees L s.mm.paging t.vcb.dir d (q / 1024)) : ∃ user,
      view s'.mm.paging d q = some ⟨r.pa / 4096 + (q - r.startVa / 4096), true, user⟩ ∧
        (Shared L s.mm.paging (q / 1024) →
          user = (s.mm.paging.table L.master (q / 1024)).user) := by
  have hpaging := h.paging
  have hgood := h.good
  have hdir : t.vcb.dir ∈ s.dirs L := State.mem_dirs ht
  have htable := hpaging.tables q hq.1 hq.2
  have hrw := hpaging.wf.table_rw _ hdir _ htable
  refine ⟨(s'.mm.paging.table t.vcb.dir (q / 1024)).user, ?_, fun hshared => ?_⟩
  · rw [hpaging.view_self d hd q hq.1 hq.2 hsees]
    have h₂ := hgood.paFits
    have h₃ := hq.1
    have h₄ := hq.2
    have hframe : (r.pa + (q - r.startVa / 4096) * 4096) % 2 ^ 32 / 4096 =
        r.pa / 4096 + (q - r.startVa / 4096) := by
      omega
    have hbits : pteUserPage.testBit 0 = true ∧ pteUserPage.testBit 1 = true ∧
        pteUserPage.testBit 2 = true := by decide
    unfold compose mapPte
    simp only [hframe, hrw, hbits, Bool.and_true, if_true]
  · rw [hpaging.wf.shared hdir (by rw [hpaging.master (hs.sound pid t ht).dir_ne]; exact hshared),
      hpaging.master (hs.sound pid t ht).dir_ne]

theorem regions_eq (hs : Sane L s) (ht : s.procs pid = some t) (hc : s.procs curr = some c) :
    (s'.regions pid).Perm (r :: s.regions pid) ∧
      (curr ≠ pid → s'.regions curr = s.regions curr) := by
  obtain ⟨t', hprocs, -, hperm⟩ := h.procs
  have hself : s'.procs pid = some t' := by rw [hprocs, Function.update_self]
  constructor
  · rw [State.regions_of_some hself, State.regions_of_some ht]
    exact hperm
  · intro hne
    have hcaller : s'.procs curr = some c := by rw [hprocs, Function.update_of_ne hne, hc]
    rw [State.regions_of_some hcaller, State.regions_of_some hc]
    exact (hs.sound curr c hc).tree.regions_congr (Nat.lt_succ_self _) (Nat.lt_succ_of_le h.calls)

/-- The translations of the two processes afterwards, by page. -/
theorem translation_eq (hc : s.procs curr = some c) (a : Nat) :
    s'.translation pid a = view s'.mm.paging t.vcb.dir (a / 4096) ∧
      (curr ≠ pid → s'.translation curr a = view s'.mm.paging c.vcb.dir (a / 4096)) := by
  obtain ⟨t', hprocs, hcr3, -⟩ := h.procs
  have hself : s'.procs pid = some t' := by rw [hprocs, Function.update_self]
  have hdir : t'.vcb.dir = t.vcb.dir := congrArg (· / 4096) hcr3
  constructor
  · rw [State.translation_of_some hself, hdir]
  · intro hne
    have hcaller : s'.procs curr = some c := by rw [hprocs, Function.update_of_ne hne, hc]
    exact State.translation_of_some hcaller a

/-- The bytes that are shared, in both regions. -/
theorem bytes {i : Nat} (hi : i < size) : r.startVa ≤ outVa + i ∧ outVa + i < r.startVa + r.size ∧
    r.pa + (outVa + i - r.startVa) = src.pa + (va + i - src.startVa) := by
  have h₁ := h.outVa
  have h₂ := h.size
  have h₃ := h.pa
  have h₄ := h.start
  have h₅ := h.source.startVa
  unfold pageMask at h₂ h₃
  omega

/-- Every page of the new region has a byte that is shared. -/
theorem needed {a : Nat} (ha : r.startVa ≤ a) (ha' : a < r.startVa + r.size) :
    ∃ i < size, (outVa + i) / 4096 = a / 4096 := by
  have h₁ := h.outVa
  have h₂ := h.size
  have h₃ := h.good.startVa
  have h₄ := h.pos
  unfold pageMask at h₂
  refine ⟨a / 4096 * 4096 - outVa, ?_, ?_⟩ <;> omega

/-- The caller's region holds the bytes. -/
theorem holds : va + size ≤ src.startVa + src.size ∧ r.pa + r.size ≤ src.pa + src.size := by
  have h₁ := h.inside
  have h₂ := h.size
  have h₃ := h.pa
  unfold pageMask at *
  omega

end Sharing

/-- If `shm_share` succeeds, the target sees the bytes at `outVa`, all of its new pages belong to
the region of the caller in which `va` lies, and nothing else has changed for the two processes,
exactly if the new region is not placed where all address spaces share their tables. -/
theorem shm_exposes_pages (hs : Sane L s)
    (h : shmShare L s curr pid va size = (.ok outVa, s')) :
    (∃ src r, Exposes s curr pid va size outVa s' src r) ↔
      (curr = pid ∨ Unseen L s curr pid va size) := by
  obtain ⟨c, t, src, r, hc, ht, hsh⟩ := shmShare_ok hs h
  have hst := hs.sound pid t ht
  have hcdir : c.vcb.dir ∈ s.dirs L := State.mem_dirs hc
  have htdir : t.vcb.dir ∈ s.dirs L := State.mem_dirs ht
  have hgood := hsh.good
  have hregs : s.regions pid = t.regions s.mm := State.regions_of_some ht
  have hin {a : Nat} : r.HasPage (a / 4096) ↔ r.contains a = true := by
    rw [hgood.hasPage_iff, hgood.contains_iff]
  have hcontains : src.contains va = true := by
    have hpos := hsh.pos
    have hhold := hsh.holds.1
    exact hsh.source.contains_iff.mpr ⟨hsh.start, by omega⟩
  constructor
  · rintro ⟨src', r', hex⟩
    by_cases hne : curr = pid
    · exact Or.inl hne
    right
    intro src₁ hsrc₁ hin₁ pa n a hgap q hle hlt hshared
    have hsc := hs.sound curr c hc
    rw [State.regions_of_some hc] at hsrc₁
    obtain rfl := eq_of_contains hsc.apart hsrc₁ hsh.mem hin₁ hcontains
    have hpa : pa = r.pa := hsh.pa.symm
    have hn : n = r.size := hsh.size.symm
    rw [hregs, hpa, hn] at hgap
    obtain rfl := hgap.unique hst.good hst.apart hsh.gap
    have hpage : r.HasPage q := ⟨hle, hn ▸ hlt⟩
    obtain ⟨user, hview, huser⟩ := hsh.view_new hs ht hcdir hpage (Or.inr hshared)
    have hq := hgood.hasPage_lt hpage
    rw [← (hex.caller hne).2 (q * 4096) (by omega), (hsh.translation_eq hc _).2 hne,
      Nat.mul_div_cancel _ (by decide), hview, hpa, huser hshared]
  · intro hcond
    obtain ⟨hperm, hkept⟩ := hsh.regions_eq hs ht hc
    refine ⟨src, r, ⟨by rw [State.regions_of_some hc]; exact hsh.mem, hsh.start, hsh.holds.1⟩,
      hperm, ⟨by rw [hsh.pa]; omega, hsh.holds.2⟩, fun a ha => ?_, fun i hi => ?_, fun i hi => ?_,
      fun a ha hout => ?_, fun hne => ⟨hkept hne, fun a ha => ?_⟩⟩
    · obtain ⟨h₁, h₂⟩ := hgood.contains_iff.mp ha
      exact hsh.needed h₁ h₂
    · grind [hsh.bytes, hgood.contains_iff]
    · obtain ⟨h₁, h₂, h₃⟩ := hsh.bytes hi
      obtain ⟨user, hview, -⟩ := hsh.view_new hs ht htdir (hgood.hasPage_iff.mpr ⟨h₁, h₂⟩)
        (Or.inl rfl)
      refine ⟨_, (hsh.translation_eq hc _).1.trans hview, ?_⟩
      have h₄ := hgood.pa
      have h₅ := hgood.startVa
      dsimp only
      omega
    · rw [(hsh.translation_eq hc a).1, State.translation_of_some ht]
      refine hsh.paging.view_other _ htdir _ (by omega) fun hpage => ?_
      rw [hin.mp ⟨hpage.1, hpage.2.1⟩] at hout
      cases hout
    · rw [(hsh.translation_eq hc a).2 hne, State.translation_of_some hc]
      by_cases hpage : r.HasPage (a / 4096) ∧ Shared L s.mm.paging (a / 4096 / 1024)
      · -- a page that the caller sees as well
        have hunseen := hcond.resolve_left hne src (by rw [State.regions_of_some hc]; exact hsh.mem)
          hcontains r.startVa
        rw [← hsh.pa, ← hsh.size, hregs] at hunseen
        have hold := hunseen hsh.gap (a / 4096) hpage.1.1 hpage.1.2 hpage.2
        rw [State.translation_of_some hc, Nat.mul_div_cancel _ (by decide)] at hold
        obtain ⟨user, hview, huser⟩ := hsh.view_new hs ht hcdir hpage.1 (Or.inr hpage.2)
        rw [hold, hview, huser hpage.2]
      · refine hsh.paging.view_other _ hcdir _ (by omega)
          fun hsees => hpage ⟨⟨hsees.1, hsees.2.1⟩, ?_⟩
        refine hsees.2.2.resolve_left fun heq => hne ?_
        exact hs.inj curr c pid t hc ht heq

/-! ## Two processes -/

/-- A machine in which the first page of the user heap is at 48 MB. -/
def heapMachine : Resources :=
  (crowded 0).withPaging (archMap4kb .documented (crowded 0).paging Layout.documented.pdes
    userHeapBase 0x03000000 pteUserPage).2

theorem heapMachine_ok : heapMachine.Ok .documented {Layout.documented.master} := by
  have hwf := (crowded_ok 0).paging
  have hcr3 : Layout.documented.pdes = Layout.documented.master * 4096 := by decide
  have hva : userHeapBase = userHeapBase / 4096 * 4096 := by decide
  have hcases := archMap4kb_cases 0x03000000 pteUserPage hwf (Set.mem_singleton _)
    (show userHeapBase / 4096 < 2 ^ 20 by decide) (by decide) fun _ => rfl
  rw [← hcr3, ← hva] at hcases
  refine ⟨?_, (crowded_ok 0).pmm⟩
  change (archMap4kb _ _ _ _ _ _).2.Wf _ _
  rcases hcases with heq | ⟨pg, heq, hmap⟩
  · rw [heq]
    exact hwf
  · rw [heq]
    exact hmap.wf

/-- A process that may share memory, and map the page at `pa`. -/
def sharer (pa : Nat) : Pcb :=
  Pcb.bare .user [⟨0, .ipc 1⟩, ⟨0, .mapMem ⟨pa, 0x1000, pteUserPage⟩⟩]

theorem sharer_caps {pa : Nat} (hpa : pa + 0x1000 < 2 ^ 32) :
    ∀ e ∈ (sharer pa).capabilities, e.cap.Mem CapMem.Ok := by
  intro e he m hm
  rcases List.mem_cons.mp he with rfl | he
  · cases hm
  · rw [List.mem_singleton.mp he] at hm
    cases hm
    exact ⟨Nat.zero_lt_succ _, hpa⟩

/-- The kernel before the first process. -/
def noProcess : State := ⟨heapMachine, fun _ => none, 1, 1⟩

theorem noProcess_sane : Sane .documented noProcess where
  ok := by
    have hdirs : noProcess.dirs .documented = {Layout.documented.master} := by
      simp [State.dirs, noProcess]
    rw [hdirs]
    exact heapMachine_ok
  sound _ _ h := nomatch h
  inj _ _ _ _ h := nomatch h
  fresh _ _ := rfl

/-- A process begins, with the page at `pa` mapped at `va`. -/
def launch (s : State) (pa va : Nat) : Option State :=
  match vmmCreate .documented s.mm with
  | (.error _, _) => none
  | (.ok v, mm) =>
    let op : VmmOp := .mapFixed pa va 0x1000 pteUserPage false
    let res := op.exec .documented mm ((sharer pa).withVcb v)
    some ⟨res.1, Function.update s.procs s.pid (some res.2), s.pid + 1, s.tid⟩

theorem launch_sane {pa va : Nat} (hs : Sane .documented s) (hpa : pa + 0x1000 < 2 ^ 32)
    (hva : va + 0x1000 < 2 ^ 32) (h : launch s pa va = some s') : Sane .documented s' := by
  unfold launch at h
  split at h
  · cases h
  rename_i v mm hcreate
  have hs₁ := hs.create hcreate (sharer_caps hpa) s.tid
  have hproc : (Function.update s.procs s.pid (some ((sharer pa).withVcb v))) s.pid =
      some ((sharer pa).withVcb v) := Function.update_self _ _ _
  have hadmits : (VmmOp.mapFixed pa va 0x1000 pteUserPage false).Admits mm
      ((sharer pa).withVcb v) := by
    rintro r ⟨-, rfl⟩
    exact ⟨hva, fun hown => nomatch hown⟩
  have hs₂ := hs₁.exec hproc hadmits
  unfold State.set at hs₂
  rw [Function.update_idem] at hs₂
  cases h
  exact hs₂

/-- The first process has a page at `userAnonBase`, and the second one a page at `va`. -/
def twoProcesses (va : Nat) : Option State :=
  (launch noProcess 0x02000000 userAnonBase).bind fun s => launch s 0x02001000 va

theorem twoProcesses_sane {va : Nat} (hva : va + 0x1000 < 2 ^ 32) (h : twoProcesses va = some s) :
    Sane .documented s := by
  obtain ⟨s₁, h₁, h₂⟩ := Option.bind_eq_some_iff.mp h
  have hs₁ := launch_sane noProcess_sane (by decide) (by decide) h₁
  exact launch_sane hs₁ (by decide) hva h₂

/-- Something is true when the first process has shared its page with the second one. -/
def afterSharing (va : Nat) (f : State → Nat → State → Bool) : Bool :=
  match twoProcesses va with
  | none => false
  | some s =>
    match shmShare .documented s 1 2 userAnonBase 0x1000 with
    | (.ok outVa, s') => f s outVa s'
    | (.error _, _) => false

theorem exists_of_afterSharing (va : Nat) (f : State → Nat → State → Bool)
    (h : afterSharing va f = true) : ∃ s outVa s', twoProcesses va = some s ∧
      shmShare .documented s 1 2 userAnonBase 0x1000 = (.ok outVa, s') ∧ f s outVa s' = true := by
  unfold afterSharing at h
  split at h
  · cases h
  · grind

/-- Behind a region at `userAnonBase` nothing is shared by all. -/
theorem shm_exposes_pages_anon : ∃ s s', Sane .documented s ∧
    shmShare .documented s 1 2 userAnonBase 0x1000 = (.ok (userAnonBase + 0x1000), s') ∧
      ∃ src r, Exposes s 1 2 userAnonBase 0x1000 (userAnonBase + 0x1000) s' src r := by
  obtain ⟨s, outVa, s', htwo, hshare, hf⟩ := exists_of_afterSharing userAnonBase
    (fun s outVa _ => decide (outVa = userAnonBase + 0x1000) &&
      decide (s.regions 2 = [⟨userAnonBase, 0x1000, pteUserPage, 0x02001000, false⟩]) &&
      decide (¬(s.mm.paging.table Layout.documented.master 832).IsTable)) (by decide +kernel)
  simp only [Bool.and_eq_true, decide_eq_true_eq] at hf
  obtain ⟨⟨rfl, hregions⟩, hown⟩ := hf
  have hsane := twoProcesses_sane (by decide) htwo
  refine ⟨s, s', hsane, hshare, (shm_exposes_pages hsane hshare).mpr (Or.inr ?_)⟩
  intro src _ _ pa n a hgap q hle hlt hshared
  have hn : n = 0x1000 := by decide
  rw [hregions] at hgap
  rcases hgap with ⟨hnil, -⟩ | ⟨r, hr, rfl, -⟩
  · cases hnil
  · have hq : q / 1024 = 832 := by grind [userAnonBase]
    rw [hq] at hshared
    exact absurd hshared hown

/-- The second process has a page right below the user heap: the page that is shared with it takes
the place of the first page of the heap, for the first process as well. -/
theorem shm_replaces_heap_page : ¬∀ (L : Layout) (s : State) (curr pid va size outVa : Nat)
    (s' : State), Sane L s → shmShare L s curr pid va size = (.ok outVa, s') →
      ∃ src r, Exposes s curr pid va size outVa s' src r := by
  intro h
  obtain ⟨s, outVa, s', htwo, hshare, hf⟩ := exists_of_afterSharing (userHeapBase - 0x1000)
    (fun s _ s' => decide (s.translation 1 userHeapBase = some ⟨0x3000, true, true⟩) &&
      decide (s'.translation 1 userHeapBase = some ⟨0x2000, true, true⟩)) (by decide +kernel)
  simp only [Bool.and_eq_true, decide_eq_true_eq] at hf
  obtain ⟨src, r, hex⟩ := h _ s 1 2 _ _ outVa s' (twoProcesses_sane (by decide) htwo) hshare
  have hsame := (hex.caller (by decide)).2 userHeapBase (by decide)
  rw [hf.1, hf.2] at hsame
  cases hsame

end Ukernel.Ipc
