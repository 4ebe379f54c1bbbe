import Ukernel.Arch.PagingDirs
import Ukernel.Mm.PmmOps
import Ukernel.Mm.Vmm

/-!
# What an operation on an address space does

The abstract machine of an address space. A state shows the regions, the capabilities, the blocks
in use and the translation of every page; a transition is labelled with an event, which says which
region enters or leaves and whether its blocks change hands.

## Main definitions

* `VmmRegion.Good`, `VmmRegion.Apart`: regions that are well formed, and disjoint
* `Pcb.Sound`: the invariant of a process's address space
* `Event`, `Effect`: the transitions
* `Pcb.Laid`, `Change`: the same, whoever owns the blocks

## Main results

* `Change.laid`, `Effect.sound`: every transition keeps the invariant
* `Pcb.Sound.frame`: a transition of one process keeps the invariant of the others
-/

namespace Ukernel.Mm

open Arch Kernel Lib

namespace VmmRegion

/-- The region is made of pages and does not reach the top of the address space. -/
structure Good (r : VmmRegion) : Prop where
  startVa : r.startVa % 4096 = 0
  size : r.size % 4096 = 0
  pos : 0 < r.size
  fits : r.startVa + r.size < 2 ^ 32
  pa : r.pa % 4096 = 0
  paFits : r.pa + r.size ≤ 2 ^ 32

/-- The regions have no address in common. -/
def Apart (r r' : VmmRegion) : Prop :=
  r.startVa + r.size ≤ r'.startVa ∨ r'.startVa + r'.size ≤ r.startVa

theorem Apart.symm {r r' : VmmRegion} (h : r.Apart r') : r'.Apart r := Or.symm h

instance : Std.Symm Apart := ⟨fun _ _ => Apart.symm⟩

/-- The page belongs to the region. -/
def HasPage (r : VmmRegion) (q : Nat) : Prop :=
  r.startVa / 4096 ≤ q ∧ q < r.startVa / 4096 + r.size / 4096

/-- The region maps the block of physical memory. -/
def HasBlock (r : VmmRegion) (b : Nat) : Prop :=
  r.pa / 4096 ≤ b ∧ b < r.pa / 4096 + r.size / 4096

instance (r : VmmRegion) (q : Nat) : Decidable (r.HasPage q) := by unfold HasPage; infer_instance

instance (r : VmmRegion) (b : Nat) : Decidable (r.HasBlock b) := by unfold HasBlock; infer_instance

namespace Good

variable {r r' : VmmRegion} (h : r.Good)
include h

theorem limit_eq : r.limit = r.startVa + r.size := Nat.mod_eq_of_lt h.fits

theorem contains_iff {va : Nat} :
    r.contains va = true ↔ r.startVa ≤ va ∧ va < r.startVa + r.size := by
  rw [contains, h.limit_eq, Bool.and_eq_true, decide_eq_true_eq, decide_eq_true_eq]

theorem hasPage_lt {q : Nat} (hq : r.HasPage q) : q < 2 ^ 20 := by
  have := h.fits
  unfold HasPage at hq
  omega

theorem hasPage_iff {va : Nat} :
    r.HasPage (va / 4096) ↔ r.startVa ≤ va ∧ va < r.startVa + r.size := by
  have h₁ := h.startVa
  have h₂ := h.size
  unfold HasPage
  omega

end Good

theorem bounds_of_contains {r : VmmRegion} {va : Nat} (h : r.contains va = true) :
    r.startVa ≤ va ∧ va < r.startVa + r.size := by
  rw [contains, Bool.and_eq_true, decide_eq_true_eq, decide_eq_true_eq] at h
  exact ⟨h.1, Nat.lt_of_lt_of_le h.2 (Nat.mod_le _ _)⟩

/-- Two regions of an address space with a common address are the same. -/
theorem eq_of_contains {rs : List VmmRegion} (hapart : rs.Pairwise Apart) {r r' : VmmRegion}
    (hr : r ∈ rs) (hr' : r' ∈ rs) {va : Nat} (h : r.contains va = true)
    (h' : r'.contains va = true) : r = r' := by
  by_contra hne
  have hap : r.Apart r' := hapart.forall hr hr' hne
  have hin := bounds_of_contains h
  have hin' := bounds_of_contains h'
  unfold Apart at hap
  omega

end VmmRegion

open VmmRegion

/-- The frame of the directory. -/
def Vcb.dir (v : Vcb) : Nat := v.cr3 / 4096

/-- The regions of a process. -/
def Pcb.regions (mm : Resources) (p : Pcb) : List VmmRegion := p.vcb.regions mm.fuel

/-- The paging structures and the physical memory manager are in order. -/
structure Resources.Ok (L : Layout) (dirs : Set Nat) (mm : Resources) : Prop where
  paging : mm.paging.Wf L dirs
  pmm : mm.pmm.Ready

/-- The invariant of a process's address space, `dirs` being the directories in use. -/
structure Pcb.Sound (L : Layout) (dirs : Set Nat) (mm : Resources) (p : Pcb) : Prop where
  tree : p.vcb.Ok mm.kheap.calls
  cr3 : p.vcb.cr3 = p.vcb.dir * 4096
  dir_mem : p.vcb.dir ∈ dirs
  dir_pos : p.vcb.dir ≠ 0
  dir_ne : p.vcb.dir ≠ L.master
  good : ∀ r ∈ p.regions mm, r.Good
  apart : (p.regions mm).Pairwise Apart
  tables : ∀ r ∈ p.regions mm, ∀ q, r.HasPage q → (mm.paging.table p.vcb.dir (q / 1024)).IsTable
  owned : ∀ r ∈ p.regions mm, r.ownPhys = true → mm.pmm.reserveBlocks ≤ r.pa / 4096
  caps : ∀ e ∈ p.capabilities, e.cap.Mem CapMem.Ok

/-- The region may enter. -/
structure Candidate (mm : Resources) (p : Pcb) (r : VmmRegion) : Prop where
  good : r.Good
  apart : ∀ r' ∈ p.regions mm, r.Apart r'
  owned : r.ownPhys = true → mm.pmm.reserveBlocks ≤ r.pa / 4096

/-- What can happen to an address space. -/
inductive Event where
  /-- nothing that shows -/
  | quiet
  /-- a region enters; its blocks stay as they are -/
  | place (r : VmmRegion)
  /-- a region has entered and left again, with some of its pages mapped in between -/
  | cancel (r : VmmRegion)
  /-- a region enters with blocks that were free -/
  | acquire (r : VmmRegion)
  /-- a region leaves; its blocks stay as they are -/
  | remove (r : VmmRegion)
  /-- a region leaves and its blocks are freed -/
  | dispose (r : VmmRegion)
  /-- a capability is granted -/
  | grant (c : Cap)
  /-- capabilities are revoked -/
  | drop

namespace Event

/-- What the state has to satisfy. -/
def Ok (mm : Resources) (p : Pcb) : Event → Prop
  | place r => Candidate mm p r
  | cancel r => Candidate mm p r
  | acquire r => Candidate mm p r ∧ r.ownPhys = true ∧ ∀ b, r.HasBlock b →
      b < mm.pmm.totalBlocks ∧ mm.pmm.bitmapTest b = false
  | dispose r => r.ownPhys = true
  | grant c => c.Mem CapMem.Ok
  | _ => True

/-- The blocks in use afterwards. -/
def bits (used : Nat → Bool) : Event → Nat → Bool
  | acquire r => fun b => decide (r.HasBlock b) || used b
  | dispose r => fun b => !decide (r.HasBlock b) && used b
  | _ => used

/-- The regions before and afterwards. -/
def Regions (rs rs' : List VmmRegion) : Event → Prop
  | place r => rs'.Perm (r :: rs)
  | acquire r => rs'.Perm (r :: rs)
  | remove r => rs.Perm (r :: rs')
  | dispose r => rs.Perm (r :: rs')
  | _ => rs'.Perm rs

/-- The paging structures before and afterwards. -/
def Paging (L : Layout) (dirs : Set Nat) (d : Nat) (pg pg' : Arch.Paging) : Event → Prop
  | place r => MappedRange L dirs d (r.startVa / 4096) (r.size / 4096) r.pa r.flags pg pg'
  | acquire r => MappedRange L dirs d (r.startVa / 4096) (r.size / 4096) r.pa r.flags pg pg'
  | cancel r => ∃ k ≤ r.size / 4096, RolledBack L dirs d (r.startVa / 4096) k r.flags pg pg'
  | remove r => Unmapped L dirs d (r.startVa / 4096) (r.size / 4096) pg pg'
  | dispose r => Unmapped L dirs d (r.startVa / 4096) (r.size / 4096) pg pg'
  | _ => pg' = pg

/-- The capabilities before and afterwards. -/
def Caps (caps caps' : List Capability) : Event → Prop
  | grant c => ∃ addr, caps' = ⟨addr, c⟩ :: caps
  | drop => caps' ⊆ caps
  | _ => caps' = caps

/-- The region that enters, if only for a moment. -/
def new : Event → Option VmmRegion
  | place r => some r
  | cancel r => some r
  | acquire r => some r
  | _ => none

end Event

/-- A transition. -/
structure Effect (L : Layout) (dirs : Set Nat) (e : Event) (mm : Resources) (p : Pcb)
    (mm' : Resources) (p' : Pcb) : Prop where
  ok : e.Ok mm p
  priv : p'.priv = p.priv
  cr3 : p'.vcb.cr3 = p.vcb.cr3
  tree : p'.vcb.Ok mm'.kheap.calls
  calls : mm.kheap.calls ≤ mm'.kheap.calls
  pmm : Pmm.Becomes mm.pmm mm'.pmm (e.bits mm.pmm.bitmapTest)
  regions : e.Regions (p.regions mm) (p'.regions mm')
  paging : e.Paging L dirs p.vcb.dir mm.paging mm'.paging
  caps : e.Caps p.capabilities p'.capabilities

variable {L : Layout} {dirs : Set Nat} {mm mm' : Resources} {p p' q : Pcb} {e : Event}

/-! ## Without the physical memory manager

What an address space shows does not depend on whose the blocks are that it maps. `Pcb.Laid` and
`Change` leave the blocks out, and hold whatever a caller says about their owner. -/

/-- The invariant of an address space, whoever owns its blocks. -/
structure Pcb.Laid (L : Layout) (dirs : Set Nat) (mm : Resources) (p : Pcb) : Prop where
  tree : p.vcb.Ok mm.kheap.calls
  cr3 : p.vcb.cr3 = p.vcb.dir * 4096
  dir_mem : p.vcb.dir ∈ dirs
  dir_pos : p.vcb.dir ≠ 0
  dir_ne : p.vcb.dir ≠ L.master
  good : ∀ r ∈ p.regions mm, r.Good
  apart : (p.regions mm).Pairwise Apart
  tables : ∀ r ∈ p.regions mm, ∀ q, r.HasPage q → (mm.paging.table p.vcb.dir (q / 1024)).IsTable
  caps : ∀ e ∈ p.capabilities, e.cap.Mem CapMem.Ok

theorem Pcb.Sound.laid (h : p.Sound L dirs mm) : p.Laid L dirs mm :=
  ⟨h.tree, h.cr3, h.dir_mem, h.dir_pos, h.dir_ne, h.good, h.apart, h.tables, h.caps⟩

theorem Pcb.Laid.sound (h : p.Laid L dirs mm)
    (hown : ∀ r ∈ p.regions mm, r.ownPhys = true → mm.pmm.reserveBlocks ≤ r.pa / 4096) :
    p.Sound L dirs mm :=
  ⟨h.tree, h.cr3, h.dir_mem, h.dir_pos, h.dir_ne, h.good, h.apart, h.tables, hown, h.caps⟩

/-- The region has a place among the others. -/
structure HasPlace (mm : Resources) (p : Pcb) (r : VmmRegion) : Prop where
  good : r.Good
  apart : ∀ r' ∈ p.regions mm, r.Apart r'

/-- What the address space has to satisfy. -/
def Event.Fits (mm : Resources) (p : Pcb) : Event → Prop
  | place r => HasPlace mm p r
  | cancel r => HasPlace mm p r
  | acquire r => HasPlace mm p r
  | grant c => c.Mem CapMem.Ok
  | _ => True

/-- What a transition does to an address space. -/
structure Change (L : Layout) (dirs : Set Nat) (e : Event) (mm : Resources) (p : Pcb)
    (mm' : Resources) (p' : Pcb) : Prop where
  fits : e.Fits mm p
  priv : p'.priv = p.priv
  cr3 : p'.vcb.cr3 = p.vcb.cr3
  tree : p'.vcb.Ok mm'.kheap.calls
  calls : mm.kheap.calls ≤ mm'.kheap.calls
  total : mm'.pmm.totalBlocks = mm.pmm.totalBlocks
  regions : e.Regions (p.regions mm) (p'.regions mm')
  paging : e.Paging L dirs p.vcb.dir mm.paging mm'.paging
  caps : e.Caps p.capabilities p'.capabilities

theorem Candidate.hasPlace {r : VmmRegion} (h : Candidate mm p r) : HasPlace mm p r :=
  ⟨h.good, h.apart⟩

theorem Event.Ok.fits (h : e.Ok mm p) : e.Fits mm p := by
  cases e with
  | place r | cancel r => exact Candidate.hasPlace h
  | acquire r => exact Candidate.hasPlace h.1
  | grant c => exact h
  | _ => trivial

theorem Effect.change (h : Effect L dirs e mm p mm' p') : Change L dirs e mm p mm' p' :=
  ⟨h.ok.fits, h.priv, h.cr3, h.tree, h.calls, h.pmm.shape.totalBlocks, h.regions, h.paging, h.caps⟩

namespace Change

theorem effect (h : Change L dirs e mm p mm' p') (hok : e.Ok mm p)
    (hpmm : Pmm.Becomes mm.pmm mm'.pmm (e.bits mm.pmm.bitmapTest)) :
    Effect L dirs e mm p mm' p' :=
  ⟨hok, h.priv, h.cr3, h.tree, h.calls, hpmm, h.regions, h.paging, h.caps⟩

theorem steady (hwf : mm.paging.Wf L dirs) (h : Change L dirs e mm p mm' p') :
    Steady L dirs p.vcb.dir mm.paging mm'.paging := by
  have hpaging := h.paging
  cases e with
  | place r => exact MappedRange.toSteady hpaging
  | acquire r => exact MappedRange.toSteady hpaging
  | cancel r =>
    obtain ⟨k, -, hback⟩ := hpaging
    exact hback.toSteady
  | remove r => exact Unmapped.toSteady hpaging
  | dispose r => exact Unmapped.toSteady hpaging
  | quiet | grant c | drop =>
    have heq : mm'.paging = mm.paging := hpaging
    rw [heq]
    exact Steady.refl hwf _

/-- The regions afterwards: those that were there, and the one that entered, for which there are
tables. -/
theorem mem_regions (h : Change L dirs e mm p mm' p') {r : VmmRegion} (hr : r ∈ p'.regions mm') :
    r ∈ p.regions mm ∨ e.new = some r ∧
      ∀ q, r.HasPage q → (mm'.paging.table p.vcb.dir (q / 1024)).IsTable := by
  have hpaging := h.paging
  have hregions := h.regions
  cases e with
  | place r' | acquire r' =>
    have hperm : (p'.regions mm').Perm (r' :: p.regions mm) := hregions
    rcases List.mem_cons.mp (hperm.mem_iff.mp hr) with rfl | hmem
    · exact Or.inr ⟨rfl, fun q hq => MappedRange.tables hpaging q hq.1 hq.2⟩
    · exact Or.inl hmem
  | remove r' | dispose r' =>
    have hperm : (p.regions mm).Perm (r' :: p'.regions mm') := hregions
    exact Or.inl (hperm.mem_iff.mpr (List.mem_cons_of_mem _ hr))
  | quiet | cancel r' | grant c | drop =>
    have hperm : (p'.regions mm').Perm (p.regions mm) := hregions
    exact Or.inl (hperm.mem_iff.mp hr)

theorem hasPlace (h : Change L dirs e mm p mm' p') {r : VmmRegion} (hr : e.new = some r) :
    HasPlace mm p r := by
  have hfits := h.fits
  cases e with
  | place r' | cancel r' | acquire r' => exact Option.some.inj hr ▸ hfits
  | _ => cases hr

theorem apart (hp : p.Laid L dirs mm) (h : Change L dirs e mm p mm' p') :
    (p'.regions mm').Pairwise VmmRegion.Apart := by
  have hregions := h.regions
  cases e with
  | place r | acquire r =>
    have hperm : (p'.regions mm').Perm (r :: p.regions mm) := hregions
    refine (hperm.pairwise_iff fun hrr => VmmRegion.Apart.symm hrr).mpr ?_
    exact List.pairwise_cons.mpr ⟨(h.hasPlace rfl).apart, hp.apart⟩
  | remove r | dispose r =>
    have hperm : (p.regions mm).Perm (r :: p'.regions mm') := hregions
    have hcons := (hperm.pairwise_iff fun hrr => VmmRegion.Apart.symm hrr).mp hp.apart
    exact (List.pairwise_cons.mp hcons).2
  | quiet | cancel r | grant c | drop =>
    have hperm : (p'.regions mm').Perm (p.regions mm) := hregions
    exact (hperm.pairwise_iff fun hrr => VmmRegion.Apart.symm hrr).mpr hp.apart

theorem dir (h : Change L dirs e mm p mm' p') : p'.vcb.dir = p.vcb.dir :=
  congrArg (· / 4096) h.cr3

/-- A transition keeps the invariant of its address space. -/
theorem laid (hwf : mm.paging.Wf L dirs) (hp : p.Laid L dirs mm)
    (h : Change L dirs e mm p mm' p') : p'.Laid L dirs mm' := by
  have hdir := h.dir
  refine ⟨h.tree, ?_, hdir ▸ hp.dir_mem, hdir ▸ hp.dir_pos, hdir ▸ hp.dir_ne, ?_, h.apart hp, ?_,
    ?_⟩
  · rw [h.cr3, hdir]
    exact hp.cr3
  · intro r hr
    rcases h.mem_regions hr with hold | ⟨hnew, -⟩
    · exact hp.good r hold
    · exact (h.hasPlace hnew).good
  · intro r hr q hq
    rw [hdir]
    rcases h.mem_regions hr with hold | ⟨-, htables⟩
    · exact (h.steady hwf).isTable hp.dir_mem (hp.tables r hold q hq)
    · exact htables q hq
  · intro c hc
    have hcaps := h.caps
    cases e with
    | grant c' =>
      obtain ⟨addr, heq⟩ := hcaps
      rw [heq] at hc
      rcases List.mem_cons.mp hc with rfl | hmem
      · exact h.fits
      · exact hp.caps c hmem
    | drop => exact hp.caps c (hcaps hc)
    | _ =>
      have heq : p'.capabilities = p.capabilities := hcaps
      exact hp.caps c (heq ▸ hc)

end Change

/-- The address space of another process does not notice. -/
theorem Pcb.Laid.frame {d : Nat} (hq : q.Laid L dirs mm)
    (hsteady : Steady L dirs d mm.paging mm'.paging)
    (hcalls : mm.kheap.calls ≤ mm'.kheap.calls) :
    q.Laid L dirs mm' ∧ q.regions mm' = q.regions mm := by
  have hregions : q.regions mm' = q.regions mm :=
    hq.tree.regions_congr (Nat.lt_succ_self _) (Nat.lt_succ_of_le hcalls)
  refine ⟨⟨hq.tree.mono hcalls, hq.cr3, hq.dir_mem, hq.dir_pos, hq.dir_ne, ?_, ?_, ?_, hq.caps⟩,
    hregions⟩
  · rw [hregions]
    exact hq.good
  · rw [hregions]
    exact hq.apart
  · rw [hregions]
    exact fun r hr q' hq' => hsteady.isTable hq.dir_mem (hq.tables r hr q' hq')

/-! ## With the physical memory manager -/

/-- What a transition of one address space keeps for all. -/
structure Resources.Steps (L : Layout) (dirs : Set Nat) (d : Nat) (mm mm' : Resources) : Prop where
  paging : Steady L dirs d mm.paging mm'.paging
  pmm : mm'.pmm.Ready
  shape : mm.pmm.SameShape mm'.pmm
  calls : mm.kheap.calls ≤ mm'.kheap.calls

theorem Resources.Steps.ok {d : Nat} (h : Resources.Steps L dirs d mm mm') : mm'.Ok L dirs :=
  ⟨h.paging.wf, h.pmm⟩

namespace Effect

/-- A region that leaves was there. -/
theorem mem_of_dispose {r : VmmRegion} (h : Effect L dirs (.dispose r) mm p mm' p') :
    r ∈ p.regions mm :=
  h.regions.mem_iff.mpr List.mem_cons_self

/-- The blocks up to the end of the bitmap stay used. -/
theorem ready (hm : mm.Ok L dirs) (hp : p.Sound L dirs mm) (h : Effect L dirs e mm p mm' p') :
    mm'.pmm.Ready := by
  refine hm.pmm.becomes h.pmm fun b hb ht => ?_
  have hused := hm.pmm.used hb ht
  cases e with
  | dispose r =>
    have howned := hp.owned r h.mem_of_dispose h.ok
    have hnot : ¬r.HasBlock b := fun hr => by
      have := hr.1
      omega
    simp [Event.bits, hnot, hused]
  | acquire r => simp [Event.bits, hused]
  | _ => exact hused

theorem steps (hm : mm.Ok L dirs) (hp : p.Sound L dirs mm) (h : Effect L dirs e mm p mm' p') :
    Resources.Steps L dirs p.vcb.dir mm mm' :=
  ⟨h.change.steady hm.paging, h.ready hm hp, h.pmm.shape, h.calls⟩

theorem candidate (h : Effect L dirs e mm p mm' p') {r : VmmRegion} (hr : e.new = some r) :
    Candidate mm p r := by
  have hok := h.ok
  cases e with
  | place r' | cancel r' => exact Option.some.inj hr ▸ hok
  | acquire r' => exact Option.some.inj hr ▸ hok.1
  | _ => cases hr

/-- A transition keeps the invariant of its process. -/
theorem sound (hm : mm.Ok L dirs) (hp : p.Sound L dirs mm) (h : Effect L dirs e mm p mm' p') :
    p'.Sound L dirs mm' := by
  refine (h.change.laid hm.paging hp.laid).sound fun r hr hown => ?_
  rw [h.pmm.shape.reserveBlocks]
  rcases h.change.mem_regions hr with hold | ⟨hnew, -⟩
  · exact hp.owned r hold hown
  · exact (h.candidate hnew).owned hown

end Effect

/-- A transition of one process keeps the invariant of the others. -/
theorem Pcb.Sound.frame {d : Nat} (hq : q.Sound L dirs mm) (h : Resources.Steps L dirs d mm mm') :
    q.Sound L dirs mm' := by
  obtain ⟨hlaid, hregions⟩ := hq.laid.frame h.paging h.calls
  refine hlaid.sound fun r hr hown => ?_
  rw [hregions] at hr
  rw [h.shape.reserveBlocks]
  exact hq.owned r hr hown

end Ukernel.Mm
