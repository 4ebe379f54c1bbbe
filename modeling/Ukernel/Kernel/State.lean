import Ukernel.Mm.VmmApi

/-!
# The kernel's address spaces together

The state of the kernel holds the resources and the processes. A transition of one address space and
the start of a process keep the invariant of all of them.

## Main definitions

* `State`: the resources and the processes
* `LaidOut`, `Sane`: the invariant of all address spaces, without and with the blocks they own

## Main results

* `Sane.act`, `Sane.spawn`: the invariant survives a transition and the start of a process
* `Sane.exec`, `Sane.create`: it survives the operations of `vmm.c`
-/

namespace Ukernel.Kernel

open Arch Lib Mm VmmRegion

/-- The kernel: its resources, its processes by identifier, and the counters for identifiers, which
the model does not let wrap around. -/
structure State where
  mm : Resources
  procs : Nat → Option Pcb
  pid : Nat
  tid : Nat

namespace State

/-- The directories in use. -/
def dirs (L : Layout) (s : State) : Set Nat :=
  insert L.master {d | ∃ id p, s.procs id = some p ∧ p.vcb.dir = d}

/-- The regions of a process. -/
def regions (s : State) (id : Nat) : List VmmRegion :=
  match s.procs id with
  | some p => p.regions s.mm
  | none => []

/-- The translation that the processor finds in the address space of a process. -/
def translation (s : State) (id va : Nat) : Option Translation :=
  match s.procs id with
  | some p => walk s.mm.paging p.vcb.cr3 va
  | none => none

/-- The capabilities of a process. -/
def capabilities (s : State) (id : Nat) : List Capability :=
  match s.procs id with
  | some p => p.capabilities
  | none => []

/-- Replace the resources and a process. -/
def set (s : State) (id : Nat) (mm : Resources) (p : Pcb) : State :=
  { s with mm, procs := Function.update s.procs id (some p) }

variable {s : State} {id : Nat} {p : Pcb}

variable (h : s.procs id = some p)

include h

theorem regions_of_some : s.regions id = p.regions s.mm := by
  rw [regions, h]

theorem translation_of_some (va : Nat) :
    s.translation id va = view s.mm.paging p.vcb.dir (va / 4096) := by
  rw [translation, h]
  exact walk_eq_view _ _ _

theorem capabilities_of_some : s.capabilities id = p.capabilities := by
  rw [capabilities, h]

theorem mem_dirs {L : Layout} : p.vcb.dir ∈ s.dirs L :=
  Or.inr ⟨id, p, h, rfl⟩

end State

/-- The invariant of all address spaces, whoever owns the blocks that they map. -/
structure LaidOut (L : Layout) (s : State) : Prop where
  wf : s.mm.paging.Wf L (s.dirs L)
  laid : ∀ id p, s.procs id = some p → p.Laid L (s.dirs L) s.mm
  inj : ∀ id p id' p', s.procs id = some p → s.procs id' = some p' → p.vcb.dir = p'.vcb.dir →
    id = id'
  fresh : ∀ id, s.pid ≤ id → s.procs id = none
  total : s.mm.pmm.totalBlocks < 2 ^ 20

/-- The invariant of all address spaces. -/
structure Sane (L : Layout) (s : State) : Prop where
  ok : s.mm.Ok L (s.dirs L)
  sound : ∀ id p, s.procs id = some p → p.Sound L (s.dirs L) s.mm
  inj : ∀ id p id' p', s.procs id = some p → s.procs id' = some p' → p.vcb.dir = p'.vcb.dir →
    id = id'
  fresh : ∀ id, s.pid ≤ id → s.procs id = none

variable {L : Layout} {s s' : State}

/-! ## Directories -/

section Dirs

variable {id : Nat} {p p' : Pcb}

theorem dirs_update (hp : s.procs id = some p) (hdir : p'.vcb.dir = p.vcb.dir)
    (hprocs : s'.procs = Function.update s.procs id (some p')) : s'.dirs L = s.dirs L := by
  unfold State.dirs
  refine congrArg _ (Set.ext fun d => ⟨?_, ?_⟩)
  · rintro ⟨id', q, hq, rfl⟩
    rw [hprocs] at hq
    by_cases hid : id' = id
    · grind
    · grind
  · rintro ⟨id', q, hq, rfl⟩
    by_cases hid : id' = id
    · subst hid
      cases hp.symm.trans hq
      exact ⟨id', p', by rw [hprocs, Function.update_self], hdir⟩
    · exact ⟨id', q, by rw [hprocs, Function.update_of_ne hid, hq], rfl⟩

theorem dirs_spawn (hid : s.procs id = none)
    (hprocs : s'.procs = Function.update s.procs id (some p)) :
    s'.dirs L = insert p.vcb.dir (s.dirs L) := by
  unfold State.dirs
  rw [Set.insert_comm]
  refine congrArg _ (Set.ext fun d => ⟨?_, ?_⟩)
  · rintro ⟨id', q, hq, rfl⟩
    rw [hprocs] at hq
    by_cases hne : id' = id
    · grind
    · grind
  · rintro (rfl | ⟨id', q, hq, rfl⟩)
    · exact ⟨id, p, by rw [hprocs, Function.update_self], rfl⟩
    · have hne : id' ≠ id := fun heq => by
        rw [heq, hid] at hq
        cases hq
      exact ⟨id', q, by rw [hprocs, Function.update_of_ne hne, hq], rfl⟩

end Dirs

/-! ## The invariant survives -/

/-- The regions of an address space stay when another comes or goes. -/
theorem laid_of_tables {dirs dirs' : Set Nat} {mm mm' : Resources} {q : Pcb}
    (hq : q.Laid L dirs mm) (hdir : q.vcb.dir ∈ dirs')
    (hcalls : mm.kheap.calls ≤ mm'.kheap.calls)
    (htable : mm'.paging.table q.vcb.dir = mm.paging.table q.vcb.dir) :
    q.Laid L dirs' mm' ∧ q.regions mm' = q.regions mm := by
  have hregions : q.regions mm' = q.regions mm :=
    hq.tree.regions_congr (Nat.lt_succ_self _) (Nat.lt_succ_of_le hcalls)
  refine ⟨⟨hq.tree.mono hcalls, hq.cr3, hdir, hq.dir_pos, hq.dir_ne, ?_, ?_, ?_, hq.caps⟩,
    hregions⟩
  · rw [hregions]
    exact hq.good
  · rw [hregions]
    exact hq.apart
  · rw [hregions, htable]
    exact hq.tables

theorem Sane.laidOut (h : Sane L s) : LaidOut L s :=
  ⟨h.ok.paging, fun id p hp => (h.sound id p hp).laid, h.inj, h.fresh, h.ok.pmm.totalBlocks_lt⟩

theorem LaidOut.sane (h : LaidOut L s) (hready : s.mm.pmm.Ready)
    (hown : ∀ id p, s.procs id = some p → ∀ r ∈ p.regions s.mm, r.ownPhys = true →
      s.mm.pmm.reserveBlocks ≤ r.pa / 4096) : Sane L s :=
  ⟨⟨h.wf, hready⟩, fun id p hp => (h.laid id p hp).sound (hown id p hp), h.inj, h.fresh⟩

section Sane

variable {id : Nat} {p p' : Pcb}

theorem procs_update {id' : Nat} {q : Pcb}
    (hprocs : s'.procs = Function.update s.procs id (some p)) (hq : s'.procs id' = some q) :
    id' = id ∧ q = p ∨ id' ≠ id ∧ s.procs id' = some q := by
  rw [hprocs] at hq
  by_cases hid : id' = id
  · grind
  · grind

namespace LaidOut

theorem act {e : Event} (hs : LaidOut L s) (hp : s.procs id = some p)
    (h : Change L (s.dirs L) e s.mm p s'.mm p')
    (hprocs : s'.procs = Function.update s.procs id (some p')) (hpid : s.pid ≤ s'.pid) :
    LaidOut L s' := by
  have hsteady := h.steady hs.wf
  have hdirs : s'.dirs L = s.dirs L := dirs_update hp h.dir hprocs
  refine ⟨hdirs ▸ hsteady.wf, fun id' q hq => ?_, ?_, fun id' hid' => ?_, h.total ▸ hs.total⟩
  · rw [hdirs]
    rcases procs_update hprocs hq with ⟨rfl, rfl⟩ | ⟨-, hq'⟩
    · exact h.laid hs.wf (hs.laid _ p hp)
    · exact ((hs.laid id' q hq').frame hsteady h.calls).1
  · intro id₁ q₁ id₂ q₂ h₁ h₂ heq
    rcases procs_update hprocs h₁ with ⟨rfl, rfl⟩ | ⟨-, h₁'⟩ <;>
      rcases procs_update hprocs h₂ with ⟨rfl, rfl⟩ | ⟨-, h₂'⟩
    · rfl
    · exact hs.inj _ p _ q₂ hp h₂' (h.dir ▸ heq)
    · exact hs.inj _ q₁ _ p h₁' hp (h.dir ▸ heq)
    · exact hs.inj _ q₁ _ q₂ h₁' h₂' heq
  · have hlt := Nat.le_trans hpid hid'
    have hne : id' ≠ id := fun heq => by
      rw [← heq, hs.fresh id' hlt] at hp
      cases hp
    rw [hprocs, Function.update_of_ne hne]
    exact hs.fresh id' hlt

theorem spawn (hs : LaidOut L s) (hid : s.pid ≤ id)
    (hfresh : FreshSpace L (s.dirs L) s.mm s'.mm p.vcb)
    (hcaps : ∀ e ∈ p.capabilities, e.cap.Mem CapMem.Ok)
    (hprocs : s'.procs = Function.update s.procs id (some p)) (hpid : s'.pid = id + 1) :
    LaidOut L s' := by
  have hdirs : s'.dirs L = insert p.vcb.dir (s.dirs L) := dirs_spawn (hs.fresh id hid) hprocs
  have hcreated := hfresh.paging
  refine ⟨hdirs ▸ hcreated.wf, fun id' q hq => ?_, ?_, fun id' hid' => ?_,
    hfresh.pmm ▸ hs.total⟩
  · rw [hdirs]
    rcases procs_update hprocs hq with ⟨rfl, rfl⟩ | ⟨-, hq'⟩
    · exact hfresh.laid hcaps
    · have hmem : q.vcb.dir ∈ s.dirs L := State.mem_dirs hq'
      exact (laid_of_tables (hs.laid id' q hq') (Set.mem_insert_of_mem _ hmem) hfresh.calls
        (hcreated.table _ hmem)).1
  · intro id₁ q₁ id₂ q₂ h₁ h₂ heq
    rcases procs_update hprocs h₁ with ⟨rfl, rfl⟩ | ⟨-, h₁'⟩ <;>
      rcases procs_update hprocs h₂ with ⟨rfl, rfl⟩ | ⟨-, h₂'⟩
    · rfl
    · exact absurd (heq ▸ State.mem_dirs h₂') hcreated.fresh
    · exact absurd (heq ▸ State.mem_dirs h₁') hcreated.fresh
    · exact hs.inj _ q₁ _ q₂ h₁' h₂' heq
  · rw [hprocs, Function.update_of_ne (by omega)]
    exact hs.fresh id' (by omega)

end LaidOut

/-! ## With the blocks -/

theorem Sane.act {e : Event} (hs : Sane L s) (hp : s.procs id = some p)
    (heff : Effect L (s.dirs L) e s.mm p s'.mm p')
    (hprocs : s'.procs = Function.update s.procs id (some p')) (hpid : s.pid ≤ s'.pid) :
    Sane L s' := by
  have hsteps := heff.steps hs.ok (hs.sound id p hp)
  refine (hs.laidOut.act hp heff.change hprocs hpid).sane hsteps.pmm fun id' q hq => ?_
  rcases procs_update hprocs hq with ⟨rfl, rfl⟩ | ⟨-, hq'⟩
  · exact (heff.sound hs.ok (hs.sound _ p hp)).owned
  · exact ((hs.sound id' q hq').frame hsteps).owned

theorem Sane.spawn (hs : Sane L s) (hid : s.pid ≤ id)
    (hfresh : FreshSpace L (s.dirs L) s.mm s'.mm p.vcb)
    (hcaps : ∀ e ∈ p.capabilities, e.cap.Mem CapMem.Ok)
    (hprocs : s'.procs = Function.update s.procs id (some p)) (hpid : s'.pid = id + 1) :
    Sane L s' := by
  refine (hs.laidOut.spawn hid hfresh hcaps hprocs hpid).sane (hfresh.pmm ▸ hs.ok.pmm)
    fun id' q hq => ?_
  rcases procs_update hprocs hq with ⟨rfl, rfl⟩ | ⟨-, hq'⟩
  · exact (hfresh.sound hcaps).owned
  · have hregions : q.regions s'.mm = q.regions s.mm := (hs.sound id' q hq').tree.regions_congr
      (Nat.lt_succ_self _) (Nat.lt_succ_of_le hfresh.calls)
    rw [hregions, hfresh.pmm]
    exact (hs.sound id' q hq').owned

/-- An operation of `vmm.c` on the address space of a process. -/
theorem Sane.exec (hs : Sane L s) (hp : s.procs id = some p) {op : VmmOp}
    (ha : op.Admits s.mm p) :
    Sane L (s.set id (op.exec L s.mm p).1 (op.exec L s.mm p).2) := by
  obtain ⟨e, hmakes⟩ := VmmOp.exec_effect hs.ok (hs.sound id p hp) ha
  exact hs.act hp hmakes.effect rfl (Nat.le_refl _)

/-- A process begins in a new address space. -/
theorem Sane.create {v : Vcb} {mm : Resources} (hs : Sane L s)
    (h : vmmCreate L s.mm = (.ok v, mm)) (hcaps : ∀ e ∈ p.capabilities, e.cap.Mem CapMem.Ok)
    (tid : Nat) :
    Sane L ⟨mm, Function.update s.procs s.pid (some (p.withVcb v)), s.pid + 1, tid⟩ := by
  rcases vmmCreate_cases hs.ok.paging with ⟨err, mm', heq, -⟩ | ⟨v', mm', heq, hfresh⟩
  · rw [heq] at h
    cases h
  · rw [heq] at h
    cases h
    exact hs.spawn (p := p.withVcb v) (Nat.le_refl _) hfresh hcaps rfl rfl

end Sane

end Ukernel.Kernel
