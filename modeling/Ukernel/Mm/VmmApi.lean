import Ukernel.Mm.VmmLife

/-!
# The operations on an address space together

The operations of `vmm.c` that change the address space of a process, as one type. Each of them is
a transition of the abstract machine, under one condition: a region that it puts into the tree must
not reach the top of the address space, and must not claim to own blocks that the physical memory
manager keeps for itself.

## Main definitions

* `VmmOp`, `VmmOp.exec`, `VmmOp.runs`: the operations, and sequences of them
* `VmmOp.Tries`: the region that an operation puts into the tree
* `VmmOp.handsOver`: the region whose blocks a caller hands over

## Main results

* `VmmOp.exec_effect`: every operation is a transition
* `VmmOp.Along.run`: what every operation keeps, a sequence keeps
-/

namespace Ukernel.Mm

open Arch Kernel VmmRegion

/-- The operations of `vmm.c` on the address space of a process. -/
inductive VmmOp where
  | allocPages (pageCnt flags : Nat)
  | freePages (va : Nat)
  | mapMemory (physAddr size flags : Nat)
  | unmapMemory (virtAddr size : Nat)
  | mapFixed (physAddr vaddr size flags : Nat) (ownPhys : Bool)
  | unmapFixed (vaddr size : Nat)

variable {L : Layout} {dirs : Set Nat} {mm mm' : Resources} {p p' : Pcb}

namespace VmmOp

/-- Call the function. -/
def exec (L : Layout) (mm : Resources) (p : Pcb) : VmmOp → Resources × Pcb
  | allocPages pageCnt flags =>
    let res := vmmAllocPages L mm p.vcb pageCnt flags
    (res.2.1, p.withVcb res.2.2)
  | freePages va =>
    let res := vmmFreePages mm p.vcb va
    (res.1, p.withVcb res.2)
  | mapMemory physAddr size flags => (vmmMapMemory L mm p physAddr size flags).2
  | unmapMemory virtAddr size => (vmmUnmapMemory mm p virtAddr size).2
  | mapFixed physAddr vaddr size flags ownPhys =>
    (vmmMapFixed L mm p physAddr vaddr size flags ownPhys).2
  | unmapFixed vaddr size => (vmmUnmapFixed mm p vaddr size).2

/-- The operation puts the region into the tree, be it only to take it out again. -/
def Tries (mm : Resources) (p : Pcb) (r : VmmRegion) : VmmOp → Prop
  | allocPages pageCnt flags => AllocTries mm p pageCnt flags r
  | mapMemory physAddr size flags => MemoryTries mm p physAddr size flags r
  | mapFixed physAddr vaddr size flags ownPhys =>
    FixedTries mm p r ∧ r = ⟨vaddr, size, flags, physAddr, ownPhys⟩
  | _ => False

/-- The region whose blocks the caller of `vmm_map_fixed` hands over. -/
def handsOver (L : Layout) (mm : Resources) (p : Pcb) : VmmOp → Option VmmRegion
  | mapFixed physAddr vaddr size flags true =>
    if (vmmMapFixed L mm p physAddr vaddr size flags true).1 = 0 then
      some ⟨vaddr, size, flags, physAddr, true⟩
    else none
  | _ => none

/-- The region that the operation puts into the tree stays below the top of the address space and
away from the blocks of the physical memory manager. -/
def Admits (mm : Resources) (p : Pcb) (op : VmmOp) : Prop :=
  ∀ r, op.Tries mm p r → r.startVa + r.size < 2 ^ 32 ∧
    (r.ownPhys = true → mm.pmm.reserveBlocks ≤ r.pa / 4096)

end VmmOp

/-- The region that a transition lets enter with blocks that its caller owned. -/
def Event.handed : Event → Option VmmRegion
  | .place r => if r.ownPhys then some r else none
  | _ => none

theorem Event.handed_ite_leave (r : VmmRegion) :
    (if r.ownPhys then Event.dispose r else .remove r).handed = none := by
  split_ifs <;> rfl

theorem Event.new_ite_leave (r : VmmRegion) :
    (if r.ownPhys then Event.dispose r else .remove r).new = none := by
  split_ifs <;> rfl

namespace VmmOp

/-- The operation makes the transition. -/
structure Makes (L : Layout) (dirs : Set Nat) (mm : Resources) (p : Pcb) (op : VmmOp) (e : Event) :
    Prop where
  effect : Effect L dirs e mm p (op.exec L mm p).1 (op.exec L mm p).2
  tries : ∀ r, e.new = some r → op.Tries mm p r
  handed : op.handsOver L mm p = e.handed
  /-- A region that owns its blocks does not leave without them. -/
  removed : ∀ r, e = .remove r → r.ownPhys = false

theorem makes_of_attempt (op : VmmOp) {r : VmmRegion} {ok : Prop}
    (htries : op.Tries mm p r) (hnot : r.ownPhys = false) (hnone : op.handsOver L mm p = none)
    (h : Attempt L dirs mm p r ok (op.exec L mm p).1 (op.exec L mm p).2) :
    ∃ e, op.Makes L dirs mm p e := by
  have hnew {r' : VmmRegion} (hr' : some r = some r') : op.Tries mm p r' :=
    Option.some.inj hr' ▸ htries
  rcases h with ⟨-, heff⟩ | ⟨-, heff⟩
  · exact ⟨_, heff, fun r' => hnew, hnone, fun r' hr' => (nomatch hr')⟩
  · exact ⟨_, heff, fun r' => hnew, by rw [hnone, Event.handed, if_neg (by simp [hnot])],
      fun r' hr' => (nomatch hr')⟩

theorem makes_of_detach {op : VmmOp} {va : Nat} {own : Bool → Prop}
    (hnone : op.handsOver L mm p = none)
    (h : Detach L dirs mm p va own (op.exec L mm p).1 (op.exec L mm p).2) :
    ∃ e, op.Makes L dirs mm p e := by
  rcases h with heff | ⟨r, -, -, -, heff⟩
  · exact ⟨_, heff, fun r hr => (nomatch hr), hnone, fun r hr => (nomatch hr)⟩
  · refine ⟨_, heff, fun r' hr => ?_, by rw [hnone, Event.handed_ite_leave], fun r' hr => ?_⟩
    · rw [Event.new_ite_leave] at hr
      cases hr
    · grind

/-- Every operation is a transition. -/
theorem exec_effect (hm : mm.Ok L dirs) (hp : p.Sound L dirs mm) {op : VmmOp}
    (ha : op.Admits mm p) : ∃ e, op.Makes L dirs mm p e := by
  cases op with
  | allocPages pageCnt flags =>
    rcases vmmAllocPages_cases hm hp pageCnt flags (fun r hr _ => (ha r hr).1) with
      ⟨-, heff⟩ | ⟨r, htries, ⟨-, heff⟩ | ⟨-, -, heff⟩⟩
    · exact ⟨_, heff, fun r hr => (nomatch hr), rfl, fun r hr => (nomatch hr)⟩
    · exact ⟨_, heff, fun r' hr' => Option.some.inj hr' ▸ htries, rfl, fun r hr => (nomatch hr)⟩
    · exact ⟨_, heff, fun r' hr' => Option.some.inj hr' ▸ htries, rfl, fun r hr => (nomatch hr)⟩
  | freePages va => exact makes_of_detach rfl (vmmFreePages_detach hm hp va)
  | unmapMemory va size => exact makes_of_detach rfl (vmmUnmapMemory_detach hm hp va size)
  | unmapFixed va size => exact makes_of_detach rfl (vmmUnmapFixed_detach hm hp va size)
  | mapMemory pa size flags =>
    rcases vmmMapMemory_cases hm hp (fun r hr _ => (ha r hr).1) with
      ⟨-, heff⟩ | ⟨r, htries, hatt, -⟩
    · exact ⟨_, heff, fun r hr => (nomatch hr), rfl, fun r hr => (nomatch hr)⟩
    · exact makes_of_attempt (.mapMemory pa size flags) htries htries.ownPhys rfl hatt
  | mapFixed pa va size flags own =>
    have hcases := vmmMapFixed_attempt hm hp (fun hr => (ha ⟨va, size, flags, pa, own⟩ ⟨hr, rfl⟩).1)
      fun hr => (ha ⟨va, size, flags, pa, own⟩ ⟨hr, rfl⟩).2
    cases own with
    | false =>
      rcases hcases with ⟨-, heff⟩ | ⟨htries, hatt⟩
      · exact ⟨_, heff, fun r hr => (nomatch hr), rfl, fun r hr => (nomatch hr)⟩
      · exact makes_of_attempt (.mapFixed pa va size flags false) ⟨htries, rfl⟩ rfl rfl hatt
    | true =>
      -- the caller hands its blocks over just when the region is placed
      rcases hcases with ⟨herr, heff⟩ | ⟨htries, ⟨herr, heff⟩ | ⟨hok, heff⟩⟩
      · exact ⟨_, heff, fun r hr => (nomatch hr), if_neg herr, fun r hr => (nomatch hr)⟩
      · exact ⟨_, heff, fun r hr => ⟨Option.some.inj hr ▸ htries, (Option.some.inj hr).symm⟩,
          if_neg herr, fun r hr => (nomatch hr)⟩
      · exact ⟨_, heff, fun r hr => ⟨Option.some.inj hr ▸ htries, (Option.some.inj hr).symm⟩,
          if_pos hok, fun r hr => (nomatch hr)⟩

/-- Call the functions one after another. -/
def runs (L : Layout) (ops : List VmmOp) (s : Resources × Pcb) : Resources × Pcb :=
  ops.foldl (fun s op => op.exec L s.1 s.2) s

/-- Every operation of the sequence meets a condition on the state that it finds. -/
def Along (L : Layout) (P : Resources → Pcb → VmmOp → Prop) :
    List VmmOp → Resources → Pcb → Prop
  | [], _, _ => True
  | op :: ops, mm, p => P mm p op ∧ Along L P ops (op.exec L mm p).1 (op.exec L mm p).2

/-- What every operation that meets the condition keeps, a sequence of them keeps. -/
theorem Along.run {P : Resources → Pcb → VmmOp → Prop} {I : List VmmOp → Resources → Pcb → Prop}
    (hstep : ∀ op ops mm p, P mm p op → I (op :: ops) mm p →
      I ops (op.exec L mm p).1 (op.exec L mm p).2) {ops : List VmmOp}
    (h : Along L P ops mm p) (hi : I ops mm p) :
    I [] (runs L ops (mm, p)).1 (runs L ops (mm, p)).2 := by
  induction ops generalizing mm p with
  | nil => exact hi
  | cons op ops ih => exact ih h.2 (hstep op ops mm p h.1 hi)

theorem Along.and {P Q : Resources → Pcb → VmmOp → Prop} {ops : List VmmOp}
    (h : Along L P ops mm p) (h' : Along L Q ops mm p) :
    Along L (fun mm p op => P mm p op ∧ Q mm p op) ops mm p := by
  induction ops generalizing mm p with
  | nil => trivial
  | cons op ops ih => exact ⟨⟨h.1, h'.1⟩, ih h.2 h'.2⟩

/-- The regions that callers hand over in a sequence. -/
def handedOver (L : Layout) : List VmmOp → Resources → Pcb → List VmmRegion
  | [], _, _ => []
  | op :: ops, mm, p =>
    (op.handsOver L mm p).toList ++ handedOver L ops (op.exec L mm p).1 (op.exec L mm p).2

end VmmOp

end Ukernel.Mm
