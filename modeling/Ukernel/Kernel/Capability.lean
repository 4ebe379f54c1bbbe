import Ukernel.Kernel.Errno
import Ukernel.Mm.Resources

/-!
# Capabilities

`kernel/capability.c`. A process holds a list of capabilities, each in a block of the kernel heap.
What the source does for the six types by macros, the model does by cases.

## Main definitions

* `Cap`: the type of a capability with its argument
* `capCheck`, `capGrant`, `capRevoke`, `capRevokeAll`, `capInheritAll`: the operations

## Main results

* `capCheck_mapMem`: a request that is allowed lies inside a range that is held
* `capGrant_cases`: a grant is refused, or adds one valid entry
-/

namespace Ukernel.Kernel

open Mm Mm.Resources

/-- `cap_mem`. -/
structure CapMem where
  base : Nat
  size : Nat
  flags : Nat
  deriving DecidableEq, Repr

/-- `cap_io_port`. -/
structure CapIoPort where
  base : Nat
  count : Nat
  deriving DecidableEq, Repr

/-- `cap_type` with the member of the union that belongs to it. -/
inductive Cap where
  | ownIrq (irq : Nat)
  | mapMem (mem : CapMem)
  | accessIo (ioPort : CapIoPort)
  | ipc (issueIpc : Nat)
  | createKrnlProc (issueProcCreate : Nat)
  | createKrnlThread (issueThreadCreate : Nat)
  deriving DecidableEq, Repr

/-- `capability`: an entry of a process's list, with the block it lies in. -/
structure Capability where
  addr : Nat
  cap : Cap
  deriving DecidableEq, Repr

/-- `cap_irq_check`. -/
def capIrqCheck (defender challenger : Nat) : Int := if defender = challenger then 0 else ePerm

/-- `cap_mem_check`. -/
def capMemCheck (defender challenger : CapMem) : Int :=
  if challenger.size = 0 then eInval
  else if defender.flags &&& challenger.flags ≠ challenger.flags then ePerm
  else if challenger.base < defender.base then ePerm
  else if challenger.size > defender.size then ePerm
  else if challenger.base - defender.base > defender.size - challenger.size then ePerm
  else 0

/-- `cap_io_port_check`. -/
def capIoPortCheck (defender challenger : CapIoPort) : Int :=
  if challenger.count = 0 then eInval
  else if challenger.base < defender.base then ePerm
  else if challenger.count > defender.count then ePerm
  else if challenger.base - defender.base > defender.count - challenger.count then ePerm
  else 0

/-- `cap_permission_check`. -/
def capPermissionCheck (defender : Nat) : Int := if defender ≠ 0 then 0 else ePerm

/-- One pass of the loop of `cap_check`; an entry of another type is passed over. -/
def Cap.check : (defender challenger : Cap) → Int
  | .ownIrq d, .ownIrq c => capIrqCheck d c
  | .mapMem d, .mapMem c => capMemCheck d c
  | .accessIo d, .accessIo c => capIoPortCheck d c
  | .ipc d, .ipc _ => capPermissionCheck d
  | .createKrnlProc d, .createKrnlProc _ => capPermissionCheck d
  | .createKrnlThread d, .createKrnlThread _ => capPermissionCheck d
  | _, _ => ePerm

/-- `cap_check`. -/
def capCheck (caps : List Capability) (args : Cap) : Int :=
  if caps.any fun c => c.cap.check args == 0 then 0 else ePerm

/-- `cap_irq_grant_check`. -/
def capIrqGrantCheck (perm : Nat) : Int := if perm > 255 then eInval else 0

/-- `cap_mem_grant_check`. -/
def capMemGrantCheck (perm : CapMem) : Int :=
  if perm.size = 0 then eInval
  else if (perm.base + perm.size) % 2 ^ 32 < perm.base then eInval
  else 0

/-- `cap_io_port_grant_check`. -/
def capIoPortGrantCheck (perm : CapIoPort) : Int :=
  if perm.count = 0 then eInval
  else if (perm.base + perm.count) % 2 ^ 32 < perm.base then eInval
  else 0

/-- `cap_permission_grant_check`. -/
def capPermissionGrantCheck (perm : Nat) : Int := if perm = 1 then 0 else eInval

/-- The first switch of `cap_grant`. -/
def Cap.grantCheck : Cap → Int
  | .ownIrq irq => capIrqGrantCheck irq
  | .mapMem mem => capMemGrantCheck mem
  | .accessIo ioPort => capIoPortGrantCheck ioPort
  | .ipc v => capPermissionGrantCheck v
  | .createKrnlProc v => capPermissionGrantCheck v
  | .createKrnlThread v => capPermissionGrantCheck v

/-- `cap_grant`. The comparisons of the source compare all members. -/
def capGrant (mm : Resources) (caps : List Capability) (args : Cap) :
    Int × Resources × List Capability :=
  if args.grantCheck ≠ 0 then (eInval, mm, caps)
  else if caps.any fun c => c.cap == args then (eExists, mm, caps)
  else
    let (addr, mm) := mm.kmalloc
    if addr = 0 then (eNomem, mm, caps) else (0, mm, ⟨addr, args⟩ :: caps)

/-- The blocks of some capabilities go back to the heap. -/
def freeCaps (mm : Resources) (caps : List Capability) : Resources :=
  caps.foldl (fun mm c => mm.kfree c.addr) mm

/-- `cap_revoke`. -/
def capRevoke (mm : Resources) (caps : List Capability) (args : Cap) :
    Resources × List Capability :=
  (freeCaps mm (caps.filter fun c => c.cap == args), caps.filter fun c => c.cap != args)

/-- `cap_revoke_all`. -/
def capRevokeAll (mm : Resources) (caps : List Capability) : Resources × List Capability :=
  (freeCaps mm caps, [])

/-- `cap_inherit_all`: the loop over the parent's list, `caps` being the child's. -/
def capInheritAll (mm : Resources) (caps : List Capability) :
    (parent : List Capability) → Resources × List Capability
  | [] => (mm, caps)
  | src :: parent =>
    let (addr, mm) := mm.kmalloc
    if addr = 0 then (mm, caps) else capInheritAll mm (⟨addr, src.cap⟩ :: caps) parent

/-! ## What the operations do -/

/-- A range that is not empty and does not reach the top of the address space. -/
def CapMem.Ok (m : CapMem) : Prop := 0 < m.size ∧ m.base + m.size < 2 ^ 32

/-- The capability is a range that satisfies a predicate, or of another type. -/
def Cap.Mem (P : CapMem → Prop) (c : Cap) : Prop := ∀ m, c = .mapMem m → P m

theorem capMemGrantCheck_ok {m : CapMem} (hb : m.base < 2 ^ 32) (hs : m.size < 2 ^ 32)
    (h : capMemGrantCheck m = 0) : m.Ok := by
  unfold capMemGrantCheck at h
  split_ifs at h with hz hlt
  · exact absurd h (by decide)
  · exact absurd h (by decide)
  · constructor <;> omega

theorem capMemCheck_eq_zero {d c : CapMem} (h : capMemCheck d c = 0) :
    0 < c.size ∧ d.base ≤ c.base ∧ c.base + c.size ≤ d.base + d.size := by
  unfold capMemCheck at h
  split_ifs at h with h₁ h₂ h₃ h₄ h₅
  iterate 5 exact absurd h (by decide)
  refine ⟨?_, ?_, ?_⟩ <;> omega

/-- A request that is allowed lies inside a range that is held. -/
theorem capCheck_mapMem {caps : List Capability} {c : CapMem} (h : capCheck caps (.mapMem c) = 0) :
    ∃ e ∈ caps, ∃ d, e.cap = .mapMem d ∧ 0 < c.size ∧ d.base ≤ c.base ∧
      c.base + c.size ≤ d.base + d.size := by
  unfold capCheck at h
  split_ifs at h with hany
  · obtain ⟨e, he, hcheck⟩ := List.any_eq_true.mp hany
    rw [beq_iff_eq] at hcheck
    obtain ⟨addr, cap⟩ := e
    -- only an entry of the same type can allow the request
    cases cap with
    | mapMem d => exact ⟨_, he, d, rfl, capMemCheck_eq_zero hcheck⟩
    | _ => exact absurd hcheck (by simp [Cap.check, ePerm])
  · exact absurd h (by decide)

theorem same_freeCaps (mm : Resources) (caps : List Capability) : Same mm (freeCaps mm caps) := by
  induction caps generalizing mm with
  | nil => exact Same.refl mm
  | cons c caps ih => exact (same_kfree mm c.addr).trans (ih _)

/-- A grant is refused, or adds one entry that has passed the check. -/
theorem capGrant_cases (mm : Resources) (caps : List Capability) (args : Cap) :
    (∃ ret mm', ret ≠ 0 ∧ capGrant mm caps args = (ret, mm', caps) ∧ Same mm mm') ∨
      ∃ mm' addr, capGrant mm caps args = (0, mm', ⟨addr, args⟩ :: caps) ∧ Same mm mm' ∧
        args.grantCheck = 0 ∧ ∀ e ∈ caps, e.cap ≠ args := by
  unfold capGrant
  split_ifs with hcheck hdup
  · exact Or.inl ⟨eInval, mm, by decide, rfl, Same.refl mm⟩
  · exact Or.inl ⟨eExists, mm, by decide, rfl, Same.refl mm⟩
  · dsimp only
    split
    · exact Or.inl ⟨eNomem, _, by decide, rfl, same_kmalloc mm⟩
    · grind [same_kmalloc]

/-- A capability that the process does not have is granted if the heap has a block for it. -/
theorem capGrant_of_fresh {mm : Resources} {caps : List Capability} {args : Cap}
    (hcheck : args.grantCheck = 0) (hfresh : ∀ e ∈ caps, e.cap ≠ args) (haddr : mm.kmalloc.1 ≠ 0) :
    capGrant mm caps args = (0, mm.kmalloc.2, ⟨mm.kmalloc.1, args⟩ :: caps) := by
  have hany : (caps.any fun c => c.cap == args) = false := by grind
  unfold capGrant
  rw [if_neg (not_not.mpr hcheck), hany, if_neg Bool.false_ne_true]
  exact if_neg haddr

/-- Revoking an entry that has just been granted restores the list. -/
theorem capRevoke_grant (mm : Resources) {caps : List Capability} {args : Cap} (addr : Nat)
    (h : ∀ e ∈ caps, e.cap ≠ args) :
    ∃ mm', capRevoke mm (⟨addr, args⟩ :: caps) args = (mm', caps) ∧ Same mm mm' := by
  refine ⟨_, Prod.ext rfl ?_, same_freeCaps mm _⟩
  change (List.filter (fun c => c.cap != args) (⟨addr, args⟩ :: caps)) = caps
  rw [List.filter_cons_of_neg (by simp), List.filter_eq_self]
  intro e he
  exact bne_iff_ne.mpr (h e he)

/-- A child gets copies of entries of its parent, and nothing else. -/
theorem capInheritAll_spec (mm : Resources) (caps parent : List Capability) :
    Same mm (capInheritAll mm caps parent).1 ∧ ∀ e ∈ (capInheritAll mm caps parent).2,
      e ∈ caps ∨ ∃ e' ∈ parent, e'.cap = e.cap := by
  induction parent generalizing mm caps with
  | nil => exact ⟨Same.refl mm, fun e he => Or.inl he⟩
  | cons src parent ih =>
    unfold capInheritAll
    dsimp only
    split
    · exact ⟨same_kmalloc mm, fun e he => Or.inl he⟩
    · obtain ⟨hsame, hmem⟩ := ih mm.kmalloc.2 (⟨mm.kmalloc.1, src.cap⟩ :: caps)
      refine ⟨(same_kmalloc mm).trans hsame, fun e he => ?_⟩
      rcases hmem e he with hin | ⟨e', he', heq⟩
      · grind
      · exact Or.inr ⟨e', List.mem_cons_of_mem _ he', heq⟩

end Ukernel.Kernel
