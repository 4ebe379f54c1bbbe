import Mathlib.Data.Finset.Insert
import Mathlib.Data.Finset.Erase
import Mathlib.Order.Interval.Set.Basic
import Ukernel.Kernel.Capability
import Ukernel.Machine.System

/-!
# The capability lists as sets

What the capabilities are for, and that the lists do it: a process has a set of valid
capabilities, and a request is allowed if one of them covers it. The operations on the lists
simulate the operations on the sets, with the same answers.

## Main definitions

* `Cap.Valid`, `Cap.Covers`: which capabilities may be held, and which requests they allow
* `capSystem`: processes with their lists, under any sequence of operations
* `setSystem`, `setAnswer`: the same for sets

## Main results

* `capCheck_eq_zero_iff`: a check succeeds exactly if an entry covers the request
* `capability_lists_refine_sets`: over every run, the lists are the sets
-/

namespace Ukernel.Kernel

open Machine Mm Mm.Resources

/-! ## What capabilities mean -/

/-- The members are words. -/
def Cap.Word : Cap → Prop
  | .ownIrq v | .ipc v | .createKrnlProc v | .createKrnlThread v => v < 2 ^ 32
  | .mapMem m => m.base < 2 ^ 32 ∧ m.size < 2 ^ 32 ∧ m.flags < 2 ^ 32
  | .accessIo p => p.base < 2 ^ 32 ∧ p.count < 2 ^ 32

/-- What may be granted: vectors of interrupts, and ranges that are not empty and do not reach the
top of the address space. -/
def Cap.Valid : Cap → Prop
  | .ownIrq irq => irq ≤ 255
  | .mapMem m => m.Ok
  | .accessIo p => 0 < p.count ∧ p.base + p.count < 2 ^ 32
  | .ipc v | .createKrnlProc v | .createKrnlThread v => v = 1

instance (c : Cap) : Decidable c.Valid := by
  cases c <;> unfold Cap.Valid <;> unfold CapMem.Ok <;> infer_instance

/-- What a capability allows. -/
def Cap.Covers : (held request : Cap) → Prop
  | .ownIrq d, .ownIrq c => d = c
  | .mapMem d, .mapMem c => 0 < c.size ∧
      Set.Ico c.base (c.base + c.size) ⊆ Set.Ico d.base (d.base + d.size) ∧
        ∀ i, c.flags.testBit i = true → d.flags.testBit i = true
  | .accessIo d, .accessIo c => 0 < c.count ∧
      Set.Ico c.base (c.base + c.count) ⊆ Set.Ico d.base (d.base + d.count)
  | .ipc _, .ipc _ | .createKrnlProc _, .createKrnlProc _
  | .createKrnlThread _, .createKrnlThread _ => True
  | _, _ => False

/-- The check before a grant lets the valid capabilities through. -/
theorem Cap.grantCheck_eq_zero_iff {c : Cap} (hw : c.Word) : c.grantCheck = 0 ↔ c.Valid := by
  have hrange {b n : Nat} (hb : b < 2 ^ 32) (hn : n < 2 ^ 32) :
      (if n = 0 then eInval else if (b + n) % 2 ^ 32 < b then eInval else 0) = 0 ↔
        0 < n ∧ b + n < 2 ^ 32 := by
    split_ifs <;> simp <;> omega
  have hperm (v : Nat) : capPermissionGrantCheck v = 0 ↔ v = 1 := by
    unfold capPermissionGrantCheck
    split_ifs with h <;> simp [h]
  cases c with
  | ownIrq irq =>
    change capIrqGrantCheck irq = 0 ↔ irq ≤ 255
    unfold capIrqGrantCheck
    split_ifs with h <;> simp <;> omega
  | mapMem m => exact hrange hw.1 hw.2.1
  | accessIo p => exact hrange hw.1 hw.2
  | ipc v | createKrnlProc v | createKrnlThread v => exact hperm v

/-- The subtractions of the source decide that a range lies inside another. -/
theorem range_check_iff {base size base' size' : Nat} (hpos : 0 < size) :
    (¬base < base' ∧ ¬size > size' ∧ ¬base - base' > size' - size) ↔
      Set.Ico base (base + size) ⊆ Set.Ico base' (base' + size') := by
  rw [Set.Ico_subset_Ico_iff (by omega)]
  omega

/-- One flag word includes another bit by bit. -/
theorem and_eq_right_iff_testBit {d c : Nat} :
    d &&& c = c ↔ ∀ i, c.testBit i = true → d.testBit i = true := by
  refine ⟨fun h i hi => ?_, fun h => Nat.eq_of_testBit_eq fun i => ?_⟩
  · grind
  · grind

/-- A valid entry answers a request exactly as it covers it. -/
theorem Cap.check_eq_zero_iff {d : Cap} (hd : d.Valid) (c : Cap) :
    d.check c = 0 ↔ d.Covers c := by
  have hperm {v : Nat} (hv : v = 1) : capPermissionCheck v = 0 := by
    rw [hv]
    rfl
  cases d <;> cases c <;> try exact iff_of_false ePerm_ne_zero not_false
  case ownIrq.ownIrq d c =>
    change capIrqCheck d c = 0 ↔ d = c
    unfold capIrqCheck
    split_ifs with h <;> simp [h]
  case mapMem.mapMem d c =>
    change capMemCheck d c = 0 ↔ 0 < c.size ∧ _ ∧ _
    unfold capMemCheck
    by_cases hz : c.size = 0
    · simp [hz]
    · have hpos : 0 < c.size := by omega
      rw [← range_check_iff hpos, ← and_eq_right_iff_testBit]
      split_ifs <;> simp_all
  case accessIo.accessIo d c =>
    change capIoPortCheck d c = 0 ↔ 0 < c.count ∧ _
    unfold capIoPortCheck
    by_cases hz : c.count = 0
    · simp [hz]
    · have hpos : 0 < c.count := by omega
      rw [← range_check_iff hpos]
      split_ifs <;> simp_all
  case ipc.ipc => exact iff_of_true (hperm hd) trivial
  case createKrnlProc.createKrnlProc => exact iff_of_true (hperm hd) trivial
  case createKrnlThread.createKrnlThread => exact iff_of_true (hperm hd) trivial

/-- A check succeeds exactly if an entry covers the request. -/
theorem capCheck_eq_zero_iff {caps : List Capability} (h : ∀ e ∈ caps, e.cap.Valid) (req : Cap) :
    capCheck caps req = 0 ↔ ∃ e ∈ caps, e.cap.Covers req := by
  have hany : (caps.any fun c => c.cap.check req == 0) = true ↔ ∃ e ∈ caps, e.cap.Covers req := by
    grind [Cap.check_eq_zero_iff]
  unfold capCheck
  split_ifs with hc
  · exact iff_of_true rfl (hany.mp hc)
  · exact iff_of_false ePerm_ne_zero fun hex => hc (hany.mpr hex)

/-! ## Processes and their sets -/

/-- The operations on the capabilities of processes. -/
inductive CapOp where
  | grant (id : Nat) (args : Cap)
  | revoke (id : Nat) (args : Cap)
  | revokeAll (id : Nat)
  | inheritAll (child parent : Nat)

/-- The resources, and the list of every process. -/
structure CapState where
  mm : Resources
  lists : Nat → List Capability

namespace CapState

/-- No process holds anything. -/
def start (mm : Resources) : CapState := ⟨mm, fun _ => []⟩

/-- Replace the resources and a list. -/
def set (s : CapState) (id : Nat) (mm : Resources) (caps : List Capability) : CapState :=
  ⟨mm, Function.update s.lists id caps⟩

/-- An operation with its answer; `cap_revoke_all` and `cap_inherit_all` have none. -/
def step (s : CapState) : CapOp → Int × CapState
  | .grant id args =>
    let (ret, mm, caps) := capGrant s.mm (s.lists id) args
    (ret, s.set id mm caps)
  | .revoke id args =>
    let (mm, caps) := capRevoke s.mm (s.lists id) args
    (0, s.set id mm caps)
  | .revokeAll id =>
    let (mm, caps) := capRevokeAll s.mm (s.lists id)
    (0, s.set id mm caps)
  | .inheritAll child parent =>
    let (mm, caps) := capInheritAll s.mm (s.lists child) (s.lists parent)
    (0, s.set child mm caps)

/-- The heap has no block for the next request. -/
def refuses (s : CapState) : Bool := s.mm.kheap.fails s.mm.kheap.calls

/-- What a process holds. -/
def sets (s : CapState) (id : Nat) : Finset Cap := ((s.lists id).map Capability.cap).toFinset

end CapState

/-- Grants and revocations take any words; a child that inherits is fresh, and the heap has blocks
for all that it inherits. -/
def capSystem : System CapState CapOp where
  exec s op := (s.step op).2
  enabled s
    | .grant _ args | .revoke _ args => args.Word
    | .revokeAll _ => True
    | .inheritAll child parent => s.lists child = [] ∧
        ∀ i < (s.lists parent).length, s.mm.kheap.fails (s.mm.kheap.calls + i) = false

theorem capSystem_grant (s : CapState) (id : Nat) (args : Cap) :
    capSystem.exec s (.grant id args) = s.set id (capGrant s.mm (s.lists id) args).2.1
      (capGrant s.mm (s.lists id) args).2.2 := rfl

/-- What the operations answer, for sets. A grant also depends on the heap. -/
def setAnswer (S : Nat → Finset Cap) : CapOp × Bool → Int
  | (.grant id args, refused) =>
    if ¬args.Valid then eInval
    else if args ∈ S id then eExists
    else if refused then eNomem
    else 0
  | _ => 0

/-- The operations on sets. -/
def setSystem : System (Nat → Finset Cap) (CapOp × Bool) where
  exec S
    | (.grant id args, refused) =>
      if args.Valid ∧ refused = false then Function.update S id (insert args (S id)) else S
    | (.revoke id args, _) => Function.update S id ((S id).erase args)
    | (.revokeAll id, _) => Function.update S id ∅
    | (.inheritAll child parent, _) => Function.update S child (S parent)
  enabled _ _ := True

/-- The lists are duplicate-free and hold valid capabilities. -/
structure CapState.Inv (s : CapState) : Prop where
  nodup : ∀ id, ((s.lists id).map Capability.cap).Nodup
  valid : ∀ id, ∀ e ∈ s.lists id, e.cap.Valid

namespace CapState

variable {s : CapState} {id : Nat}

theorem mem_sets {c : Cap} : c ∈ s.sets id ↔ ∃ e ∈ s.lists id, e.cap = c := by
  simp [sets]

/-- A change to one list changes one set. -/
theorem sets_set (mm : Resources) {caps : List Capability} {S : Finset Cap}
    (h : (caps.map Capability.cap).toFinset = S) :
    (s.set id mm caps).sets = Function.update s.sets id S := by
  funext id'
  by_cases hid : id' = id
  · subst hid
    simp [sets, set, h]
  · simp [sets, set, Function.update_of_ne hid]

/-- A change to one list concerns the invariant there. -/
theorem Inv.set (hs : s.Inv) (mm : Resources) {caps : List Capability}
    (hnodup : (caps.map Capability.cap).Nodup) (hvalid : ∀ e ∈ caps, e.cap.Valid) :
    (s.set id mm caps).Inv := by
  refine ⟨fun id' => ?_, fun id' => ?_⟩ <;> by_cases hid : id' = id
  · subst hid
    simpa [CapState.set] using hnodup
  · simpa [CapState.set, Function.update_of_ne hid] using hs.nodup id'
  · subst hid
    simpa [CapState.set] using hvalid
  · simpa [CapState.set, Function.update_of_ne hid] using hs.valid id'

end CapState

/-! ## The operations simulate those on sets -/

theorem Arena.kmalloc_eq_zero_iff (a : Arena) : a.kmalloc.1 = 0 ↔ a.fails a.calls = true := by
  unfold Arena.kmalloc
  split_ifs with h <;> simp [h]

/-- A grant is the grant of the set model. -/
theorem capGrant_eq (mm : Resources) (caps : List Capability) {args : Cap} (hw : args.Word) :
    let res := capGrant mm caps args
    let held := (caps.map Capability.cap).toFinset
    let refused := mm.kheap.fails mm.kheap.calls
    res.1 = setAnswer (fun _ => held) (.grant 0 args, refused) ∧
      (res.2.2 = caps ∧ (args ∈ held ∨ ¬(args.Valid ∧ refused = false)) ∨
        args ∉ held ∧ args.Valid ∧ refused = false ∧ ∃ addr, res.2.2 = ⟨addr, args⟩ :: caps) := by
  intro res held refused
  have hheld : (caps.any fun c => c.cap == args) = true ↔ args ∈ held := by
    simp [held, List.any_eq_true]
  have hvalid := Cap.grantCheck_eq_zero_iff hw
  have hzero : mm.kmalloc.1 = 0 ↔ refused = true := Arena.kmalloc_eq_zero_iff mm.kheap
  simp only [res, capGrant, setAnswer]
  by_cases hv : args.Valid
  · grind
  · grind

/-- A child for which the heap has blocks gets all capabilities of its parent. -/
theorem capInheritAll_map (mm : Resources) (caps parent : List Capability)
    (h : ∀ i < parent.length, mm.kheap.fails (mm.kheap.calls + i) = false) :
    (capInheritAll mm caps parent).2.map Capability.cap =
      (parent.map Capability.cap).reverse ++ caps.map Capability.cap := by
  induction parent generalizing mm caps with
  | nil => rfl
  | cons src parent ih =>
    have h₀ : mm.kheap.fails mm.kheap.calls = false := h 0 (Nat.succ_pos _)
    have hne : mm.kmalloc.1 ≠ 0 := fun hz => by
      have := (Arena.kmalloc_eq_zero_iff mm.kheap).mp hz
      simp [h₀] at this
    have hfails : mm.kmalloc.2.kheap.fails = mm.kheap.fails := by
      simp [kmalloc, Arena.kmalloc, h₀]
    unfold capInheritAll
    dsimp only
    rw [if_neg hne, ih]
    · simp
    · intro i hi
      rw [hfails, show mm.kmalloc.2.kheap.calls = mm.kheap.calls + 1 from mm.kheap.kmalloc_calls,
        Nat.add_assoc, Nat.add_comm 1]
      exact h (i + 1) (Nat.succ_lt_succ hi)

/-- Every operation keeps the invariant. -/
theorem CapState.Inv.exec {s : CapState} (hs : s.Inv) {op : CapOp} (hop : capSystem.enabled s op) :
    (capSystem.exec s op).Inv := by
  cases op with
  | grant id args =>
    rw [capSystem_grant]
    rcases (capGrant_eq s.mm (s.lists id) hop).2 with ⟨heq, -⟩ | ⟨hnot, hv, -, addr, heq⟩
    · rw [heq]
      exact hs.set _ (hs.nodup id) (hs.valid id)
    · grind [hs.set, List.mem_toFinset, hs.nodup, hs.valid]
  | revoke id args =>
    refine hs.set _ ?_ fun e he => hs.valid id e (List.mem_of_mem_filter he)
    exact (hs.nodup id).sublist (List.filter_sublist.map _)
  | revokeAll id => exact hs.set _ List.nodup_nil (by simp)
  | inheritAll child parent =>
    refine hs.set _ ?_ fun e he => ?_
    · rw [capInheritAll_map _ _ _ hop.2, hop.1, List.map_nil, List.append_nil]
      exact List.nodup_reverse.mpr (hs.nodup parent)
    · grind [capInheritAll_spec, hs.valid]

/-- Every operation does to the sets what the set model does. -/
theorem CapState.sets_exec {s : CapState} {op : CapOp} (hop : capSystem.enabled s op) :
    (capSystem.exec s op).sets = setSystem.exec s.sets (op, s.refuses) := by
  cases op with
  | grant id args =>
    rw [capSystem_grant]
    rcases (capGrant_eq s.mm (s.lists id) hop).2 with ⟨heq, hno⟩ | ⟨-, hv, hr, addr, heq⟩
    · rw [heq, CapState.sets_set _ (show _ = s.sets id from rfl), Function.update_eq_self]
      change _ = if args.Valid ∧ s.refuses = false then _ else _
      split_ifs with hc
      · -- a capability that is held already
        have hmem : args ∈ s.sets id := hno.resolve_right (not_not.mpr hc)
        rw [Finset.insert_eq_of_mem hmem, Function.update_eq_self]
      · rfl
    · change _ = if args.Valid ∧ s.refuses = false then _ else _
      rw [if_pos ⟨hv, hr⟩, heq]
      refine CapState.sets_set _ ?_
      rw [List.map_cons, List.toFinset_cons]
      rfl
  | revoke id args =>
    refine CapState.sets_set _ ?_
    ext c
    rw [List.mem_toFinset, List.mem_map, Finset.mem_erase, CapState.mem_sets]
    constructor
    · grind
    · grind
  | revokeAll id => exact CapState.sets_set _ rfl
  | inheritAll child parent =>
    refine CapState.sets_set _ ?_
    rw [capInheritAll_map _ _ _ hop.2, hop.1, List.map_nil, List.append_nil]
    exact List.toFinset_reverse

/-- Every operation answers as the set model does. -/
theorem CapState.step_answer {s : CapState} {op : CapOp} (hop : capSystem.enabled s op) :
    (s.step op).1 = setAnswer s.sets (op, s.refuses) := by
  cases op with
  | grant id args => exact (capGrant_eq s.mm (s.lists id) hop).1
  | _ => rfl

theorem CapState.start_inv (mm : Resources) : (CapState.start mm).Inv :=
  ⟨fun _ => List.nodup_nil, fun _ _ he => absurd he List.not_mem_nil⟩

/-- Over every run, the lists are duplicate-free and are the sets, the operations answer as they do
on sets, and a check succeeds exactly if a capability that is held covers the request. -/
theorem capability_lists_refine_sets (mm : Resources) (ops : List CapOp)
    (h : capSystem.Legal (CapState.start mm) ops) :
    let s₀ := CapState.start mm
    let s := capSystem.run s₀ ops
    let steps := capSystem.trace (fun s op => (op, s.refuses)) s₀ ops
    (∀ id, ((s.lists id).map Capability.cap).Nodup) ∧
      s.sets = setSystem.run (fun _ => ∅) steps ∧
      capSystem.trace (fun s op => (s.step op).1) s₀ ops =
        setSystem.trace setAnswer (fun _ => ∅) steps ∧
      ∀ id req, capCheck (s.lists id) req = 0 ↔ ∃ c ∈ s.sets id, c.Covers req := by
  intro s₀ s steps
  have hstep : ∀ s op, CapState.Inv s → capSystem.enabled s op → (capSystem.exec s op).Inv :=
    fun s op hs hop => hs.exec hop
  have hexec : ∀ s op, CapState.Inv s → capSystem.enabled s op →
      (capSystem.exec s op).sets = setSystem.exec s.sets (op, s.refuses) :=
    fun s op _ hop => CapState.sets_exec hop
  have hinv : s.Inv := System.run_invariant hstep (CapState.start_inv mm) h
  refine ⟨hinv.nodup, ?_, ?_, fun id req => ?_⟩
  · exact System.run_simulation hstep hexec (CapState.start_inv mm) h
  · exact System.trace_simulation hstep hexec (fun s op _ hop => CapState.step_answer hop)
      (CapState.start_inv mm) h
  · grind [capCheck_eq_zero_iff, hinv.valid, CapState.mem_sets]

theorem capability_lists_refine_sets_inherit :
    let ops : List CapOp := [.grant 1 (.mapMem ⟨0xB8000, 0x1000, 7⟩), .grant 1 (.ipc 1),
      .inheritAll 2 1, .revoke 1 (.ipc 1)]
    let s := capSystem.run (CapState.start .idle) ops
    capSystem.Legal (CapState.start .idle) ops ∧
      (capCheck (s.lists 2) (.ipc 1) = 0 ↔ ∃ c ∈ s.sets 2, c.Covers (.ipc 1)) := by
  intro ops s
  have hone : 1 < 2 ^ 32 := by decide
  have hlegal : capSystem.Legal (CapState.start .idle) ops :=
    ⟨⟨by decide, by decide, by decide⟩, hone, ⟨rfl, fun _ _ => rfl⟩, hone, trivial⟩
  exact ⟨hlegal, (capability_lists_refine_sets .idle ops hlegal).2.2.2 2 (.ipc 1)⟩

end Ukernel.Kernel
