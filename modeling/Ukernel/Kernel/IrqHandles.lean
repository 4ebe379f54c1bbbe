import Ukernel.Kernel.IrqRuns

/-!
# Whose interrupts a handle reaches

The handle that a process gets for a request is the address of the request in the kernel. The gate
asks for `CAP_OWN_IRQ` when a line is requested and, in the words of `irq_syscall_isr`, not when it
is given "a handle the caller already owns".

## Why owning has to be assumed

Nobody checks it. `irq_exec` passes the handle on, and the functions behind it read the line out of
whatever the handle points to. A process that learns the handle of another one, or keeps its own
after the release until the block is used again, can release, mask and unmask what is not its own.
The theorem is about the runs in which every process hands in only what is in a line on its behalf;
`irq_handles_shared` is a run of two processes without the assumption.

## Main definitions

* `IrqState.OwnedBy`: a request was made by a thread of a process
* `IrqState.Spared`: a request is still in its line and as enabled as it was
* `ownHandlesSystem`: the runs in which handles are handed in by their owners

## Main results

* `IrqState.Tables.release_spared`, `IrqState.Tables.mask_spared`, `IrqState.Tables.unmask_spared`:
  the three functions spare every request but the one that they are given
* `irq_handles_own_lines`: in every run the three commands spare the requests of others
-/

namespace Ukernel.Kernel

open Arch Ipc Lib Machine Mm Sync

namespace IrqState

/-- The process of the thread that runs. -/
def callerPid (s : IrqState) : Option Nat :=
  s.mail.sched.run.map fun t => (s.mail.sched.thread t).pid

/-- A request was made by a thread of a process. -/
def OwnedBy (s : IrqState) (p pid : Nat) : Prop :=
  ∃ t ∈ s.mail.sched.order, s.tcb t = Irq.owner s.mem p ∧ (s.mail.sched.thread t).pid = pid

/-- A request stays in its line and keeps its flag, and while that is set the line is not masked. -/
structure Spared (s s' : IrqState) (j q : Nat) : Prop where
  listed : ∃ line, s'.lines j = some line ∧ q ∈ line.irqs
  enabled : Irq.enabled s'.mem q = Irq.enabled s.mem q
  masked : Irq.enabled s.mem q ≠ 0 → s'.masked j = true → s.masked j = true

end IrqState

/-- What a user hands in is in a line, on behalf of its own process. -/
def IrqOp.OwnHandle (s : IrqState) : IrqOp → Prop
  | .syscall proc cfg => ¬trusted proc → UsesHandle cfg → cfg.handle = 0 ∨
      s.Listed cfg.handle ∧ ∃ pid, s.callerPid = some pid ∧ s.OwnedBy cfg.handle pid
  | _ => True

/-- The runs in which handles are handed in by their owners. -/
def ownHandlesSystem : System IrqState IrqOp :=
  ⟨IrqOp.exec, fun s op => op.Sound s ∧ op.OwnHandle s⟩

namespace IrqState

variable {s s' s'' : IrqState} {L : List Nat} {R : Nat → Prop} {j p q : Nat} {line : IrqLine}

/-! ## Masks -/

/-- A line is masked only if all of its requests are disabled. -/
theorem irqlineMask_masked {major : Nat} (h : (s.irqlineMask major line).masked j = true) :
    s.masked j = true ∨ j = major ∧ ∀ q ∈ line.irqs, Irq.enabled s.mem q = 0 := by
  unfold irqlineMask at h
  split_ifs at h with hany
  · exact Or.inl h
  unfold archSetMask at h
  split_ifs at h
  · exact Or.inl h
  by_cases hj : j = major
  · grind
  · exact Or.inl ((Function.update_of_ne hj _ _).symm.trans h)

/-- `irqline_unmask` masks nothing. -/
theorem irqlineUnmask_masked {major : Nat} (h : (s.irqlineUnmask major line).masked j = true) :
    s.masked j = true := by
  unfold irqlineUnmask at h
  split_ifs at h
  · unfold archSetMask at h
    split_ifs at h
    · exact h
    by_cases hj : j = major
    · grind
    · exact (Function.update_of_ne hj _ _).symm.trans h
  · exact h

/-- A line that is masked by the release of a request has no other one that is enabled. -/
theorem irqReleaseInternal_masked (h : (s.irqReleaseInternal p).masked j = true) :
    s.masked j = true ∨ ∀ line, s.lines j = some line → ∀ q ∈ line.irqs, q ≠ p →
      Irq.enabled s.mem q = 0 := by
  unfold irqReleaseInternal at h
  split_ifs at h
  · exact Or.inl h
  have hlock (s : IrqState) (lock : Nat) : (s.spinlockRelease lock).masked = s.masked := by
    unfold spinlockRelease setLock
    split_ifs
    · rfl
    · split <;> rfl
  have hfree : (((s.leaveLine p).leaveThread p).irqFree p).masked = (s.leaveLine p).masked := by
    unfold irqFree leaveThread
    dsimp only
    split_ifs
    · rfl
    · rfl
    · exact hlock _ _
    · exact hlock _ _
  rw [hfree] at h
  unfold leaveLine at h
  dsimp only at h
  cases hl : s.lines (Irq.major s.mem p) with
  | none =>
    rw [hl] at h
    exact Or.inl h
  | some line =>
    rw [hl] at h
    rcases irqlineMask_masked h with hold | ⟨hj, hall⟩
    · exact Or.inl hold
    · refine Or.inr fun line' hl' q hq hne => hall q ?_
      rw [hj, hl] at hl'
      cases hl'
      exact (List.mem_erase_of_ne hne).mpr hq

/-! ## The three functions -/

/-- `irq_release_internal`. -/
theorem Tables.release_spared (h : s.Tables L R) (hp : s.Listed p) (hl : s.lines j = some line)
    (hq : q ∈ line.irqs) (hne : q ≠ p) : Spared s (s.irqReleaseInternal p) j q := by
  obtain ⟨i, line₁, hl₁, hp₁⟩ := hp
  obtain ⟨masked, locks, heq⟩ :=
    (h.requests i line₁ hl₁ p hp₁).1.release (h.lines i line₁ hl₁).1 h.table.1
  refine ⟨?_, congrArg (fun s => Irq.enabled s.mem q) heq, fun hen hmask => ?_⟩
  · rw [heq]
    obtain ⟨line', hl'⟩ : ∃ line', (s.without p masked locks).lines j = some line' :=
      ⟨_, Option.map_eq_some_iff.mpr ⟨line, hl, rfl⟩⟩
    obtain ⟨line₂, hl₂, -, hmem⟩ := h.mem_without hl'
    cases hl.symm.trans hl₂
    exact ⟨line', hl', (hmem q).mpr ⟨hq, hne⟩⟩
  · grind [irqReleaseInternal_masked]

/-- Lines and memory stay, and a line with an enabled request is not masked. -/
theorem Spared.after (h : Spared s s' j q) (hlines : s''.lines = s'.lines) (hmem : s''.mem = s'.mem)
    (hmask : Irq.enabled s'.mem q ≠ 0 → s''.masked j = true → s'.masked j = true) :
    Spared s s'' j q := by
  refine ⟨hlines ▸ h.listed, hmem ▸ h.enabled, fun hen hm => h.masked hen (hmask ?_ hm)⟩
  rw [h.enabled]
  exact hen

/-- Up to the line, a mask and an unmask write the flag of the request that they are given. -/
theorem Tables.setEnabled_spared (h : s.Tables L R) (hp : s.Listed p) (hl : s.lines j = some line)
    (hq : q ∈ line.irqs) (hne : q ≠ p) (v : Nat) :
    Spared s (s.irqSetEnabled p v) j q ∧ (s.irqSetEnabled p v).lines = s.lines := by
  have hapart := h.apart hp ⟨j, line, hl, hq⟩ hne
  obtain ⟨i, line₁, hl₁, hp₁⟩ := hp
  obtain ⟨locks, heq⟩ := (h.requests i line₁ hl₁ p hp₁).1.setEnabled h.table.1 v
  rw [heq]
  refine ⟨⟨⟨line, hl, hq⟩, load32_store32_of_disjoint s.mem v ?_, fun _ hm => hm⟩, rfl⟩
  unfold RangesApart Irq.size at hapart
  omega

/-- `irq_mask_internal`. -/
theorem Tables.mask_spared (h : s.Tables L R) (hp : s.Listed p) (hl : s.lines j = some line)
    (hq : q ∈ line.irqs) (hne : q ≠ p) : Spared s (s.irqMaskInternal p).2 j q := by
  obtain ⟨hsp, hlines⟩ := h.setEnabled_spared hp hl hq hne 0
  unfold IrqState.irqMaskInternal
  split_ifs
  · exact ⟨⟨line, hl, hq⟩, rfl, fun _ hm => hm⟩
  dsimp only
  split
  · exact hsp
  · rename_i line₁ hl₁
    set s₁ := s.irqSetEnabled p 0
    obtain ⟨masked, heq⟩ := irqlineMask_eq s₁ (Irq.major s₁.mem p) line₁
    refine hsp.after (heq ▸ rfl) (heq ▸ rfl) fun hen hm => ?_
    rcases irqlineMask_masked hm with hold | ⟨hj, hall⟩
    · exact hold
    · grind

/-- `irq_unmask_internal`. -/
theorem Tables.unmask_spared (h : s.Tables L R) (hp : s.Listed p) (hl : s.lines j = some line)
    (hq : q ∈ line.irqs) (hne : q ≠ p) : Spared s (s.irqUnmaskInternal p).2 j q := by
  obtain ⟨hsp, -⟩ := h.setEnabled_spared hp hl hq hne 1
  unfold IrqState.irqUnmaskInternal
  split_ifs
  · exact ⟨⟨line, hl, hq⟩, rfl, fun _ hm => hm⟩
  dsimp only
  split
  · exact hsp
  · rename_i line₁ _
    set s₁ := s.irqSetEnabled p 1
    obtain ⟨masked, heq⟩ := irqlineUnmask_eq s₁ (Irq.major s₁.mem p) line₁
    exact hsp.after (heq ▸ rfl) (heq ▸ rfl) fun _ hm => irqlineUnmask_masked hm

/-! ## The gate -/

/-- A command that is given a request spares all others. -/
theorem Safe.command_spared (h : s.Safe) {cfg : IrqCtrlConfig} (hcmd : IrqOp.UsesHandle cfg)
    (hp : cfg.handle = 0 ∨ s.Listed cfg.handle) (proc : Option Pcb) (hl : s.lines j = some line)
    (hq : q ∈ line.irqs) (hne : q ≠ cfg.handle) :
    Spared s ((IrqOp.syscall proc cfg).exec s) j q := by
  have hnot : ¬(cfg.cmd = 0 ∧ ¬irqPermitted proc cfg.major) := by
    rintro ⟨hz, -⟩
    exact hcmd.1 (congrArg IrqSyscallCmd.decode hz)
  have hisr : Kernel.irqSyscallIsr proc s cfg = irqExec proc s cfg := if_neg hnot
  -- what the gate records is not part of the claim
  suffices hsp : Spared s (irqExec proc s cfg).2 j q by
    unfold IrqOp.exec
    dsimp only
    rw [hisr]
    exact ⟨hsp.listed, hsp.enabled, hsp.masked⟩
  have hself : Spared s s j q := ⟨⟨line, hl, hq⟩, rfl, fun _ hm => hm⟩
  have hzero {s' : IrqState} (heq : cfg.handle = 0 → s' = s)
      (hlisted : s.Listed cfg.handle → Spared s s' j q) : Spared s s' j q := by grind
  unfold irqExec
  cases hdec : IrqSyscallCmd.decode cfg.cmd with
  | none => exact absurd hdec hcmd.2
  | some cmd =>
    cases cmd with
    | request => exact absurd hdec hcmd.1
    | release =>
      exact hzero (fun hz => if_pos (Or.inl hz)) fun hp => h.tables.release_spared hp hl hq hne
    | mask =>
      exact hzero (fun hz => congrArg Prod.snd (if_pos (Or.inl hz)))
        fun hp => h.tables.mask_spared hp hl hq hne
    | unmask =>
      exact hzero (fun hz => congrArg Prod.snd (if_pos (Or.inl hz)))
        fun hp => h.tables.unmask_spared hp hl hq hne

end IrqState

theorem IrqOp.OwnHandle.handedOut {s : IrqState} {op : IrqOp} (hs : op.Sound s)
    (h : op.OwnHandle s) : op.HandedOut s := by
  cases op with
  | syscall proc cfg =>
    intro hcmd
    by_cases htrust : trusted proc
    · exact hs htrust hcmd
    · exact (h htrust hcmd).imp_right And.left
  | _ => trivial

/-! ## Runs -/

/-- In every state of every run in which users hand in requests of their own, the release, mask or
unmask of a user leaves the requests that do not belong to its process in their lines, enables and
disables none of them, and masks no line in which one of them is enabled. -/
theorem irq_handles_own_lines (s : IrqState) (ops : List IrqOp) (hs : s.Start)
    (hops : ownHandlesSystem.Legal s ops) :
    let y := ownHandlesSystem.run s ops
    ∀ proc cfg pid, ¬trusted proc → IrqOp.UsesHandle cfg → y.callerPid = some pid →
      ownHandlesSystem.enabled y (.syscall proc cfg) →
      ∀ j line, y.lines j = some line → ∀ q ∈ line.irqs, ¬y.OwnedBy q pid →
        y.Spared ((IrqOp.syscall proc cfg).exec y) j q := by
  intro y proc cfg pid huser hcmd hpid hen j line hl q hq hforeign
  have h : y.Safe := ownHandlesSystem.run_invariant
    (fun _ _ h hen => h.exec hen.1 (hen.2.handedOut hen.1)) hs.safe hops
  have hhandle := hen.2 huser hcmd
  have hne : q ≠ cfg.handle := by
    rintro heq
    rcases hhandle with hz | ⟨-, pid', hpid', hown⟩
    · exact (h.tables.block ⟨j, line, hl, hq⟩).1 (heq.trans hz)
    · grind
  exact h.command_spared hcmd (hhandle.imp_right And.left) proc hl hq hne

/-- Thread 1 requests a line and has it unmasked; then thread 2, of another process, runs. -/
def sharedOps : List IrqOp :=
  [.threadCreate 2 2 0x300200, .mail (.threadUnblock 2), userIrq 0 0, userIrq 3 0x100000,
    .mail .timer]

/-- A command of a user that may do nothing. -/
def strangerIrq (cmd handle : Nat) : IrqOp :=
  .syscall (some (Pcb.bare .user [])) ⟨cmd, handle, 0, 0, 0, 0, 0, 0, 0, 0⟩

/-- Thread 2 has nothing to hand in but 0. -/
theorem irq_handles_own_lines_other :
    let y := ownHandlesSystem.run quietState sharedOps
    y.callerPid = some 2 ∧ (∃ line, y.lines 0x21 = some line ∧ line.irqs = [0x100000]) ∧
      y.Spared ((strangerIrq 1 0).exec y) 0x21 0x100000 := by
  intro y
  have hlisted : (ownHandlesSystem.run quietState (sharedOps.take 3)).Listed 0x100000 :=
    ⟨0x21, ⟨0x100040, 0x9008, [0x100000]⟩, rfl, List.mem_cons_self⟩
  have howned : (ownHandlesSystem.run quietState (sharedOps.take 3)).OwnedBy 0x100000 1 :=
    ⟨1, by decide +kernel, by decide +kernel, by decide +kernel⟩
  have hops : ownHandlesSystem.Legal quietState sharedOps :=
    ⟨⟨⟨by decide, by decide, by decide, by decide⟩, trivial⟩, ⟨⟨trivial, trivial⟩, trivial⟩,
      ⟨fun h => (nomatch h), fun _ h => absurd rfl h.1⟩,
      ⟨fun h => (nomatch h), fun _ _ => Or.inr ⟨hlisted, 1, by decide +kernel, howned⟩⟩,
      ⟨⟨trivial, trivial⟩, trivial⟩, trivial⟩
  have hline : y.lines 0x21 = some ⟨0x100040, 0x9008, [0x100000]⟩ := rfl
  have hpid : y.callerPid = some 2 := by decide +kernel
  have hforeign : ¬y.OwnedBy 0x100000 2 := by
    unfold IrqState.OwnedBy
    decide +kernel
  have hen : ownHandlesSystem.enabled y (strangerIrq 1 0) :=
    ⟨fun h => (nomatch h), fun _ _ => Or.inl rfl⟩
  exact ⟨hpid, ⟨_, hline, rfl⟩, irq_handles_own_lines quietState sharedOps quietState_start hops
    (some (Pcb.bare .user [])) _ 2 (fun h => nomatch h) ⟨by decide, by decide⟩ hpid hen 0x21 _ hline
    0x100000 List.mem_cons_self hforeign⟩

/-- With the handle that thread 1 was given, thread 2 masks the line, or takes it away. -/
theorem irq_handles_shared :
    let y := irqSystem.run quietState sharedOps
    quietState.Start ∧ irqSystem.Legal quietState sharedOps ∧
      irqSystem.enabled y (strangerIrq 1 0x100000) ∧ irqSystem.enabled y (strangerIrq 2 0x100000) ∧
      (∃ proc cfg, userIrq 0 0 = .syscall proc cfg ∧
        (irqSyscallIsr proc (irqSystem.run quietState (sharedOps.take 2)) cfg).1.handle =
          0x100000) ∧
      y.OwnedBy 0x100000 1 ∧ y.callerPid = some 2 ∧ y.masked 0x21 = false ∧
      (∃ line, y.lines 0x21 = some line ∧ line.irqs = [0x100000]) ∧
      (∃ line, ((strangerIrq 1 0x100000).exec y).lines 0x21 = some line ∧ line.irqs = []) ∧
      Irq.enabled y.mem 0x100000 = 1 ∧
      Irq.enabled ((strangerIrq 2 0x100000).exec y).mem 0x100000 = 0 ∧
      ((strangerIrq 2 0x100000).exec y).masked 0x21 = true := by
  refine ⟨quietState_start, ?_, fun h => (nomatch h), fun h => (nomatch h),
    ⟨_, _, rfl, by decide +kernel⟩, ⟨1, by decide +kernel, by decide +kernel, by decide +kernel⟩,
    by decide +kernel, by decide +kernel, ⟨⟨0x100040, 0x9008, [0x100000]⟩, rfl, rfl⟩,
    ⟨⟨0x100040, 0x9008, []⟩, rfl, rfl⟩, by decide +kernel, by decide +kernel, by decide +kernel⟩
  exact ⟨⟨by decide, by decide, by decide, by decide⟩, ⟨trivial, trivial⟩, fun h => (nomatch h),
    fun h => (nomatch h), ⟨trivial, trivial⟩, trivial⟩

end Ukernel.Kernel
