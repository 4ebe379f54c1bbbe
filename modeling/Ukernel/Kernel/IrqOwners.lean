import Ukernel.Ipc.WaitLinks
import Ukernel.Kernel.IrqRuns

/-!
# The threads that interrupts go to

A user that requests a line gets its interrupts as mails. The request keeps the address of the `tcb`
that asked for it, and `dispatch_user_mode_irq` follows that address from the interrupt handler,
without a lookup. So a request must not outlive its thread.

## Why it can

There are two ways for a thread to end. `thread_delete_internal` walks over the requests of the
thread and releases them. The loop of `proc_exit_internal` tears its threads down in the same order
(context, wait queue, lists, lock, memory), but leaves out the requests: they stay in their lines
with the address of a `tcb` that has been freed. When such a line fires, the kernel reads a mailbox
out of freed memory, which is what `faulted` records.

## Main definitions

* `IrqState.procExit`: the exit of a process, as far as interrupts go
* `OwnerOp`, `OwnerOp.Released`: all steps, and those that leave no request behind
* `IrqState.Attended`: the invariant

## Main results

* `IrqState.Attended.step`: one step
* `user_irqs_owned`: in every run the owner of a request of a user is a live thread
-/

namespace Ukernel.Kernel

open Arch Ipc Lib Machine Mm Sync

namespace IrqState

/-- `proc_exit_internal`: the threads go, and their requests stay where they are. -/
def procExit (s : IrqState) (pid : Nat) : IrqState := s.withMail (s.mail.procExit pid)

end IrqState

/-- A step of mailboxes and interrupts, or the exit of a process. -/
inductive OwnerOp where
  | irq (op : IrqOp)
  | procExit (pid : Nat)

namespace OwnerOp

/-- A step. -/
def exec (s : IrqState) : OwnerOp → IrqState
  | .irq op => op.exec s
  | .procExit pid => s.procExit pid

/-- A process that is not trusted calls through the thread that runs. -/
def Called (s : IrqState) : IrqOp → Prop
  | .syscall proc _ => ¬trusted proc → s.mail.sched.run ≠ none
  | _ => True

/-- What kernel code guarantees of a step. -/
def Sound (s : IrqState) : OwnerOp → Prop
  | .irq op => op.Sound s ∧ Called s op
  | .procExit _ => True

/-- The gate is given what it has handed out, and the threads of a process that exits have no
requests. -/
def Released (s : IrqState) : OwnerOp → Prop
  | .irq op => op.HandedOut s
  | .procExit pid => ∀ t ∈ s.mail.sched.order, (s.mail.sched.thread t).pid = pid →
      s.threadIrqs (s.tcb t) = []

end OwnerOp

/-- All runs. -/
def ownerSystem : System IrqState OwnerOp := ⟨OwnerOp.exec, fun s op => op.Sound s⟩

/-- The runs that leave no request behind. -/
def releasedSystem : System IrqState OwnerOp :=
  ⟨OwnerOp.exec, fun s op => op.Sound s ∧ op.Released s⟩

namespace IrqState

/-- Requests of users have an owner; with `Safe`, a live one. -/
structure Attended (s : IrqState) : Prop where
  safe : s.Safe
  tidy : s.mail.sched.Tidy
  attached : ∀ p, s.Listed p → Irq.isUserIrq s.mem p ≠ 0 → Irq.owner s.mem p ≠ 0

variable {s s' : IrqState} {op : IrqOp}

/-- The owner of a request is a thread. -/
theorem Attended.owner (h : s.Attended) {p : Nat} (hp : s.Listed p)
    (huser : Irq.isUserIrq s.mem p ≠ 0) :
    ∃ t ∈ s.mail.sched.order, s.tcb t = Irq.owner s.mem p := by
  have howner := h.attached p hp huser
  obtain ⟨j, line, hl, hp⟩ := hp
  exact ((h.safe.tables.requests j line hl p hp).1.owner howner).2

/-- Whoever was in a line keeps its owner. -/
theorem Attended.keeps (h : s.Attended) (hk : Keeps s s') :
    ∀ p, s'.Listed p → Irq.isUserIrq s'.mem p ≠ 0 → Irq.owner s'.mem p ≠ 0 := by
  intro p hp huser
  obtain ⟨hold, ha⟩ := hk p hp
  rw [ha.isUserIrq] at huser
  rw [ha.owner]
  exact h.attached p hold huser

/-! ## One step -/

/-- The thread that runs is the owner of what it requests. -/
theorem callerTcb_ne_zero (h : s.Attended) {proc : Option Pcb} (hproc : ¬trusted proc)
    (hrun : s.mail.sched.run ≠ none) : s.callerTcb proc ≠ 0 := by
  obtain ⟨t, ht⟩ := Option.ne_none_iff_exists'.mp hrun
  have hmem := h.tidy.run t ht
  have hfind : s.mail.threadGetByTid (t : Int) = some t := by
    unfold MailState.threadGetByTid
    cases hf : s.mail.sched.order.find? fun (u : Nat) => (u : Int) == (t : Int) with
    | none => grind
    | some u => grind
  have htid : s.threadGetTid = t := by
    unfold threadGetTid
    rw [ht]
  unfold callerTcb ownerOf
  rw [if_neg hproc, if_neg hproc, htid, if_pos Nat.one_ne_zero, hfind]
  exact (h.safe.tables.tcbs t hmem).1

/-- An interrupt changes neither lines nor requests. -/
theorem handleIrq_same (s : IrqState) (p : Nat) :
    (s.handleIrq p).lines = s.lines ∧ (s.handleIrq p).mem = s.mem ∧
      (s.mail.sched.Tidy → (s.handleIrq p).mail.sched.Tidy) := by
  unfold handleIrq
  split_ifs
  · exact ⟨rfl, rfl, id⟩
  · unfold dispatchUserModeIrq
    dsimp only
    split_ifs
    · exact ⟨rfl, rfl, id⟩
    · split
      · exact ⟨rfl, rfl, fun h => MailState.dispatchUserModeIrq_tidy h _ _⟩
      · exact ⟨rfl, rfl, id⟩
  · exact ⟨rfl, rfl, id⟩

theorem foldl_handleIrq_same (ps : List Nat) (s : IrqState) :
    (ps.foldl handleIrq s).lines = s.lines ∧ (ps.foldl handleIrq s).mem = s.mem ∧
      (s.mail.sched.Tidy → (ps.foldl handleIrq s).mail.sched.Tidy) := by
  induction ps generalizing s with
  | nil => exact ⟨rfl, rfl, id⟩
  | cons p ps ih => grind [s.handleIrq_same]

theorem Attended.irqlineHandler (h : s.Attended) (major : Nat) :
    (s.irqlineHandler major).Attended := by
  refine ⟨h.safe.irqlineHandler major, ?_, ?_⟩ <;> unfold IrqState.irqlineHandler <;> split
  · exact h.tidy
  · exact (foldl_handleIrq_same _ s).2.2 h.tidy
  · exact h.attached
  · rename_i line _
    obtain ⟨hlines, hmem, -⟩ := foldl_handleIrq_same line.irqs s
    unfold Listed
    rw [hlines, hmem]
    exact h.attached

/-- `thread_delete_internal` takes requests out of lines, and adds none. -/
theorem Safe.threadDelete_keeps (h : s.Safe) (tid : Nat) : Keeps s (s.threadDelete tid) ∧
    (s.threadDelete tid).mail.sched = (s.mail.threadDelete tid).sched := by
  obtain ⟨htab, hmail⟩ := h.tables.withMail (s.mail.threadDelete tid)
  unfold IrqState.threadDelete
  by_cases hgone : tid ∈ s.mail.sched.order ∧ tid ∉ (s.mail.threadDelete tid).sched.order
  · rw [if_pos hgone]
    obtain ⟨hnodup, hmem⟩ := h.tables.owned tid hgone.1
    obtain ⟨-, hkeeps, hcore, -⟩ := htab.releaseAll (fun p hp => (hmem p hp).1) hnodup
    exact ⟨hmail.trans hkeeps, hcore.sched⟩
  · rw [if_neg hgone]
    exact ⟨hmail, rfl⟩

/-- Every step of mailboxes and interrupts. -/
theorem Attended.exec (h : s.Attended) (hsound : op.Sound s) (hcall : OwnerOp.Called s op)
    (hhanded : op.HandedOut s) : (op.exec s).Attended := by
  have hsafe := h.safe.exec hsound hhanded
  cases op with
  | mail op => exact ⟨hsafe, MailState.exec_tidy h.tidy hsound.2, h.attached⟩
  | syscall proc cfg =>
    obtain ⟨-, hcore, hjoins⟩ := h.safe.irqSyscallIsr proc cfg hhanded
    refine ⟨hsafe, ?_, fun p hp huser => ?_⟩
    · change (Kernel.irqSyscallIsr proc s cfg).2.mail.sched.Tidy
      rw [hcore.sched]
      exact h.tidy
    · change Irq.isUserIrq (Kernel.irqSyscallIsr proc s cfg).2.mem p ≠ 0 at huser
      change Irq.owner (Kernel.irqSyscallIsr proc s cfg).2.mem p ≠ 0
      rcases hjoins p hp with ⟨hold, ha⟩ | ⟨hkind, howner⟩
      · rw [ha.isUserIrq] at huser
        rw [ha.owner]
        exact h.attached p hold huser
      · -- a new request of a user belongs to the thread that runs
        have hproc : ¬trusted proc := fun htrust => huser (hkind.trans (if_pos htrust))
        rw [howner]
        exact callerTcb_ne_zero h hproc (hcall hproc)
  | interrupt major => exact h.irqlineHandler major
  | store a v => exact ⟨hsafe, h.tidy, h.keeps (h.safe.tables.store hsound v).2⟩
  | threadCreate pid tid tcb =>
    exact ⟨hsafe, MailState.threadCreate_tidy h.tidy hsound.1 pid, h.attached⟩
  | threadDelete tid =>
    obtain ⟨hkeeps, hsched⟩ := h.safe.threadDelete_keeps tid
    exact ⟨hsafe, hsched ▸ MailState.threadDelete_tidy h.tidy tid, h.keeps hkeeps⟩

/-- A process exits whose threads have no requests. -/
theorem Attended.procExit (h : s.Attended) {pid : Nat}
    (hnone : ∀ t ∈ s.mail.sched.order, (s.mail.sched.thread t).pid = pid →
      s.threadIrqs (s.tcb t) = []) : (s.procExit pid).Attended := by
  set ts := s.mail.sched.order.filter fun t => (s.mail.sched.thread t).pid == pid with hts
  have hfewer := Sched.fewer_exitLoop ts s.mail.sched
  refine ⟨⟨h.safe.order.sublist hfewer.order, ?_, ?_⟩, h.tidy.exitLoop ts, h.attached⟩
  · refine ((h.safe.tables.withMail (s.mail.procExit pid)).1).restrict
      (fun t ht => hfewer.order.subset ht) fun p hp t ht htcb => ?_
    -- a thread with a request is one of another process, and stays
    refine Sched.mem_exitLoop ht fun hin => ?_
    obtain ⟨-, hpid⟩ := List.mem_filter.mp hin
    have hempty := hnone t ht (beq_iff_eq.mp hpid)
    obtain ⟨j, line, hl, hp⟩ := hp
    have howner : Irq.owner s.mem p ≠ 0 := htcb ▸ (h.safe.tables.tcbs t ht).1
    have hmem := ((h.safe.tables.requests j line hl p hp).1.owner howner).1
    change s.tcb t = Irq.owner s.mem p at htcb
    rw [← htcb, hempty] at hmem
    exact List.not_mem_nil hmem
  · exact ⟨h.safe.calls.handlers, h.safe.calls.called, h.safe.calls.invoked, h.safe.calls.faulted⟩

/-- Every step. -/
theorem Attended.step (h : s.Attended) {op : OwnerOp} (hs : op.Sound s) (hr : op.Released s) :
    (op.exec s).Attended := by
  cases op with
  | irq op => exact h.exec hs.1 hs.2 hr
  | procExit pid => exact h.procExit hr

theorem Start.attended (h : s.Start) (htidy : s.mail.sched.Tidy) : s.Attended := by
  refine ⟨h.safe, htidy, fun p hp => ?_⟩
  obtain ⟨j, line, hl, -⟩ := hp
  rw [h.lines] at hl
  exact nomatch hl

end IrqState

/-! ## Runs -/

/-- In every state of every run that leaves no request behind, the owner of a request of a user is a
live thread. -/
theorem user_irqs_owned (s : IrqState) (ops : List OwnerOp) (hs : s.Start)
    (htidy : s.mail.sched.Tidy) (hops : releasedSystem.Legal s ops) :
    let s' := releasedSystem.run s ops
    ∀ major line, s'.lines major = some line → ∀ p ∈ line.irqs, Irq.isUserIrq s'.mem p ≠ 0 →
      ∃ t ∈ s'.mail.sched.order, s'.tcb t = Irq.owner s'.mem p := by
  intro s' major line hline p hp huser
  have h : s'.Attended := releasedSystem.run_invariant
    (fun _ _ h hen => h.step hen.1 hen.2) (hs.attended htidy) hops
  exact h.owner ⟨major, line, hline, hp⟩ huser

/-- Thread 1 requests a line and has it unmasked; then thread 2, of another process, runs. -/
def requestedOps : List OwnerOp :=
  [.irq (.threadCreate 2 2 0x300200), .irq (.mail (.threadUnblock 2)), .irq (userIrq 0 0),
    .irq (userIrq 3 0x100000), .irq (.mail .timer)]

/-- The line has a request of thread 1, and thread 2 runs. -/
def requestedState : IrqState := releasedSystem.run quietState requestedOps

theorem quietState_tidy : quietState.mail.sched.Tidy where
  nodup := List.nodup_singleton _
  run _ ht := List.mem_singleton.mpr (Option.some.inj ht).symm
  waits := ⟨fun _ _ ht => (nomatch ht), fun _ => List.nodup_nil, rfl⟩
  live _ _ ht := nomatch ht

/-- The process of thread 2 exits. -/
theorem user_irqs_owned_requested :
    let s := releasedSystem.run quietState (requestedOps ++ [.procExit 2])
    s.mail.sched.order = [1] ∧ (∃ line, s.lines 0x21 = some line ∧ line.irqs = [0x100000]) ∧
      Irq.isUserIrq s.mem 0x100000 = 1 ∧
      ∀ major line, s.lines major = some line → ∀ p ∈ line.irqs, Irq.isUserIrq s.mem p ≠ 0 →
        ∃ t ∈ s.mail.sched.order, s.tcb t = Irq.owner s.mem p := by
  have hlisted : (releasedSystem.run quietState (requestedOps.take 3)).Listed 0x100000 :=
    ⟨0x21, ⟨0x100040, 0x9008, [0x100000]⟩, rfl, List.mem_cons_self⟩
  have hfree : ∀ t ∈ requestedState.mail.sched.order,
      (requestedState.mail.sched.thread t).pid = 2 →
        requestedState.threadIrqs (requestedState.tcb t) = [] := by
    decide +kernel
  have hops : releasedSystem.Legal quietState (requestedOps ++ [.procExit 2]) :=
    ⟨⟨⟨⟨by decide, by decide, by decide, by decide⟩, trivial⟩, trivial⟩,
      ⟨⟨⟨trivial, trivial⟩, trivial⟩, trivial⟩,
      ⟨⟨fun h => (nomatch h), fun _ => by decide⟩, fun h => absurd rfl h.1⟩,
      ⟨⟨fun h => (nomatch h), fun _ => by decide +kernel⟩, fun _ => Or.inr hlisted⟩,
      ⟨⟨⟨trivial, trivial⟩, trivial⟩, trivial⟩, ⟨trivial, hfree⟩, trivial⟩
  exact ⟨by decide +kernel, ⟨⟨0x100040, 0x9008, [0x100000]⟩, rfl, rfl⟩, by decide +kernel,
    user_irqs_owned quietState _ quietState_start quietState_tidy hops⟩

/-- The process of thread 1 exits instead, whose request stays: it is in its line, with the address
of a thread that is gone, and when the line fires the kernel follows that address. -/
theorem user_irqs_orphaned :
    quietState.Start ∧ quietState.mail.sched.Tidy ∧
      ownerSystem.Legal quietState (requestedOps ++ [.procExit 1]) ∧
      let s := ownerSystem.run quietState (requestedOps ++ [.procExit 1])
      (∃ line, s.lines 0x21 = some line ∧ line.irqs = [0x100000]) ∧
        Irq.isUserIrq s.mem 0x100000 = 1 ∧ s.mail.sched.order = [2] ∧
        s.tcb 2 ≠ Irq.owner s.mem 0x100000 ∧ (s.irqlineHandler 0x21).faulted = true := by
  refine ⟨quietState_start, quietState_tidy, ?_, ⟨⟨0x100040, 0x9008, [0x100000]⟩, rfl, rfl⟩, ?_⟩
  · exact ⟨⟨⟨by decide, by decide, by decide, by decide⟩, trivial⟩, ⟨⟨trivial, trivial⟩, trivial⟩,
      ⟨fun h => (nomatch h), fun _ => by decide⟩,
      ⟨fun h => (nomatch h), fun _ => by decide +kernel⟩,
      ⟨⟨trivial, trivial⟩, trivial⟩, trivial, trivial⟩
  · decide +kernel

end Ukernel.Kernel
