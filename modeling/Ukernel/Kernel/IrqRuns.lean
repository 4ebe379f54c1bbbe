import Ukernel.Ipc.MailboxHandlers
import Ukernel.Ipc.MailboxRuns
import Ukernel.Kernel.IrqOps

/-!
# Functions that interrupts call

In every run in which the gate is given the addresses of requests, and mails that are queued are
left alone, the functions that run in the kernel are those that the kernel has registered.

## Why the addresses matter

The gate of mailboxes refuses every address of a user. The one of interrupts follows it: a user that
has asked for a line knows where its own request lies, since the gate has told it, and may hand in
the address of something it has written itself. What the kernel then takes for a lock is released,
which writes 0 to wherever the user likes, and the flag that keeps the user's function out of the
kernel is a word that may be 0. `irq_release_forged` is such a run.

## Main definitions

* `IrqState.Calls`, `IrqState.Safe`: the invariant
* `irqSystem`, `honestSystem`: all runs, and those in which the gate is given what it has handed out

## Main results

* `IrqState.Safe.exec`: every step keeps the invariant
* `registered_functions_only`
-/

namespace Ukernel.Kernel

open Arch Ipc Lib Machine Mm Sync

namespace IrqState

/-- Whoever is called, and whoever may be, has been registered. -/
structure Calls (R : Nat → Prop) (s : IrqState) : Prop where
  handlers : ∀ mb, ∀ h ∈ (s.mail.box mb).handlers, R h.handler
  called : ∀ f ∈ s.mail.history.invoked, R f
  invoked : ∀ f ∈ s.invoked, R f
  faulted : s.faulted = false

/-- The invariant. -/
structure Safe (s : IrqState) : Prop where
  order : s.mail.sched.order.Nodup
  tables : s.Tables s.mail.sched.order (· ∈ s.registered)
  calls : s.Calls (· ∈ s.registered)

/-- Nothing has been requested and nothing registered. -/
structure Start (s : IrqState) : Prop where
  heap : s.kheap.Ok
  below : s.kheap.hi ≤ userHeapBase
  table : 0 < s.spinlocks ∧ s.spinlocks + 4 * Resources.spinLockMaxCount ≤ 2 ^ 32
  order : s.mail.sched.order.Nodup
  tcbs : ∀ t ∈ s.mail.sched.order, s.tcb t ≠ 0 ∧ s.tcb t < 2 ^ 32 ∧
    ∀ t' ∈ s.mail.sched.order, s.tcb t = s.tcb t' → t = t'
  lines : s.lines = fun _ => none
  threadIrqs : ∀ t ∈ s.mail.sched.order, s.threadIrqs (s.tcb t) = []
  handlers : ∀ mb, (s.mail.box mb).handlers = []
  called : s.mail.history.invoked = []
  invoked : s.invoked = []
  faulted : s.faulted = false

end IrqState

namespace IrqOp

/-- A command is about a request that has been handed out. -/
def UsesHandle (cfg : IrqCtrlConfig) : Prop :=
  IrqSyscallCmd.decode cfg.cmd ≠ some .request ∧ IrqSyscallCmd.decode cfg.cmd ≠ none

/-- What kernel code guarantees of a step: it hands in what it has been handed, and threads have
addresses of their own. Users write to their own memory. -/
def Sound (s : IrqState) : IrqOp → Prop
  | .mail op => op.Plain ∧ op.Sound s.mail
  | .syscall proc cfg => trusted proc → UsesHandle cfg → cfg.handle = 0 ∨ s.Listed cfg.handle
  | .interrupt _ => True
  | .store a _ => userHeapBase ≤ a
  | .threadCreate _ tid tcb => tid ∉ s.mail.sched.order ∧ tcb ≠ 0 ∧ tcb < 2 ^ 32 ∧
      ∀ t ∈ s.mail.sched.order, s.tcb t ≠ tcb
  | .threadDelete _ => True

/-- Everybody hands in what has been handed out, and leaves mails that are queued alone. -/
def Honest (s : IrqState) : IrqOp → Prop
  | .mail op => ∀ m, op.event s.mail = .parted m → ∀ mb ∈ s.mail.boxes, ¬s.mail.QueuedIn mb m
  | .syscall _ cfg => UsesHandle cfg → cfg.handle = 0 ∨ s.Listed cfg.handle
  | _ => True

/-- Whoever hands in the address of a request hands in what has been handed out. -/
def HandedOut (s : IrqState) : IrqOp → Prop
  | .syscall _ cfg => UsesHandle cfg → cfg.handle = 0 ∨ s.Listed cfg.handle
  | _ => True

theorem Honest.handedOut {s : IrqState} {op : IrqOp} (h : op.Honest s) : op.HandedOut s := by
  cases op with
  | syscall proc cfg => exact h
  | _ => trivial

/-- The step is one of a user process. -/
def ByUser : IrqOp → Prop
  | .mail (.syscall proc _) => ¬trusted proc
  | .mail (.store _ _) => True
  | .syscall proc _ => ¬trusted proc
  | .store _ _ => True
  | _ => False

end IrqOp

/-- All runs. -/
def irqSystem : System IrqState IrqOp := ⟨IrqOp.exec, fun s op => op.Sound s⟩

/-- The runs in which everybody hands in what has been handed out. -/
def honestSystem : System IrqState IrqOp := ⟨IrqOp.exec, fun s op => op.Sound s ∧ op.Honest s⟩

namespace IrqState

variable {s s' : IrqState} {L : List Nat} {R R' : Nat → Prop} {op : IrqOp}

theorem Start.safe (h : s.Start) : s.Safe where
  order := h.order
  tables := by
    have hline {j : Nat} {line : IrqLine} (hl : s.lines j = some line) : False := by
      rw [h.lines] at hl
      exact nomatch hl
    refine ⟨h.heap, h.below, h.table, fun j line hl => (hline hl).elim,
      fun j line hl => (hline hl).elim, h.tcbs, fun t ht => ?_⟩
    rw [h.threadIrqs t ht]
    exact ⟨List.nodup_nil, fun p hp => nomatch hp⟩
  calls := by
    refine ⟨fun mb a ha => ?_, fun f hf => ?_, fun f hf => ?_, h.faulted⟩
    · rw [h.handlers mb] at ha
      exact nomatch ha
    · rw [h.called] at hf
      exact nomatch hf
    · rw [h.invoked] at hf
      exact nomatch hf

/-! ## Calls -/

theorem Calls.mono (h : s.Calls R) (hR : ∀ f, R f → R' f) : s.Calls R' :=
  ⟨fun mb a ha => hR _ (h.handlers mb a ha), fun f hf => hR f (h.called f hf),
    fun f hf => hR f (h.invoked f hf), h.faulted⟩

theorem Calls.core (h : s.Calls R) (hc : Core s s') : s'.Calls R := by
  refine ⟨?_, ?_, ?_, hc.faulted.trans h.faulted⟩
  · rw [hc.box]
    exact h.handlers
  · rw [hc.history]
    exact h.called
  · rw [hc.invoked]
    exact h.invoked

/-- No handler has been added. -/
theorem Calls.tame (h : s.Calls R) {mail : MailState} (ht : s.mail.Tame mail) :
    (s.withMail mail).Calls R := by
  refine ⟨fun mb a ha => h.handlers mb a (ht.handlers mb ha), fun f hf => ?_, h.invoked, h.faulted⟩
  rcases ht.invoked f hf with hf | ⟨mb, a, ha, rfl⟩
  · exact h.called f hf
  · exact h.handlers mb a ha

/-- The lines do not look at the mailboxes. -/
theorem Tables.withMail (h : s.Tables L R) (mail : MailState) :
    (s.withMail mail).Tables L R ∧ Keeps s (s.withMail mail) :=
  h.same _ rfl rfl rfl rfl rfl rfl

/-! ## Mailboxes -/

/-- A command of the kernel that registers a handler is recorded. -/
theorem mem_recordMail {proc : Option Pcb} {cfg : MailboxCtrlConfig} (htrust : trusted proc)
    (hreg : MailboxCtrlCmd.decode cfg.cmd = some .registerHandler)
    (hret : (mailboxSyscallIsr proc s.mail cfg).1.ret = 0) :
    cfg.handler ∈ IrqOp.recordMail s (.syscall proc cfg) := by
  unfold IrqOp.recordMail
  dsimp only
  rw [if_pos ⟨htrust, hreg, hret⟩]
  exact List.mem_singleton_self _

theorem admitted_of_trusted {proc : Option Pcb} (cfg : MailboxCtrlConfig) (h : trusted proc) :
    Admitted proc cfg := by
  cases proc with
  | none => trivial
  | some p => exact Or.inl (of_decide_eq_true h)

/-- After a step of mailboxes, whoever is called has been registered. -/
theorem Calls.mail (h : s.Calls R) {op : MailOp} (hplain : op.Plain)
    (hrec : ∀ f ∈ IrqOp.recordMail s op, R f) : (s.withMail (op.exec s.mail)).Calls R := by
  by_cases hreg : ∃ proc cfg, op = .syscall proc cfg ∧ trusted proc ∧
      MailboxCtrlCmd.decode cfg.cmd = some .registerHandler
  · obtain ⟨proc, cfg, rfl, htrust, hdec⟩ := hreg
    have hisr : mailboxSyscallIsr proc s.mail cfg = mailboxExec s.mail cfg := by
      rcases mailboxSyscallIsr_cases proc s.mail cfg with ⟨-, heq⟩ | ⟨hno, -⟩
      · exact heq
      · exact absurd (admitted_of_trusted cfg htrust) hno
    have hexec : mailboxExec s.mail cfg =
        (cfg.withRet (s.mail.registerHandler cfg.mb cfg.handler).1,
          (s.mail.registerHandler cfg.mb cfg.handler).2) := by
      unfold mailboxExec
      rw [hdec]
    unfold MailOp.exec
    dsimp only
    rw [hisr, hexec]
    rcases s.mail.registerHandler_cases cfg.mb cfg.handler with ⟨-, ht⟩ | ⟨-, hret, hinv, hadd⟩
    · exact h.tame ht
    · have hret' : (mailboxSyscallIsr proc s.mail cfg).1.ret = 0 := by
        rw [hisr, hexec]
        exact hret
      have hR : R cfg.handler := hrec _ (mem_recordMail htrust hdec hret')
      refine ⟨fun mb a ha => ?_, fun f hf => h.called f (hinv ▸ hf), h.invoked, h.faulted⟩
      rcases hadd mb a ha with ha | heq
      · exact h.handlers mb a ha
      · rw [heq]
        exact hR
  · by_cases huser : ∃ p cfg, op = .syscall (some p) cfg ∧ p.priv ≠ .kernel
    · obtain ⟨p, cfg, rfl, hp⟩ := huser
      exact h.tame (s.mail.mailboxSyscallIsr_tame p hp cfg)
    · refine h.tame (MailOp.exec_tame s.mail hplain fun proc cfg heq _ hdec => ?_)
      refine hreg ⟨proc, cfg, heq, ?_, hdec⟩
      cases proc with
      | none => rfl
      | some p =>
        have hp : p.priv = .kernel := by grind
        exact decide_eq_true hp

/-! ## Interrupts -/

/-- One request of a line that fires. -/
theorem Safe.handleIrq (h : s.Safe) {p : Nat} (hp : s.Listed p) :
    (s.handleIrq p).Safe ∧ (s.handleIrq p).lines = s.lines := by
  unfold IrqState.handleIrq
  split_ifs with hen huser
  · exact ⟨h, rfl⟩
  · unfold IrqState.dispatchUserModeIrq
    dsimp only
    split_ifs with hz
    · exact ⟨h, rfl⟩
    · -- the owner is a live thread
      obtain ⟨j, line, hl, hmem⟩ := hp
      obtain ⟨-, t, ht, htcb⟩ := (h.tables.requests j line hl p hmem).1.owner hz
      split
      · rename_i t' _
        have hsame := s.mail.dispatchUserModeIrq_threads t' (signedOf (Irq.tid s.mem p))
        refine ⟨⟨?_, ?_, h.calls.tame (s.mail.dispatchUserModeIrq_tame t' _)⟩, rfl⟩
        · change (s.mail.dispatchUserModeIrq t' _).sched.order.Nodup
          rw [hsame.order]
          exact h.order
        · change (s.withMail _).Tables (s.mail.dispatchUserModeIrq t' _).sched.order _
          rw [hsame.order]
          exact (h.tables.withMail _).1
      · grind
  · obtain ⟨j, line, hl, hmem⟩ := hp
    have hR := (h.tables.requests j line hl p hmem).2.resolve_left huser
    have htab := h.tables.same { s with invoked := Irq.handler s.mem p :: s.invoked }
      rfl rfl rfl rfl rfl rfl
    refine ⟨⟨h.order, htab.1, h.calls.handlers, h.calls.called, fun f hf => ?_, h.calls.faulted⟩,
      rfl⟩
    exact (List.mem_cons.mp hf).elim (fun heq => heq ▸ hR) (h.calls.invoked f)

theorem Safe.foldl_handleIrq {ps : List Nat} (h : s.Safe) (hps : ∀ p ∈ ps, s.Listed p) :
    (ps.foldl IrqState.handleIrq s).Safe := by
  induction ps generalizing s with
  | nil => exact h
  | cons p ps ih =>
    obtain ⟨hsafe, hlines⟩ := h.handleIrq (hps p List.mem_cons_self)
    refine ih hsafe fun q hq => ?_
    unfold Listed
    rw [hlines]
    exact hps q (List.mem_cons_of_mem _ hq)

theorem Safe.irqlineHandler (h : s.Safe) (major : Nat) : (s.irqlineHandler major).Safe := by
  unfold IrqState.irqlineHandler
  split
  · exact h
  · rename_i line hl
    exact h.foldl_handleIrq fun p hp => ⟨major, line, hl, hp⟩

/-! ## The gate -/

/-- The thread that a request on behalf of a process belongs to, or 0. -/
def callerTcb (s : IrqState) (proc : Option Pcb) : Nat :=
  s.ownerOf (if trusted proc then 0 else 1) (if trusted proc then 0 else s.threadGetTid)

/-- A command of the gate, with the functions that are registered by then. -/
theorem Safe.irqSyscallIsr (h : s.Safe) (proc : Option Pcb) (cfg : IrqCtrlConfig)
    (hcfg : IrqOp.UsesHandle cfg → cfg.handle = 0 ∨ s.Listed cfg.handle) :
    let s' := (irqSyscallIsr proc s cfg).2
    s'.Tables s.mail.sched.order (· ∈ IrqOp.recordIrq proc s cfg ++ s.registered) ∧ Core s s' ∧
      Joins (if trusted proc then 0 else 1) (s.callerTcb proc) s s' := by
  have hmono {l : List Nat} (f : Nat) (hf : f ∈ s.registered) : f ∈ l ++ s.registered :=
    List.mem_append_right _ hf
  have hsame {l : List Nat} {u o : Nat} : s.Tables s.mail.sched.order (· ∈ l ++ s.registered) ∧
      Core s s ∧ Joins u o s s := ⟨h.tables.mono hmono, .refl s, (Keeps.refl s).joins u o⟩
  -- 0 is the address of nothing, and every command leaves it alone
  have hhandle (s' : IrqState) (hz : cfg.handle = 0 → s' = s)
      (hl : s.Listed cfg.handle → s'.Tables s.mail.sched.order (· ∈ s.registered) ∧ Keeps s s' ∧
        Core s s') (hcmd : cfg.handle = 0 ∨ s.Listed cfg.handle) {l : List Nat} {u o : Nat} :
      s'.Tables s.mail.sched.order (· ∈ l ++ s.registered) ∧ Core s s' ∧ Joins u o s s' := by
    rcases hcmd with hz' | hl'
    · rw [hz hz']
      exact hsame
    · obtain ⟨h₁, h₂, h₃⟩ := hl hl'
      exact ⟨h₁.mono hmono, h₃, h₂.joins u o⟩
  by_cases hgate : cfg.cmd = 0 ∧ ¬irqPermitted proc cfg.major
  · have hisr : Kernel.irqSyscallIsr proc s cfg = ({ cfg with ret := ePerm }, s) := if_pos hgate
    rw [hisr]
    exact hsame
  have hisr : Kernel.irqSyscallIsr proc s cfg = irqExec proc s cfg := if_neg hgate
  rw [hisr]
  cases hdec : IrqSyscallCmd.decode cfg.cmd with
  | none =>
    unfold irqExec
    rw [hdec]
    exact hsame
  | some cmd =>
    cases cmd with
    | request =>
      set u := if trusted proc then 0 else 1 with hu
      set tid := if trusted proc then 0 else s.threadGetTid with htid
      have hexec : irqExec proc s cfg = ({ cfg with
            isUserIrq := u
            tid
            handle := (s.irqRequestInternal proc cfg.handle cfg.name cfg.major cfg.minor
              cfg.handler cfg.param u tid).2.1
            ret := (s.irqRequestInternal proc cfg.handle cfg.name cfg.major cfg.minor cfg.handler
              cfg.param u tid).1 },
          (s.irqRequestInternal proc cfg.handle cfg.name cfg.major cfg.minor cfg.handler
            cfg.param u tid).2.2) := by
        unfold irqExec
        simp only [hdec, u, tid]
      have hu01 : u = 0 ∨ u = 1 := by grind
      obtain ⟨h₁, h₂, h₃⟩ := h.tables.request proc cfg.handle cfg.name cfg.major cfg.minor
        cfg.handler cfg.param hu01 tid fun t ht => List.mem_of_find?_eq_some ht
      rw [hexec]
      refine ⟨h₁.mono fun f hf => ?_, h₂, h₃⟩
      rcases hf with hf | ⟨hret, hzero, rfl⟩
      · exact hmono f hf
      · grind [IrqOp.recordIrq]
    | release =>
      have hexec : (irqExec proc s cfg).2 = s.irqReleaseInternal cfg.handle := by
        unfold irqExec
        rw [hdec]
      rw [hexec]
      refine hhandle _ (fun hz => if_pos (Or.inl hz)) (fun hl => ?_)
        (hcfg ⟨by rw [hdec]; decide, by rw [hdec]; exact Option.some_ne_none _⟩)
      obtain ⟨h₁, h₂, h₃, -⟩ := h.tables.release hl
      exact ⟨h₁, h₂, h₃⟩
    | mask =>
      have hexec : (irqExec proc s cfg).2 = (s.irqMaskInternal cfg.handle).2 := by
        unfold irqExec
        rw [hdec]
      rw [hexec]
      refine hhandle _ (fun hz => congrArg Prod.snd (if_pos (Or.inl hz))) (fun hl => ?_)
        (hcfg ⟨by rw [hdec]; decide, by rw [hdec]; exact Option.some_ne_none _⟩)
      exact h.tables.irqMaskInternal (Or.inr hl)
    | unmask =>
      have hexec : (irqExec proc s cfg).2 = (s.irqUnmaskInternal cfg.handle).2 := by
        unfold irqExec
        rw [hdec]
      rw [hexec]
      refine hhandle _ (fun hz => congrArg Prod.snd (if_pos (Or.inl hz))) (fun hl => ?_)
        (hcfg ⟨by rw [hdec]; decide, by rw [hdec]; exact Option.some_ne_none _⟩)
      exact h.tables.irqUnmaskInternal (Or.inr hl)

/-! ## Threads -/

/-- A thread comes, at an address that no other has. -/
theorem Tables.addThread (h : s.Tables L R) {tid tcb : Nat} (htid : tid ∉ L) (hz : tcb ≠ 0)
    (h32 : tcb < 2 ^ 32) (hne : ∀ t ∈ L, s.tcb t ≠ tcb) (hs : s' = { s with
      mail := s'.mail
      tcb := Function.update s.tcb tid tcb
      threadIrqs := Function.update s.threadIrqs tcb [] }) :
    s'.Tables (tid :: L) R := by
  have hkheap : s'.kheap = s.kheap := by rw [hs]
  have hmem : s'.mem = s.mem := by rw [hs]
  have hlines : s'.lines = s.lines := by rw [hs]
  have hsp : s'.spinlocks = s.spinlocks := by rw [hs]
  have hself : s'.tcb tid = tcb := by
    rw [hs]
    exact Function.update_self _ _ _
  have hothers {t : Nat} (ht : t ∈ L) : s'.tcb t = s.tcb t := by
    have hne' : t ≠ tid := fun heq => htid (heq ▸ ht)
    rw [hs]
    exact Function.update_of_ne hne' _ _
  have hnil : s'.threadIrqs tcb = [] := by
    rw [hs]
    exact Function.update_self _ _ _
  have hth {o : Nat} (ho : o ≠ tcb) : s'.threadIrqs o = s.threadIrqs o := by
    rw [hs]
    exact Function.update_of_ne ho _ _
  refine ⟨hkheap ▸ h.heap, hkheap ▸ h.below, hsp ▸ h.table, hlines ▸ h.lines,
    fun j line hl p hp => ?_, fun t ht => ?_, fun t ht => ?_⟩
  · rw [hlines] at hl
    obtain ⟨hr, hk⟩ := h.requests j line hl p hp
    rw [hmem]
    refine ⟨⟨hkheap ▸ hr.block, hmem ▸ hr.major, ?_, fun ho => ?_⟩, hk⟩
    · rw [hmem, hsp]
      exact hr.lock
    · rw [hmem] at ho ⊢
      obtain ⟨hin, t, ht, htcb⟩ := hr.owner ho
      rw [hth (htcb ▸ hne t ht)]
      exact ⟨hin, t, List.mem_cons_of_mem _ ht, (hothers ht).trans htcb⟩
  · grind [h.tcbs]
  · rcases List.mem_cons.mp ht with rfl | ht
    · grind
    · rw [hothers ht, hth (hne t ht), hmem]
      unfold Listed
      rw [hlines]
      exact h.owned t ht

/-- Threads go that have no requests. -/
theorem Tables.restrict (h : s.Tables L R) {L' : List Nat} (hL : ∀ t ∈ L', t ∈ L)
    (howners : ∀ p, s.Listed p → ∀ t ∈ L, s.tcb t = Irq.owner s.mem p → t ∈ L') :
    s.Tables L' R := by
  refine ⟨h.heap, h.below, h.table, h.lines, fun j line hl p hp => ?_, fun t ht => ?_,
    fun t ht => h.owned t (hL t ht)⟩
  · obtain ⟨hr, hk⟩ := h.requests j line hl p hp
    refine ⟨⟨hr.block, hr.major, hr.lock, fun ho => ?_⟩, hk⟩
    obtain ⟨hin, t, ht, htcb⟩ := hr.owner ho
    exact ⟨hin, t, howners p ⟨j, line, hl, hp⟩ t ht htcb, htcb⟩
  · grind [h.tcbs]

theorem threadCreate_order (s : MailState) (pid tid : Nat) :
    (s.threadCreate pid tid).sched.order = tid :: s.sched.order :=
  congrArg (tid :: ·) (s.allocMailbox_threads pid tid).order

theorem Safe.threadCreate (h : s.Safe) {pid tid tcb : Nat} (htid : tid ∉ s.mail.sched.order)
    (hz : tcb ≠ 0) (h32 : tcb < 2 ^ 32) (hne : ∀ t ∈ s.mail.sched.order, s.tcb t ≠ tcb) :
    (s.threadCreate pid tid tcb).Safe := by
  have horder := threadCreate_order s.mail pid tid
  refine ⟨?_, ?_, ?_⟩
  · change (s.mail.threadCreate pid tid).sched.order.Nodup
    rw [horder]
    exact List.nodup_cons.mpr ⟨htid, h.order⟩
  · change (s.threadCreate pid tid tcb).Tables (s.mail.threadCreate pid tid).sched.order _
    rw [horder]
    exact h.tables.addThread htid hz h32 hne rfl
  · have hcalls := h.calls.tame (s.mail.threadCreate_tame pid tid)
    exact ⟨hcalls.handlers, hcalls.called, hcalls.invoked, hcalls.faulted⟩

/-- The threads after one has gone, or nothing has happened. -/
theorem threadDelete_order (s : MailState) (hnodup : s.sched.order.Nodup) (tid : Nat) :
    tid ∈ s.sched.order ∧ tid ∉ (s.threadDelete tid).sched.order ∧
        (s.threadDelete tid).sched.order = s.sched.order.erase tid ∨
      ¬(tid ∈ s.sched.order ∧ tid ∉ (s.threadDelete tid).sched.order) ∧
        (s.threadDelete tid).sched.order = s.sched.order := by
  rcases s.threadDelete_cases tid with ⟨-, heq⟩ | ⟨hd, sched, horder, -, heq⟩
  · rw [heq]
    exact Or.inr ⟨fun hn => hn.2 hn.1, rfl⟩
  · have hrel : (s.threadDelete tid).sched.order = s.sched.order.erase tid := by
      rw [heq, ← horder]
      exact (MailState.releaseMailbox_threads _ _).order
    refine Or.inl ⟨hd.2.1, ?_, hrel⟩
    rw [hrel]
    exact hnodup.not_mem_erase

theorem Safe.threadDelete (h : s.Safe) (tid : Nat) : (s.threadDelete tid).Safe := by
  have htame := s.mail.threadDelete_tame tid
  unfold IrqState.threadDelete
  rcases threadDelete_order s.mail h.order tid with ⟨hin, hout, horder⟩ | ⟨hno, horder⟩
  · rw [if_pos ⟨hin, hout⟩]
    obtain ⟨hnodup, hmem⟩ := h.tables.owned tid hin
    obtain ⟨htab, hkeeps⟩ := h.tables.withMail (s.mail.threadDelete tid)
    obtain ⟨htab', hkeeps', hcore', hgone⟩ := htab.releaseAll (fun p hp => (hmem p hp).1) hnodup
    set s' := (s.threadIrqs (s.tcb tid)).foldl irqReleaseInternal
      (s.withMail (s.mail.threadDelete tid)) with hs'
    have hsched : s'.mail.sched.order = s.mail.sched.order.erase tid := by
      rw [hcore'.sched]
      exact horder
    have hreg : s'.registered = s.registered := hcore'.registered
    refine ⟨?_, ?_, ?_⟩
    · rw [hsched]
      exact h.order.erase tid
    · rw [hsched, hreg]
      refine htab'.restrict (fun t ht => List.mem_of_mem_erase ht) fun p hp t ht htcb =>
        (List.mem_erase_of_ne ?_).mpr ht
      rintro rfl
      -- a request of the thread would be in its list, and that has been released
      obtain ⟨⟨j, line, hl, hp₀⟩, ha⟩ := hkeeps' p hp
      have howner : Irq.owner s.mem p = s.tcb t := by
        rw [hcore'.tcb] at htcb
        exact ha.owner.symm.trans htcb.symm
      have hz : Irq.owner s.mem p ≠ 0 := howner ▸ (h.tables.tcbs t hin).1
      have hlisted := (h.tables.requests j line hl p hp₀).1.owner hz
      rw [howner] at hlisted
      exact hgone p hp hlisted.1
    · rw [hreg]
      exact (h.calls.tame htame).core hcore'
  · rw [if_neg hno]
    refine ⟨?_, ?_, h.calls.tame htame⟩
    · change (s.mail.threadDelete tid).sched.order.Nodup
      rw [horder]
      exact h.order
    · change (s.withMail _).Tables (s.mail.threadDelete tid).sched.order _
      rw [horder]
      exact (h.tables.withMail _).1

/-! ## Every run -/

/-- A user writes outside of the kernel heap. -/
theorem Tables.store (h : s.Tables L R) {a : Nat} (ha : userHeapBase ≤ a) (v : Nat) :
    (s.store a v).Tables L R ∧ Keeps s (s.store a v) := by
  refine h.congr _ h.heap rfl rfl rfl rfl rfl (fun _ hp => (h.block hp).2) fun p hp => ?_
  have hb := h.bounds hp
  refine .store (Or.inr ?_)
  omega

/-- Every step keeps the invariant, if the gate is given what it has handed out. -/
theorem Safe.exec (h : s.Safe) (hsound : op.Sound s) (hhonest : op.HandedOut s) :
    (op.exec s).Safe := by
  cases op with
  | mail op =>
    have hsame := MailOp.exec_threads s.mail hsound.1
    have hmono (f : Nat) (hf : f ∈ s.registered) : f ∈ IrqOp.recordMail s op ++ s.registered :=
      List.mem_append_right _ hf
    have hcalls := (h.calls.mono hmono).mail hsound.1 fun f hf => List.mem_append_left _ hf
    have htab := (h.tables.mono hmono).same
      { s with mail := op.exec s.mail, registered := IrqOp.recordMail s op ++ s.registered }
      rfl rfl rfl rfl rfl rfl
    refine ⟨?_, ?_, hcalls.handlers, hcalls.called, hcalls.invoked, hcalls.faulted⟩
    · change (op.exec s.mail).sched.order.Nodup
      rw [hsame.order]
      exact h.order
    · change Tables (op.exec s.mail).sched.order _ _
      rw [hsame.order]
      exact htab.1
  | syscall proc cfg =>
    obtain ⟨htab, hcore, -⟩ := h.irqSyscallIsr proc cfg hhonest
    set s' := (Kernel.irqSyscallIsr proc s cfg).2 with hs'
    have hcalls := (h.calls.mono fun f hf =>
      List.mem_append_right (IrqOp.recordIrq proc s cfg) hf).core hcore
    have hreg : IrqOp.recordIrq proc s cfg ++ s'.registered =
        IrqOp.recordIrq proc s cfg ++ s.registered := by rw [hcore.registered]
    have htab' := htab.same
      { s' with registered := IrqOp.recordIrq proc s cfg ++ s'.registered }
      rfl rfl rfl rfl rfl rfl
    refine ⟨?_, ?_, ?_⟩
    · change s'.mail.sched.order.Nodup
      rw [hcore.sched]
      exact h.order
    · change Tables s'.mail.sched.order (· ∈ IrqOp.recordIrq proc s cfg ++ s'.registered) _
      rw [hcore.sched, hreg]
      exact htab'.1
    · change Calls (· ∈ IrqOp.recordIrq proc s cfg ++ s'.registered) _
      rw [hreg]
      exact ⟨hcalls.handlers, hcalls.called, hcalls.invoked, hcalls.faulted⟩
  | interrupt major => exact h.irqlineHandler major
  | store a v =>
    exact ⟨h.order, (h.tables.store hsound v).1, h.calls.handlers, h.calls.called, h.calls.invoked,
      h.calls.faulted⟩
  | threadCreate pid tid tcb =>
    obtain ⟨h₁, h₂, h₃, h₄⟩ := hsound
    exact h.threadCreate h₁ h₂ h₃ h₄
  | threadDelete tid => exact h.threadDelete tid

/-- A step of a user registers nothing that runs in the kernel. -/
theorem Safe.byUser (h : s.Safe) (hop : honestSystem.enabled s op) (huser : op.ByUser) :
    (∀ mb, ((op.exec s).mail.box mb).handlers ⊆ (s.mail.box mb).handlers) ∧
      ∀ p, (op.exec s).Listed p → Irq.isUserIrq (op.exec s).mem p = 0 →
        s.Listed p ∧ Irq.isUserIrq s.mem p = 0 := by
  obtain ⟨hsound, hhonest⟩ := hop
  cases op with
  | mail op =>
    refine ⟨?_, fun p hp hz => ⟨hp, hz⟩⟩
    cases op with
    | syscall proc cfg =>
      cases proc with
      | none => exact absurd rfl huser
      | some p =>
        have hp : p.priv ≠ .kernel := fun heq => huser (decide_eq_true heq)
        exact (s.mail.mailboxSyscallIsr_tame p hp cfg).handlers
    | store m v => exact fun mb => List.Subset.refl _
    | _ => exact huser.elim
  | syscall proc cfg =>
    obtain ⟨-, hcore, hjoins⟩ := h.irqSyscallIsr proc cfg hhonest
    have hadds := hjoins.adds
    rw [if_neg huser] at hadds
    refine ⟨fun mb => ?_, fun p hp hz => ?_⟩
    · change ((Kernel.irqSyscallIsr proc s cfg).2.mail.box mb).handlers ⊆ _
      rw [hcore.box]
      exact List.Subset.refl _
    · rcases hadds p hp with ⟨hl, ha⟩ | hone
      · exact ⟨hl, ha.isUserIrq.symm.trans hz⟩
      · exact absurd (hone.symm.trans hz) Nat.one_ne_zero
  | interrupt major => exact huser.elim
  | store a v =>
    refine ⟨fun mb => List.Subset.refl _, fun p hp hz => ?_⟩
    obtain ⟨hl, ha⟩ := (h.tables.store hsound v).2 p hp
    exact ⟨hl, ha.isUserIrq.symm.trans hz⟩
  | threadCreate pid tid tcb => exact huser.elim
  | threadDelete tid => exact huser.elim

end IrqState

/-! ## A thread of a user -/

/-- One thread with a mailbox, and nothing requested. -/
def quietState : IrqState where
  mail := aloneState
  mem := fun _ => 0
  kheap := ⟨fun n => 0x100000 + 64 * n, 0, 0x100000, 0x200000, []⟩
  spinlocks := 0x9000
  tcb := fun t => 0x300000 + 256 * t
  lines := fun _ => none
  threadIrqs := fun _ => []
  masked := fun _ => true
  invoked := []
  registered := []
  faulted := false

theorem quietState_start : quietState.Start where
  heap := ⟨fun _ h => (nomatch h), List.Pairwise.nil⟩
  below := by decide
  table := by decide
  order := List.nodup_singleton _
  tcbs t ht := by
    rw [List.mem_singleton.mp ht]
    refine ⟨by decide, by decide, fun t' ht' _ => ?_⟩
    exact (List.mem_singleton.mp ht').symm
  lines := rfl
  threadIrqs _ _ := rfl
  handlers _ := rfl
  called := rfl
  invoked := rfl
  faulted := rfl

/-- A command of the kernel about line 0x20. -/
def kernelIrq (cmd handle : Nat) : IrqOp :=
  .syscall none ⟨cmd, handle, 0, 0x20, 0, 0x1000, 0, 0, 0, 0⟩

/-- A command about line 0x21 of a user that owns it. -/
def userIrq (cmd handle : Nat) : IrqOp :=
  .syscall (some (Pcb.bare .user [⟨1, .ownIrq 0x21⟩])) ⟨cmd, handle, 0, 0x21, 0, 0x2000, 0, 0, 0, 0⟩

/-- The kernel and the user request a line each, and both lines fire. -/
def twoLines : List IrqOp :=
  [kernelIrq 0 0, kernelIrq 3 0x100000, userIrq 0 0, userIrq 3 0x100080, .interrupt 0x20,
    .interrupt 0x21]

/-- In every run in which everybody hands in what has been handed out, the functions that mailboxes
and interrupts have called were registered by the kernel, no interrupt has gone to a thread that is
gone, and no step of a user adds a handler to a mailbox or an interrupt of the kernel to a line. -/
theorem registered_functions_only (s : IrqState) (ops : List IrqOp) (hs : s.Start)
    (hops : honestSystem.Legal s ops) :
    let y := honestSystem.run s ops
    (∀ f ∈ y.mail.history.invoked, f ∈ y.registered) ∧ (∀ f ∈ y.invoked, f ∈ y.registered) ∧
      y.faulted = false ∧ ∀ op, honestSystem.enabled y op → op.ByUser →
        (∀ mb, ((op.exec y).mail.box mb).handlers ⊆ (y.mail.box mb).handlers) ∧
          ∀ p, (op.exec y).Listed p → Irq.isUserIrq (op.exec y).mem p = 0 →
            y.Listed p ∧ Irq.isUserIrq y.mem p = 0 := by
  intro y
  have h : y.Safe := honestSystem.run_invariant
    (fun _ _ h hop => h.exec hop.1 hop.2.handedOut) hs.safe hops
  exact ⟨h.calls.called, h.calls.invoked, h.calls.faulted, fun op hop huser => h.byUser hop huser⟩

theorem registered_functions_only_twoLines :
    let y := honestSystem.run quietState twoLines
    y.invoked = [0x1000] ∧ (∀ f ∈ y.mail.history.invoked, f ∈ y.registered) ∧
      (∀ f ∈ y.invoked, f ∈ y.registered) ∧ y.faulted = false ∧
      ∀ op, honestSystem.enabled y op → op.ByUser →
        (∀ mb, ((op.exec y).mail.box mb).handlers ⊆ (y.mail.box mb).handlers) ∧
          ∀ p, (op.exec y).Listed p → Irq.isUserIrq (op.exec y).mem p = 0 →
            y.Listed p ∧ Irq.isUserIrq y.mem p = 0 := by
  have hkernel : (honestSystem.exec quietState (kernelIrq 0 0)).Listed 0x100000 :=
    ⟨0x20, ⟨0x100040, 0x9004, [0x100000]⟩, rfl, List.mem_cons_self⟩
  refine ⟨by decide +kernel, registered_functions_only quietState twoLines quietState_start
    ⟨⟨fun _ h => absurd rfl h.1, fun h => absurd rfl h.1⟩,
      ⟨fun _ _ => Or.inr hkernel, fun _ => Or.inr hkernel⟩,
      ⟨fun _ h => absurd rfl h.1, fun h => absurd rfl h.1⟩,
      ⟨fun h => (nomatch h), fun _ => Or.inr ⟨0x21, ⟨0x1000c0, 0x900c, [0x100080]⟩, ?_, ?_⟩⟩,
      ⟨trivial, trivial⟩, ⟨trivial, trivial⟩, trivial⟩⟩
  · rfl
  · exact List.mem_cons_self

/-- A user requests a line and has it unmasked, writes the address of the flag of its request to
where the lock of a request would lie, and releases what it has written: when the line fires, its
function runs in the kernel, which has registered nothing. -/
theorem irq_release_forged :
    let ops := [userIrq 0 0, userIrq 3 0x100000, .store 0xD0000120 0x100014, userIrq 1 0xD0000100,
      .interrupt 0x21]
    quietState.Start ∧ irqSystem.Legal quietState ops ∧
      (irqSystem.run quietState ops).invoked = [0x2000] ∧
      (irqSystem.run quietState ops).registered = [] := by
  have huser : userHeapBase ≤ 0xD0000120 := by decide
  refine ⟨quietState_start, ⟨fun h => (nomatch h), fun h => (nomatch h), huser,
    fun h => (nomatch h), trivial, trivial⟩, ?_, ?_⟩
  · decide +kernel
  · decide +kernel

end Ukernel.Kernel
