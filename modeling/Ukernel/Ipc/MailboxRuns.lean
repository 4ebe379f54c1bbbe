import Ukernel.Ipc.MailboxSystem

/-!
# Mails over whole runs

A mail that has been allocated is in the hands of a thread or in a queue, until it leaves the
registry. Every step is described once, by what it does to the set of mails, by which of them leave
and by the one mail that the running thread parts with or obtains; the three results about whole
runs follow from that.

## The kernel does not protect its queues

A sender keeps the address of what it has sent, and the gate does not look at who names a mail. A
second send of a queued mail, or its release, breaks the queue. The results are therefore about runs
in which nobody does that, either because mails that are queued are left alone, or because threads
only part with what they hold.

## Main definitions

* `MailOp.event`: the mail that the running thread parts with or obtains
* `MailOp.Leaves`: the mails that a step takes out of the registry
* `Stepped`: what a step does to the mails
* `Traced`: a state with the holder of every mail

## Main results

* `MailOp.exec_spec`: every step
* `mailbox_queues_wellFormed`, `mailbox_delivery_fifo`, `mail_lifetime`
-/

namespace Ukernel.Ipc

open Kernel Lib Machine Mm Sync

/-- What a step means for the running thread. -/
inductive MailEvent where
  | none
  /-- It sends or releases a mail. -/
  | parted (m : Nat)
  /-- It gets a mail. -/
  | obtained (m : Nat)
  deriving DecidableEq

/-- The mail that the running thread parts with or obtains. -/
def MailOp.event (s : MailState) : MailOp → MailEvent
  | .syscall proc cfg =>
    if Admitted proc cfg then
      let m := (mailboxSyscallIsr proc s cfg).1.m
      match MailboxCtrlCmd.decode cfg.cmd with
      | some .send => .parted cfg.m
      | some .releaseMail => .parted cfg.m
      | some .listen => if m ≠ 0 then .obtained m else .none
      | some .allocMail => if m ≠ 0 then .obtained m else .none
      | _ => .none
    else .none
  | _ => .none

namespace MailState

/-- A mail is in the queue of a mailbox. -/
def QueuedIn (s : MailState) (mb m : Nat) : Prop :=
  ∃ ns, LinkRing s.links mb ns ∧ m ∈ ns.map s.payload

end MailState

/-- The mails that a command takes out of the registry: a mail that is released, a mail whose send
does not end in a queue, and the mails in the queue of a mailbox that is released. -/
def LeavesBy (s : MailState) (cfg : MailboxCtrlConfig) (m : Nat) : Option MailboxCtrlCmd → Prop
  | some .releaseMail => cfg.m = m
  | some .send => cfg.m = m ∧ s.Consumes m
  | some .release => cfg.mb ≠ 0 ∧ s.QueuedIn cfg.mb m
  | _ => False

/-- The mails that a step takes out of the registry. -/
def MailOp.Leaves (s : MailState) : MailOp → Nat → Prop
  | .syscall proc cfg, m => Admitted proc cfg ∧ LeavesBy s cfg m (MailboxCtrlCmd.decode cfg.cmd)
  | .threadDelete tid, m => s.Deletes tid ∧ (s.sched.thread tid).mailbox ≠ 0 ∧
    s.QueuedIn (s.sched.thread tid).mailbox m
  | _, _ => False

open MailState

/-- What a step does to the mails: those that leave, those that come, and those in the hands of
threads, which are the ones in no queue. -/
structure Stepped (s : MailState) (q : Nat → List Nat) (s' : MailState) (q' : Nat → List Nat)
    (e : MailEvent) (leaves : Nat → Prop) : Prop where
  inv : s'.Inv q'
  kept : ∀ b ∈ s.registry, b ∈ s'.registry → s'.payload b = s.payload b
  gone : ∀ b ∈ s.registry, b ∉ s'.registry ↔ leaves (s.payload b)
  fresh : ∀ b ∈ s'.registry, b ∉ s.registry → s'.payload b ∉ s.uheap.live
  held : ∀ b ∈ s'.registry, s'.Unqueued q' b ↔ e = .obtained (s'.payload b) ∨
    b ∈ s.registry ∧ s.Unqueued q b ∧ e ≠ .parted (s'.payload b)
  left : ∀ b ∈ s.registry, b ∉ s'.registry → s.Unqueued q b → e = .parted (s.payload b)
  obtained : ∀ m, e = .obtained m → s'.Inflight m

variable {s s' : MailState} {q q' : Nat → List Nat} {m a mb : Nat} {A : Nat → Prop}
  {e : MailEvent} {leaves : Nat → Prop} {op : MailOp}

namespace Stepped

/-- The running thread neither parts with a mail nor obtains one; queued mails may leave. -/
theorem quiet (h : Flow A s q s' q') (hobt : ∀ m, e ≠ .obtained m)
    (hpart : ∀ b ∈ s.registry, e ≠ .parted (s.payload b))
    (hA : ∀ b, A b → b ∈ s.registry ∧ ¬s.Unqueued q b ∧ b ∉ s'.registry)
    (hl : ∀ b ∈ s.registry, A b ↔ leaves (s.payload b)) : Stepped s q s' q' e leaves where
  inv := h.inv
  kept b hb hb' := (h.others b hb fun hAb => (hA b hAb).2.2 hb').2.1
  gone b hb := by
    rw [← hl b hb]
    exact ⟨fun hn => by_contra fun hAb => hn (h.others b hb hAb).1, fun hAb => (hA b hAb).2.2⟩
  fresh b hb hn := (h.fresh b hb hn).1
  held b hb' := by
    have hAb : ¬A b := fun hAb => (hA b hAb).2.2 hb'
    by_cases hb : b ∈ s.registry
    · grind [h.others]
    · refine iff_of_false ((h.fresh b hb' hb).2.resolve_left hAb) ?_
      rintro (heq | ⟨hin, -⟩)
      · exact hobt _ heq
      · exact hb hin
  left b hb hn hun := by
    have hAb : A b := by_contra fun hAb => hn (h.others b hb hAb).1
    exact absurd hun (hA b hAb).2.1
  obtained m heq := absurd heq (hobt m)

/-- Nothing happens to any mail but that new ones may be queued. -/
theorem of_flow (h : Flow (fun _ => False) s q s' q') (hl : ∀ m, ¬leaves m) :
    Stepped s q s' q' .none leaves :=
  quiet h (fun _ heq => nomatch heq) (fun _ _ heq => nomatch heq) (fun _ hb => hb.elim)
    fun _ _ => iff_of_false not_false (hl _)

/-- The running thread parts with a mail it has: the mail leaves, or is queued. -/
theorem parted (h : Flow (· = a) s q s' q') (hb : s.Blocks) (ha : a ∈ s.registry)
    (hcase : a ∉ s'.registry ∧ leaves (s.payload a) ∨
      a ∈ s'.registry ∧ s'.payload a = s.payload a ∧ ¬s'.Unqueued q' a ∧ ¬leaves (s.payload a))
    (hl : ∀ b ∈ s.registry, b ≠ a → ¬leaves (s.payload b)) :
    Stepped s q s' q' (.parted (s.payload a)) leaves where
  inv := h.inv
  kept b hbm hb' := by
    by_cases hba : b = a
    · grind
    · exact (h.others b hbm hba).2.1
  gone b hbm := by
    by_cases hba : b = a
    · grind
    · exact iff_of_false (not_not.mpr (h.others b hbm hba).1) (hl b hbm hba)
  fresh b hb' hn := (h.fresh b hb' hn).1
  held b hb' := by
    by_cases hba : b = a
    · grind
    · by_cases hbm : b ∈ s.registry
      · grind [h.others, hb.inj]
      · refine iff_of_false ((h.fresh b hb' hbm).2.resolve_left hba) ?_
        rintro (heq | ⟨hin, -⟩)
        · exact nomatch heq
        · exact hbm hin
  left b hbm hn _ := by
    by_cases hba : b = a
    · rw [hba]
    · exact absurd (h.others b hbm hba).1 hn
  obtained m heq := nomatch heq

/-- The running thread obtains a mail, from a queue or a new one. -/
theorem obtain (h : Flow (· = a) s q s' q') (ha' : a ∈ s'.registry) (hun : s'.Unqueued q' a)
    (hin : a ∈ s.registry → s'.payload a = s.payload a) (hnew : a ∉ s.registry →
      s'.payload a ∉ s.uheap.live) (hl : ∀ m, ¬leaves m) :
    Stepped s q s' q' (.obtained (s'.payload a)) leaves where
  inv := h.inv
  kept b hbm hb' := by
    by_cases hba : b = a
    · subst hba
      exact hin hbm
    · exact (h.others b hbm hba).2.1
  gone b hbm := by
    refine iff_of_false (not_not.mpr ?_) (hl _)
    by_cases hba : b = a
    · rw [hba]
      exact ha'
    · exact (h.others b hbm hba).1
  fresh b hb' hn := by
    by_cases hba : b = a
    · subst hba
      exact hnew hn
    · exact (h.fresh b hb' hn).1
  held b hb' := by
    by_cases hba : b = a
    · subst hba
      exact iff_of_true hun (Or.inl rfl)
    · have hne : ¬MailEvent.obtained (s'.payload a) = .obtained (s'.payload b) := fun heq =>
        hba (h.inv.blocks.inj b hb' a ha' (MailEvent.obtained.inj heq).symm)
      by_cases hbm : b ∈ s.registry
      · grind [h.others]
      · refine iff_of_false ((h.fresh b hb' hbm).2.resolve_left hba) ?_
        rintro (heq | ⟨hin, -⟩)
        · exact hne heq
        · exact hbm hin
  left b hbm hn _ := by
    by_cases hba : b = a
    · subst hba
      exact absurd ha' hn
    · exact absurd (h.others b hbm hba).1 hn
  obtained m heq := by
    cases heq
    exact ⟨a, ha', rfl⟩

end Stepped

/-! ## The commands -/

namespace MailState

theorem queuedIn_iff (hi : s.Inv q) (hmb : mb ∈ s.boxes) (ha : a ∈ s.registry) :
    s.QueuedIn mb (s.payload a) ↔ a ∈ q mb := by
  constructor
  · rintro ⟨ns, hring, hmem⟩
    rw [hring.unique (hi.queues.ring mb hmb)] at hmem
    obtain ⟨b, hb, heq⟩ := List.mem_map.mp hmem
    rw [← hi.blocks.inj b (hi.queues.queued mb hmb b hb) a ha heq]
    exact hb
  · exact fun h => ⟨q mb, hi.queues.ring mb hmb, List.mem_map_of_mem h⟩

theorem ownMailbox_live (hb : s.Blocks) (hz : s.ownMailbox ≠ 0) : s.ownMailbox ∈ s.boxes := by
  unfold ownMailbox at hz ⊢
  cases hr : s.sched.run with
  | none => simp [hr] at hz
  | some t => grind [hb.threads]

/-- A mailbox that is not given is one that is live, if there is one. -/
theorem resolve_live (hb : s.Blocks) {cfg : MailboxCtrlConfig}
    (hmb : cfg.mb ≠ 0 → cfg.mb ∈ s.boxes) :
    (resolve s cfg).mb ≠ 0 → (resolve s cfg).mb ∈ s.boxes := by
  unfold resolve
  by_cases hz : cfg.mb = 0
  · rw [if_pos hz]
    exact ownMailbox_live hb
  · rw [if_neg hz]
    exact hmb

theorem listenBlock_spec (hi : s.Inv q) (mb : Nat) : Flow A s q (listenBlock s mb).2 q := by
  unfold listenBlock
  split_ifs
  · exact hi.flow A
  · exact hi.withSched (s.sched.sameThreads_sleepLocked mb)
  · exact hi.flow A

/-- `SEND` of a mail that is in no queue. -/
theorem send_stepped (hi : s.Inv q)
    (hc : ∀ a ∈ s.registry, s.payload a = m → s.Unqueued q a) :
    ∃ q', Stepped s q (s.send m).2 q' (.parted m) fun x => m = x ∧ s.Consumes x := by
  by_cases hm : s.Inflight m
  · obtain ⟨a, ha, rfl⟩ := hm
    have hl : ∀ b ∈ s.registry, b ≠ a → ¬(s.payload a = s.payload b ∧ s.Consumes (s.payload b)) :=
      fun b hb hne h => hne (hi.blocks.inj b hb a ha h.1.symm)
    rcases send_spec hi ha (hc a ha rfl) with ⟨hcons, q', hq'⟩ | ⟨hcons, q', hq'⟩
    · exact ⟨q', .parted (hq'.toMoved.flow hq'.inv) hi.blocks ha
        (Or.inl ⟨hq'.gone, rfl, hcons⟩) hl⟩
    · obtain ⟨x, hx, hmem⟩ := hq'.queued
      refine ⟨q', .parted (hq'.toMoved.flow hq'.inv) hi.blocks ha
        (Or.inr ⟨hq'.mem, hq'.payload, fun hun => ?_, fun h => hcons h.2⟩) hl⟩
      exact hun x (hq'.boxes.symm ▸ hx) hmem
  · have hquiet := send_of_not_inflight hi hm
    refine ⟨q, .quiet (hquiet.toMoved.flow hquiet.inv) (fun _ heq => nomatch heq)
      (fun b hb heq => ?_) (fun _ h => h.elim) fun b hb => iff_of_false not_false fun h => ?_⟩
    · exact hm ⟨b, hb, (MailEvent.parted.inj heq).symm⟩
    · exact hm ⟨b, hb, h.1.symm⟩

/-- `RELEASE_MAIL` of a mail that is in no queue. -/
theorem releaseMail_stepped (hi : s.Inv q)
    (hc : ∀ a ∈ s.registry, s.payload a = m → s.Unqueued q a) :
    ∃ q', Stepped s q (s.releaseMail m) q' (.parted m) fun x => m = x := by
  by_cases hm : s.Inflight m
  · obtain ⟨a, ha, rfl⟩ := hm
    have h := releaseMail_consumed hi ha (hc a ha rfl)
    refine ⟨q, .parted (h.toMoved.flow h.inv) hi.blocks ha (Or.inl ⟨h.gone, rfl⟩) ?_⟩
    exact fun b hb hne heq => hne (hi.blocks.inj b hb a ha heq.symm)
  · rw [releaseMail_of_not_inflight hi.blocks hm]
    refine ⟨q, .quiet (hi.flow fun _ => False) (fun _ heq => nomatch heq)
      (fun b hb heq => ?_) (fun _ h => h.elim) fun b hb => iff_of_false not_false fun h => ?_⟩
    · exact hm ⟨b, hb, (MailEvent.parted.inj heq).symm⟩
    · exact hm ⟨b, hb, h.symm⟩

/-- The event of a mail that is handed out. -/
def handedOut (m : Nat) : MailEvent := if m ≠ 0 then .obtained m else .none

theorem allocMail_stepped (hi : s.Inv q) (hl : ∀ m, ¬leaves m) :
    ∃ q', Stepped s q s.allocMail.2 q' (handedOut s.allocMail.1) leaves := by
  unfold handedOut
  rcases allocMail_spec hi with ⟨hz, hflow⟩ | ⟨a, hflow, hn, ha, hpay, hz, hnew, hun⟩
  · rw [hz, if_neg (not_not.mpr rfl)]
    exact ⟨q, .of_flow hflow hl⟩
  · rw [if_pos hz, ← hpay]
    exact ⟨q, .obtain hflow ha hun (fun h => absurd h hn) (fun _ => hpay ▸ hnew) hl⟩

theorem tryGetMail_stepped (hi : s.Inv q) (hmb : mb ≠ 0 → mb ∈ s.boxes) (hl : ∀ m, ¬leaves m) :
    ∃ q', Stepped s q (s.tryGetMail mb).2 q' (handedOut (s.tryGetMail mb).1) leaves := by
  by_cases hz : mb = 0
  · have heq : s.tryGetMail mb = (0, s) := by
      unfold tryGetMail
      rw [if_pos (Or.inl hz)]
    rw [heq]
    exact ⟨q, .of_flow (hi.flow _) hl⟩
  · rcases tryGetMail_spec hi (hmb hz) with heq | ⟨xs, a, hq, hres, hflow, ha, ha', hpay, hun⟩
    · rw [heq]
      exact ⟨q, .of_flow (hi.flow _) hl⟩
    · have hne : (s.tryGetMail mb).1 ≠ 0 := hres ▸ (hi.blocks.payloads a ha).1
      unfold handedOut
      rw [if_pos hne, hres, ← hpay]
      exact ⟨_, .obtain hflow ha' hun (fun _ => hpay) (fun hn => absurd ha hn) hl⟩

theorem releaseMailbox_stepped (hi : s.Inv q) (hmb : mb ≠ 0 → mb ∈ s.boxes ∧
    ∀ t ∈ s.sched.order, (s.sched.thread t).mailbox ≠ mb) :
    ∃ q', Stepped s q (s.releaseMailbox mb) q' .none fun m => mb ≠ 0 ∧ s.QueuedIn mb m := by
  by_cases hz : mb = 0
  · have heq : s.releaseMailbox mb = s := by
      unfold releaseMailbox
      rw [if_pos hz]
    rw [heq]
    exact ⟨q, .of_flow (hi.flow _) fun m h => h.1 hz⟩
  · obtain ⟨hlive, hfree⟩ := hmb hz
    obtain ⟨q', hflow, hgone⟩ := releaseMailbox_spec hi hlive hfree
    refine ⟨q', .quiet hflow (fun _ heq => nomatch heq) (fun _ _ heq => nomatch heq)
      (fun b hb => ⟨hi.queues.queued mb hlive b hb, fun hun => hun mb hlive hb, hgone b hb⟩)
      fun b hb => ?_⟩
    rw [queuedIn_iff hi hlive hb]
    exact (and_iff_right hz).symm

end MailState

/-- The event of a command that passes the gate. -/
theorem MailOp.event_admitted {proc : Option Pcb} {cfg : MailboxCtrlConfig}
    (h : Admitted proc cfg) (heq : mailboxSyscallIsr proc s cfg = mailboxExec s cfg) :
    (MailOp.syscall proc cfg).event s = match MailboxCtrlCmd.decode cfg.cmd with
      | some .send => .parted cfg.m
      | some .releaseMail => .parted cfg.m
      | some .listen => handedOut (mailboxExec s cfg).1.m
      | some .allocMail => handedOut (mailboxExec s cfg).1.m
      | _ => .none := by
  unfold event
  dsimp only
  rw [if_pos h, heq]
  rfl

/-- Every step, in a state where mails that are queued are left alone. -/
theorem MailOp.exec_spec (hi : s.Inv q) (ho : s.Owned) (hs : op.Sound s)
    (hc : ∀ m, op.event s = .parted m → ∀ a ∈ s.registry, s.payload a = m → s.Unqueued q a) :
    (op.exec s).Owned ∧ ∃ q', Stepped s q (op.exec s) q' (op.event s) (op.Leaves s) := by
  have hsched {sched : Sched} (h : s.sched.SameThreads sched) :
      (s.withSched sched).Owned ∧ ∃ q', Stepped s q (s.withSched sched) q' .none fun _ => False :=
    ⟨ho.congr h, q, .of_flow (hi.withSched h) fun _ => not_false⟩
  cases op with
  | syscall proc cfg =>
    rcases mailboxSyscallIsr_cases proc s cfg with ⟨hadm, heq⟩ | ⟨hadm, heq⟩
    · have hev := event_admitted hadm heq
      have hmb : cfg.mb ≠ 0 → cfg.mb ∈ s.boxes := fun hz => (hs hadm hz).1
      have hres := resolve_live hi.blocks hmb
      unfold exec
      dsimp only
      rw [heq]
      refine ⟨ho.congr (mailboxExec_threads s cfg), ?_⟩
      rw [hev]
      rw [hev] at hc
      have hleaves : Leaves s (.syscall proc cfg) =
          fun m => LeavesBy s cfg m (MailboxCtrlCmd.decode cfg.cmd) :=
        funext fun m => propext (and_iff_right hadm)
      rw [hleaves]
      have hno : Nat → ¬False := fun _ => not_false
      unfold mailboxExec
      cases hdec : MailboxCtrlCmd.decode cfg.cmd with
      | none => exact ⟨q, .of_flow (hi.flow _) hno⟩
      | some c =>
        rw [hdec] at hc
        cases c with
        | send => exact send_stepped hi (hc cfg.m rfl)
        | listen => exact tryGetMail_stepped hi hres hno
        | registerHandler => exact ⟨q, .of_flow (registerHandler_spec hi hmb _) hno⟩
        | unregisterHandler => exact ⟨q, .of_flow (unregisterHandler_spec hi hmb _) hno⟩
        | allocMail => exact allocMail_stepped hi hno
        | releaseMail => exact releaseMail_stepped hi (hc cfg.m rfl)
        | alloc =>
          obtain ⟨q', hq'⟩ := allocMailbox_spec hi cfg.pid cfg.tid
          exact ⟨q', .of_flow hq' hno⟩
        | release =>
          exact releaseMailbox_stepped hi fun hz => ⟨hmb hz, (hs hadm hz).2 hdec⟩
        | subscribeMail => exact ⟨q, .of_flow (subscribe_spec hi hres _) hno⟩
        | unsubscribeMail => exact ⟨q, .of_flow (unsubscribe_spec hi hres _) hno⟩
        | listenBlock => exact ⟨q, .of_flow (listenBlock_spec hi _) hno⟩
    · unfold exec event
      dsimp only
      rw [heq, if_neg hadm]
      exact ⟨ho, q, .of_flow (hi.flow _) fun m h => hadm h.1⟩
  | store m v =>
    exact ⟨ho.congr (Sched.SameThreads.refl _), q, .of_flow (hi.setMail m v) fun _ => not_false⟩
  | irq owner tid =>
    obtain ⟨q', hi', hmoved⟩ := dispatchUserModeIrq_spec hi hs tid
    exact ⟨ho.congr (s.dispatchUserModeIrq_threads owner tid), q',
      .of_flow (hmoved.flow hi') fun _ => not_false⟩
  | timer => exact hsched s.sched.sameWaits_scheduleIfNeeded.sameThreads
  | threadBlock tid => exact hsched (s.sched.sameWaits_threadBlock tid).sameThreads
  | threadUnblock tid => exact hsched (s.sched.sameWaits_threadUnblock tid).sameThreads
  | procBlock pid => exact hsched (s.sched.sameWaits_setStates pid _).sameThreads
  | procUnblock pid => exact hsched (s.sched.sameWaits_setStates pid _).sameThreads
  | threadCreate pid tid =>
    obtain ⟨⟨q', hq'⟩, ho'⟩ := threadCreate_spec hi ho hs pid
    exact ⟨ho', q', .of_flow hq' fun _ => not_false⟩
  | threadDelete tid =>
    by_cases hd : s.Deletes tid
    · obtain ⟨ho', q', hflow, hgone⟩ := threadDelete_spec hi ho hd
      have hlive (hz : (s.sched.thread tid).mailbox ≠ 0) :=
        (hi.blocks.threads tid hd.2.1).resolve_left hz
      refine ⟨ho', q', .quiet hflow (fun _ heq => nomatch heq) (fun _ _ heq => nomatch heq)
        (fun b hb => ⟨hi.queues.queued _ (hlive hb.1) b hb.2, fun hun => hun _ (hlive hb.1) hb.2,
          hgone b hb⟩) fun b hb => ?_⟩
      unfold Leaves
      dsimp only
      rw [and_iff_right hd]
      exact and_congr_right fun hz => (queuedIn_iff hi (hlive hz) hb).symm
    · rcases s.threadDelete_cases tid with ⟨-, heq⟩ | ⟨hd', -⟩
      · unfold exec
        dsimp only
        rw [heq]
        exact ⟨ho, q, .of_flow (hi.flow _) fun m h => hd h.1⟩
      · exact absurd hd' hd

/-! ## Queues that nobody spoils -/

/-- The queues are sound: what is linked in them is in the registry and linked once. -/
def MailState.QueuesOk (s : MailState) : Prop := ∃ q, s.Queues q

/-- All runs. -/
def mailSystem : System MailState MailOp := ⟨MailOp.exec, fun s op => op.Sound s⟩

/-- The runs in which mails that are queued are neither sent nor released. -/
def carefulSystem : System MailState MailOp where
  exec := MailOp.exec
  enabled s op := op.Sound s ∧ ∀ m, op.event s = .parted m → ∀ mb ∈ s.boxes, ¬s.QueuedIn mb m

theorem unqueued_of_not_queuedIn (hi : s.Inv q) (h : ∀ mb ∈ s.boxes, ¬s.QueuedIn mb m) :
    ∀ a ∈ s.registry, s.payload a = m → s.Unqueued q a := by
  rintro a ha rfl mb hmb hmem
  exact h mb hmb ((queuedIn_iff hi hmb ha).mpr hmem)

/-- If nobody sends or releases what is queued, the queues are sound in every state of every run. -/
theorem mailbox_queues_wellFormed {ops : List MailOp} (hs : s.Start)
    (hops : carefulSystem.Legal s ops) : (carefulSystem.run s ops).QueuesOk := by
  have hrun := System.run_invariant (M := carefulSystem) (I := fun s => s.Owned ∧ ∃ q, s.Inv q)
    (fun s op ⟨ho, q, hi⟩ hen => by
      obtain ⟨ho', q', h⟩ := MailOp.exec_spec hi ho hen.1 fun m hm =>
        unqueued_of_not_queuedIn hi (hen.2 m hm)
      exact ⟨ho', q', h.inv⟩) ⟨hs.owned, _, hs.inv⟩ hops
  obtain ⟨-, q, hi⟩ := hrun
  exact ⟨q, hi.queues⟩

/-- One thread of a process that may use mailboxes, with its mailbox. -/
def aloneState : MailState where
  kheap := ⟨fun n => 100 + n, 0, [8]⟩
  uheap := ⟨fun n => 200 + n, 0, []⟩
  locks := fun _ => false
  uniqueId := 0
  registry := []
  metaOf := fun _ => ⟨0, 0, 0, 0⟩
  mail := fun _ => .zero
  links := fun n => ⟨n, n⟩
  box := fun _ => ⟨1, 1, List.replicate 16 0, 0, []⟩
  sched := ⟨[1], fun _ => ⟨1, .ready, false, 8, 0⟩, some 1, fun _ => []⟩
  history := ⟨[8], [], fun _ => [], fun _ => []⟩

theorem aloneState_start : aloneState.Start where
  blocks := by constructor <;> simp [aloneState, MailState.boxes]
  owned := by constructor <;> simp [aloneState]
  registry := rfl
  links := fun _ _ => rfl
  history := fun _ _ => ⟨rfl, rfl⟩

/-- A user command about a mail. -/
def userCommand (cmd m : Nat) : MailOp :=
  .syscall (some (Pcb.bare .user [⟨1, .ipc 1⟩])) ⟨cmd, m, 0, 0, 0, 0, 0, 0⟩

/-- A user addresses a mail. -/
def userAddress (m : Nat) (receiverTid : Int) : MailOp := .store m { Mail.zero with receiverTid }

theorem userCommand_sound (s : MailState) (cmd m : Nat) : (userCommand cmd m).Sound s :=
  fun _ h => absurd rfl h

/-- The thread sends a mail to itself and receives it. -/
def echoOps : List MailOp :=
  [userCommand 4 0, userAddress 200 1, userCommand 0 200, userCommand 1 0]

theorem mailbox_queues_wellFormed_echo : (carefulSystem.run aloneState echoOps).QueuesOk := by
  refine mailbox_queues_wellFormed aloneState_start
    ⟨⟨userCommand_sound _ _ _, fun m h => ?_⟩, ⟨trivial, fun m h => ?_⟩,
      ⟨userCommand_sound _ _ _, fun m _ mb hmb hq => ?_⟩, ⟨userCommand_sound _ _ _, fun m h => ?_⟩,
      trivial⟩
  · have hev : (userCommand 4 0).event aloneState = .obtained 200 := by decide
    exact nomatch hev.symm.trans h
  · exact nomatch h
  · -- before the send the queue of the only mailbox is empty
    set s := carefulSystem.run aloneState [userCommand 4 0, userAddress 200 1] with hs
    obtain ⟨ns, hring, hmem⟩ := hq
    have hbox : s.boxes = [8] := by decide
    have hempty : s.links.Empty 8 := by decide
    have hmb8 : mb = 8 := List.mem_singleton.mp (hbox ▸ hmb)
    subst hmb8
    rw [hring.empty_iff.mp hempty] at hmem
    exact absurd hmem List.not_mem_nil
  · set s := carefulSystem.run aloneState [userCommand 4 0, userAddress 200 1,
      userCommand 0 200] with hs
    have hev : (userCommand 1 0).event s = .obtained 200 := by decide
    exact nomatch hev.symm.trans h

/-- A thread sends a mail to itself and then releases it: the queue still leads to the mail, which
is in the registry no more. -/
theorem mailbox_queues_release_after_send :
    ¬∀ (s : MailState) (ops : List MailOp), s.Start → mailSystem.Legal s ops →
      (mailSystem.run s ops).QueuesOk := by
  intro h
  obtain ⟨q, hq⟩ := h aloneState [userCommand 4 0, userAddress 200 1, userCommand 0 200,
    userCommand 5 200] aloneState_start ⟨userCommand_sound _ _ _, trivial, userCommand_sound _ _ _,
    userCommand_sound _ _ _, trivial⟩
  set s := mailSystem.run aloneState [userCommand 4 0, userAddress 200 1, userCommand 0 200,
    userCommand 5 200] with hs
  have hbox : 8 ∈ s.boxes := by decide
  have hfull : ¬s.links.Empty 8 := by decide
  have hnil : q 8 = [] := List.eq_nil_iff_forall_not_mem.mpr fun a ha => by
    have hmem := hq.queued 8 hbox a ha
    exact absurd hmem List.not_mem_nil
  exact hfull ((hq.ring 8 hbox).empty_iff.mpr hnil)

/-! ## Holders -/

/-- A state with the thread that holds each mail. -/
structure Traced where
  state : MailState
  holder : Nat → Option Nat

namespace Traced

/-- Nobody holds a mail. -/
def start (s : MailState) : Traced := ⟨s, fun _ => none⟩

/-- A step; who obtains a mail holds it, until it parts with it. -/
def step (x : Traced) (op : MailOp) : Traced where
  state := op.exec x.state
  holder := match op.event x.state with
    | .none => x.holder
    | .parted m => Function.update x.holder m none
    | .obtained m => Function.update x.holder m x.state.sched.run

/-- Mails are sent and released by the thread that holds them. -/
def Disciplined (x : Traced) (op : MailOp) : Prop :=
  match op.event x.state with
  | .none => True
  | .parted m => x.state.sched.run ≠ none ∧ x.holder m = x.state.sched.run
  | .obtained _ => x.state.sched.run ≠ none

/-- Who holds a mail, and that it is in no queue then. -/
structure Held (x : Traced) (q : Nat → List Nat) : Prop where
  inv : x.state.Inv q
  owned : x.state.Owned
  held : ∀ a ∈ x.state.registry, x.holder (x.state.payload a) ≠ none ↔ x.state.Unqueued q a
  inflight : ∀ m, x.holder m ≠ none → x.state.Inflight m

/-- Every mail has one reference, and one thread or one queue that holds it. -/
def OneHolder (x : Traced) : Prop :=
  ∀ a ∈ x.state.registry, (x.state.metaOf a).refCount = 1 ∧
    ((∃ t, x.holder (x.state.payload a) = some t) ∧
        (∀ mb ∈ x.state.boxes, ¬x.state.QueuedIn mb (x.state.payload a)) ∨
      x.holder (x.state.payload a) = none ∧
        ∃! mb, mb ∈ x.state.boxes ∧ x.state.QueuedIn mb (x.state.payload a))

end Traced

/-- The runs in which threads part with what they hold, and nothing else. -/
def tracedSystem : System Traced MailOp where
  exec := Traced.step
  enabled x op := op.Sound x.state ∧ x.Disciplined op

namespace Traced

variable {x : Traced}

theorem Held.start (hs : s.Start) : (Traced.start s).Held fun _ => [] where
  inv := hs.inv
  owned := hs.owned
  held a ha := by
    change a ∈ s.registry at ha
    rw [hs.registry] at ha
    exact absurd ha List.not_mem_nil
  inflight m h := absurd rfl h

/-- A disciplined thread does not touch what is queued. -/
theorem Held.unqueued (h : x.Held q) (hd : x.Disciplined op) (hm : op.event x.state = .parted m) :
    ∀ a ∈ x.state.registry, x.state.payload a = m → x.state.Unqueued q a := by
  rintro a ha rfl
  unfold Disciplined at hd
  rw [hm] at hd
  exact (h.held a ha).mp (hd.2 ▸ hd.1)

/-- The holder of a mail that has just come. -/
theorem Held.holder_fresh (h : x.Held q) (hm : m ∉ x.state.uheap.live) : x.holder m = none := by
  by_contra hne
  obtain ⟨a, ha, rfl⟩ := h.inflight m hne
  exact hm (h.inv.blocks.payloads a ha).2

/-- The holders after a step, for the mails that are there. -/
theorem Held.of_stepped (h : x.Held q) (hd : x.Disciplined op) (ho : (op.exec x.state).Owned)
    (hst : Stepped x.state q (op.exec x.state) q' (op.event x.state) leaves) :
    (x.step op).Held q' := by
  -- who held a mail before the step still has it, unless this is the one that goes
  have hstay {m : Nat} (hm : x.holder m ≠ none) (hne : op.event x.state ≠ .parted m) :
      (op.exec x.state).Inflight m := by
    obtain ⟨a, ha, rfl⟩ := h.inflight m hm
    have hin : a ∈ (op.exec x.state).registry := by_contra fun hn =>
      hne (hst.left a ha hn ((h.held a ha).mp hm))
    exact ⟨a, hin, hst.kept a ha hin⟩
  have hold {b : Nat} (hb : b ∈ (op.exec x.state).registry) :
      x.holder ((op.exec x.state).payload b) ≠ none ↔
        b ∈ x.state.registry ∧ x.state.Unqueued q b := by
    grind [hst.kept, h.held, h.holder_fresh, hst.fresh]
  refine ⟨hst.inv, ho, fun b hb => ?_, fun m hm => ?_⟩
  · have hheld := hst.held b hb
    refine Iff.trans ?_ hheld.symm
    have hbase := hold hb
    unfold step
    unfold Disciplined at hd
    cases hev : op.event x.state with
    | none => simpa using hbase
    | parted m => grind
    | obtained m => grind
  · unfold step at hm
    change (op.exec x.state).Inflight m
    cases hev : op.event x.state with
    | none =>
      simp only [hev] at hm
      exact hstay hm (by simp [hev])
    | parted m' =>
      simp only [hev] at hm
      by_cases heq : m = m'
      · simp [heq] at hm
      · grind
    | obtained m' =>
      simp only [hev] at hm
      by_cases heq : m = m'
      · exact heq ▸ hst.obtained m' hev
      · grind

/-- The holders over whole runs. -/
theorem Held.run {ops : List MailOp} (hs : s.Start)
    (hops : tracedSystem.Legal (Traced.start s) ops) :
    ∃ q, (tracedSystem.run (Traced.start s) ops).Held q := by
  refine System.run_invariant (M := tracedSystem) (I := fun x => ∃ q, x.Held q)
    (fun x op ⟨q, h⟩ hen => ?_) ⟨_, Held.start hs⟩ hops
  obtain ⟨ho, q', hst⟩ := MailOp.exec_spec h.inv h.owned hen.1 fun m => h.unqueued hen.2
  exact ⟨q', h.of_stepped hen.2 ho hst⟩

theorem Held.oneHolder (h : x.Held q) : x.OneHolder := by
  intro a ha
  refine ⟨h.inv.single a ha, ?_⟩
  have hqueued {mb : Nat} (hmb : mb ∈ x.state.boxes) := queuedIn_iff h.inv hmb ha
  by_cases hh : x.holder (x.state.payload a) = none
  · have hnot : ¬x.state.Unqueued q a := fun hun => (h.held a ha).mpr hun hh
    simp only [Unqueued, not_forall, not_not] at hnot
    obtain ⟨mb, hmb, hmem⟩ := hnot
    refine Or.inr ⟨hh, mb, ⟨hmb, (hqueued hmb).mpr hmem⟩, ?_⟩
    rintro mb' ⟨hmb', hin⟩
    exact h.inv.queues.apart mb' hmb' mb hmb a ((hqueued hmb').mp hin) hmem
  · refine Or.inl ⟨Option.ne_none_iff_exists'.mp hh, fun mb hmb hin => ?_⟩
    exact (h.held a ha).mp hh mb hmb ((hqueued hmb).mp hin)

end Traced

/-- A mail leaves the registry in a step if and only if it is one of those that leave. -/
theorem Stepped.not_inflight_iff (h : Stepped s q s' q' e leaves) (hb : s.Blocks)
    (hm : s.Inflight m) : ¬s'.Inflight m ↔ leaves m := by
  obtain ⟨a, ha, rfl⟩ := hm
  rw [← h.gone a ha]
  refine not_congr ⟨?_, fun hin => ⟨a, hin, h.kept a ha hin⟩⟩
  rintro ⟨b, hb', heq⟩
  by_cases hin : b ∈ s.registry
  · rw [h.kept b hin hb'] at heq
    exact hb.inj b hin a ha heq ▸ hb'
  · exact absurd (heq ▸ (hb.payloads a ha).2) (h.fresh b hb' hin)

/-- Mails come out of a mailbox in the order in which they went in, each of them once; those that
have not come out are in the queue. -/
theorem mailbox_delivery_fifo {ops : List MailOp} (hs : s.Start)
    (hops : tracedSystem.Legal (Traced.start s) ops) :
    let s' := (tracedSystem.run (Traced.start s) ops).state
    ∀ mb ∈ s'.boxes, s'.history.returned mb <+: s'.history.enqueued mb ∧
      ∃ ns, LinkRing s'.links mb ns ∧
        s'.history.enqueued mb = s'.history.returned mb ++ (ns.map s'.payload).reverse := by
  intro s' mb hmb
  obtain ⟨q, h⟩ := Traced.Held.run hs hops
  have hlog := h.inv.logged mb hmb
  rw [List.map_reverse] at hlog
  exact ⟨⟨_, hlog.symm⟩, q mb, h.inv.queues.ring mb hmb, hlog⟩

theorem echoOps_legal : tracedSystem.Legal (Traced.start aloneState) echoOps := by
  refine ⟨⟨userCommand_sound _ _ _, ?_⟩, ⟨trivial, trivial⟩, ⟨userCommand_sound _ _ _, ?_⟩,
    ⟨userCommand_sound _ _ _, ?_⟩, trivial⟩
  · exact Option.some_ne_none 1
  · exact ⟨Option.some_ne_none 1, rfl⟩
  · exact Option.some_ne_none 1

theorem mailbox_delivery_fifo_echo :
    let s := (tracedSystem.run (Traced.start aloneState) echoOps).state
    8 ∈ s.boxes ∧ s.history.enqueued 8 = [200] ∧
      s.history.returned 8 <+: s.history.enqueued 8 := by
  intro s
  have hbox : 8 ∈ s.boxes := by decide
  exact ⟨hbox, by decide, (mailbox_delivery_fifo aloneState_start echoOps_legal 8 hbox).1⟩

/-- In every state of every run a mail has one reference and one holder; and in every step from
there, the mails that leave the registry are those that their holder releases, those whose send does
not end in a queue, and those in the queue of a mailbox that is released. -/
theorem mail_lifetime {ops : List MailOp} (hs : s.Start)
    (hops : tracedSystem.Legal (Traced.start s) ops) :
    let x := tracedSystem.run (Traced.start s) ops
    x.OneHolder ∧ ∀ op m, tracedSystem.enabled x op → x.state.Inflight m →
      (¬(op.exec x.state).Inflight m ↔ op.Leaves x.state m) := by
  intro x
  obtain ⟨q, h⟩ := Traced.Held.run hs hops
  refine ⟨h.oneHolder, fun op m hen hm => ?_⟩
  obtain ⟨-, q', hst⟩ := MailOp.exec_spec h.inv h.owned hen.1 fun m => h.unqueued hen.2
  exact hst.not_inflight_iff h.inv.blocks hm

theorem mail_lifetime_echo :
    let x := tracedSystem.run (Traced.start aloneState) echoOps
    x.state.Inflight 200 ∧ x.OneHolder ∧
      ¬((userCommand 5 200).exec x.state).Inflight 200 := by
  intro x
  obtain ⟨hone, hleave⟩ := mail_lifetime aloneState_start echoOps_legal
  have hin : x.state.Inflight 200 := ⟨100, by decide, by decide⟩
  refine ⟨hin, hone, (hleave (userCommand 5 200) 200 ⟨userCommand_sound _ _ _, ?_⟩ hin).mpr ?_⟩
  · exact ⟨Option.some_ne_none 1, by decide⟩
  · exact ⟨by decide, rfl⟩

end Ukernel.Ipc
