import Ukernel.Ipc.MailboxRuns

/-!
# Subscriptions

A mailbox has 16 slots for the magics it takes broadcasts of, and 0 marks a slot as free. For its
users the slots are a set: which slot a magic is in, and which slots were used before, is nothing
they can tell.

## Why the order of the scans matters

`MAILBOX_CTRL_SUBSCRIBE_MAIL` goes over all slots for the magic before it goes over them again for a
free one. Magics leave holes when they go, so that a single pass would fill a hole in front of the
slot that has the magic already, and a later `MAILBOX_CTRL_UNSUBSCRIBE_MAIL` would clear only one
of the two. That no magic is in two slots is therefore part of the invariant.

## Main definitions

* `SubscriptionCmd.apply`: the commands on a set of at most 16 magics
* `SubscriptionOp`: the commands as they are issued, and what becomes of the threads meanwhile
* `SubscriptionOp.about`: the part of a run that concerns one mailbox

## Main results

* `MailState.subscribe_refines`, `MailState.unsubscribe_refines`: one command
* `subscriptions_refine_set`: all sequences of commands
-/

namespace Ukernel.Ipc

open Kernel Lib Machine Mm Sync

/-! ## The set -/

/-- A command about the subscriptions of a mailbox. -/
inductive SubscriptionCmd where
  | subscribe (magic : Nat)
  | unsubscribe (magic : Nat)

/-- What a command means: the answer and the new set. -/
def SubscriptionCmd.apply (S : Finset Nat) : SubscriptionCmd → Int × Finset Nat
  | .subscribe magic =>
    if magic = 0 then (eInval, S)
    else if magic ∈ S then (0, S)
    else if S.card = maxSubscriptionCount then (eNomem, S)
    else (0, insert magic S)
  | .unsubscribe magic => if magic ∈ S then (0, S.erase magic) else (eInval, S)

/-- Commands on the set; other commands do not concern it. -/
def setSystem : System (Finset Nat) (Option SubscriptionCmd) where
  exec S
    | none => S
    | some cmd => (cmd.apply S).2
  enabled _ _ := True

/-- What a command answers. -/
def SubscriptionCmd.answer (S : Finset Nat) (cmd : Option SubscriptionCmd) : Option Int :=
  cmd.map fun cmd => (cmd.apply S).1

/-! ## The slots -/

/-- A command of the running thread; between two commands the threads may do anything. -/
inductive SubscriptionOp where
  | command (cfg : MailboxCtrlConfig)
  | threads (sched : Sched)

namespace SubscriptionOp

/-- A step. -/
def exec (s : MailState) : SubscriptionOp → MailState
  | .command cfg => (mailboxExec s cfg).2
  | .threads sched => s.withSched sched

/-- The command that a step issues to a mailbox. -/
def about (mb : Nat) (s : MailState) : SubscriptionOp → Option SubscriptionCmd
  | .command cfg =>
    if (resolve s cfg).mb = mb then
      match MailboxCtrlCmd.decode cfg.cmd with
      | some .subscribeMail => some (.subscribe cfg.magic)
      | some .unsubscribeMail => some (.unsubscribe cfg.magic)
      | _ => none
    else none
  | .threads _ => none

/-- The answer to a command that is issued to a mailbox. -/
def answer (mb : Nat) (s : MailState) : SubscriptionOp → Option Int
  | .command cfg => if (resolve s cfg).mb = mb then some (mailboxExec s cfg).1.ret else none
  | .threads _ => none

/-- The two commands. -/
def Sound : SubscriptionOp → Prop
  | .command cfg => MailboxCtrlCmd.decode cfg.cmd = some .subscribeMail ∨
      MailboxCtrlCmd.decode cfg.cmd = some .unsubscribeMail
  | .threads _ => True

instance : (op : SubscriptionOp) → Decidable op.Sound
  | .command cfg =>
    inferInstanceAs (Decidable (MailboxCtrlCmd.decode cfg.cmd = some .subscribeMail ∨
      MailboxCtrlCmd.decode cfg.cmd = some .unsubscribeMail))
  | .threads _ => .isTrue trivial

end SubscriptionOp

/-- All sequences of the two commands, to any mailboxes. -/
def subscriptionSystem : System MailState SubscriptionOp :=
  ⟨SubscriptionOp.exec, fun _ op => op.Sound⟩

instance (s : MailState) (op : SubscriptionOp) : Decidable (subscriptionSystem.enabled s op) :=
  inferInstanceAs (Decidable op.Sound)

namespace MailState

variable {s : MailState} {mb magic : Nat}

/-- The magics that a mailbox has subscribed to. -/
def magics (s : MailState) (mb : Nat) : Finset Nat := slotSet 0 (s.box mb).subscriptions

/-- No magic is in two of the 16 slots. -/
structure SlotsOk (s : MailState) (mb : Nat) : Prop where
  distinct : Distinct 0 (s.box mb).subscriptions
  length : (s.box mb).subscriptions.length = maxSubscriptionCount

theorem mem_magics : magic ∈ s.magics mb ↔ magic ∈ (s.box mb).subscriptions ∧ magic ≠ 0 :=
  mem_slotSet

/-- The test of a broadcast. -/
theorem subscribed_iff : s.Subscribed mb magic ↔ magic ∈ s.magics mb :=
  and_comm.trans mem_magics.symm

theorem SlotsOk.setBox (h : s.SlotsOk mb) {mb' : Nat} (v : Mailbox) (hne : mb ≠ mb') :
    (s.setBox mb' v).SlotsOk mb ∧ (s.setBox mb' v).magics mb = s.magics mb := by
  have hbox : (s.setBox mb' v).box mb = s.box mb := Function.update_of_ne hne _ _
  unfold magics
  rw [hbox]
  exact ⟨⟨hbox.symm ▸ h.distinct, hbox.symm ▸ h.length⟩, rfl⟩

/-- One slot of a mailbox changes. -/
theorem setSlot (slot magic : Nat) :
    ((s.setBox mb { s.box mb with
      subscriptions := (s.box mb).subscriptions.set slot magic }).box mb).subscriptions =
        (s.box mb).subscriptions.set slot magic :=
  congrArg Mailbox.subscriptions (Function.update_self mb _ s.box)

/-- `MAILBOX_CTRL_SUBSCRIBE_MAIL`. -/
theorem subscribe_refines (h : s.SlotsOk mb) (hmb : mb ≠ 0) (magic : Nat) :
    (s.subscribe mb magic).2.SlotsOk mb ∧
      ((s.subscribe mb magic).1, (s.subscribe mb magic).2.magics mb) =
        (SubscriptionCmd.subscribe magic).apply (s.magics mb) := by
  have hfree : 0 ∈ (s.box mb).subscriptions ↔ (s.magics mb).card ≠ maxSubscriptionCount :=
    h.length ▸ mem_iff_card_slotSet h.distinct
  unfold subscribe SubscriptionCmd.apply
  dsimp only
  by_cases hz : magic = 0
  · rw [if_pos (Or.inr hz), if_pos hz]
    exact ⟨h, rfl⟩
  rw [if_neg (not_or.mpr ⟨hmb, hz⟩), if_neg hz]
  by_cases hin : magic ∈ (s.box mb).subscriptions
  · rw [if_pos hin, if_pos (mem_magics.mpr ⟨hin, hz⟩)]
    exact ⟨h, rfl⟩
  rw [if_neg hin, if_neg fun hin' => hin (mem_magics.mp hin').1]
  by_cases hroom : 0 ∈ (s.box mb).subscriptions
  · rw [if_pos hroom, if_neg (hfree.mp hroom)]
    refine ⟨⟨?_, ?_⟩, Prod.ext rfl ?_⟩
    · rw [setSlot]
      exact h.distinct.fill hroom hz hin
    · rw [setSlot, List.length_set]
      exact h.length
    · change slotSet 0 _ = insert magic (slotSet 0 _)
      rw [setSlot, slotSet_fill hroom hz]
  · grind

/-- `MAILBOX_CTRL_UNSUBSCRIBE_MAIL`; 0 is in no set, and the command rejects it. -/
theorem unsubscribe_refines (h : s.SlotsOk mb) (hmb : mb ≠ 0) (magic : Nat) :
    (s.unsubscribe mb magic).2.SlotsOk mb ∧
      ((s.unsubscribe mb magic).1, (s.unsubscribe mb magic).2.magics mb) =
        (SubscriptionCmd.unsubscribe magic).apply (s.magics mb) := by
  unfold unsubscribe SubscriptionCmd.apply
  dsimp only
  by_cases hz : magic = 0
  · grind [mem_magics]
  rw [if_neg (not_or.mpr ⟨hmb, hz⟩)]
  by_cases hin : magic ∈ (s.box mb).subscriptions
  · rw [if_pos hin, if_pos (mem_magics.mpr ⟨hin, hz⟩)]
    refine ⟨⟨?_, ?_⟩, Prod.ext rfl ?_⟩
    · rw [setSlot]
      exact h.distinct.clear hin hz
    · rw [setSlot, List.length_set]
      exact h.length
    · change slotSet 0 _ = (slotSet 0 _).erase magic
      rw [setSlot, slotSet_clear h.distinct hin hz]
  · grind [mem_magics.mp]

/-- A command to another mailbox. -/
theorem SlotsOk.other (h : s.SlotsOk mb) {mb' : Nat} (hne : mb ≠ mb') (magic : Nat) :
    ((s.subscribe mb' magic).2.SlotsOk mb ∧ (s.subscribe mb' magic).2.magics mb = s.magics mb) ∧
      (s.unsubscribe mb' magic).2.SlotsOk mb ∧
        (s.unsubscribe mb' magic).2.magics mb = s.magics mb := by
  constructor
  · grind [h.setBox, subscribe]
  · grind [h.setBox, unsubscribe]

/-- The two commands, as `mailbox_exec` runs them. -/
theorem mailboxExec_subscribe {cfg : MailboxCtrlConfig}
    (hcmd : MailboxCtrlCmd.decode cfg.cmd = some .subscribeMail) :
    (mailboxExec s cfg).1.ret = (s.subscribe (resolve s cfg).mb cfg.magic).1 ∧
      (mailboxExec s cfg).2 = (s.subscribe (resolve s cfg).mb cfg.magic).2 := by
  have hmagic : (resolve s cfg).magic = cfg.magic := by
    unfold resolve
    split_ifs <;> rfl
  unfold mailboxExec
  rw [hcmd]
  dsimp only
  rw [hmagic]
  exact ⟨rfl, rfl⟩

theorem mailboxExec_unsubscribe {cfg : MailboxCtrlConfig}
    (hcmd : MailboxCtrlCmd.decode cfg.cmd = some .unsubscribeMail) :
    (mailboxExec s cfg).1.ret = (s.unsubscribe (resolve s cfg).mb cfg.magic).1 ∧
      (mailboxExec s cfg).2 = (s.unsubscribe (resolve s cfg).mb cfg.magic).2 := by
  have hmagic : (resolve s cfg).magic = cfg.magic := by
    unfold resolve
    split_ifs <;> rfl
  unfold mailboxExec
  rw [hcmd]
  dsimp only
  rw [hmagic]
  exact ⟨rfl, rfl⟩

/-- A step does to the slots what its command does to the set, with the same answer. -/
theorem SlotsOk.step (h : s.SlotsOk mb) (hmb : mb ≠ 0) {op : SubscriptionOp} (hop : op.Sound) :
    (op.exec s).SlotsOk mb ∧ (op.exec s).magics mb = setSystem.exec (s.magics mb) (op.about mb s) ∧
      op.answer mb s = SubscriptionCmd.answer (s.magics mb) (op.about mb s) := by
  cases op with
  | threads sched => exact ⟨⟨h.distinct, h.length⟩, rfl, rfl⟩
  | command cfg =>
    unfold SubscriptionOp.exec SubscriptionOp.about SubscriptionOp.answer
    dsimp only
    rcases hop with hcmd | hcmd
    · obtain ⟨hret, hstate⟩ := mailboxExec_subscribe (s := s) hcmd
      rw [hret, hstate]
      by_cases htarget : (resolve s cfg).mb = mb
      · rw [if_pos htarget, if_pos htarget, hcmd, htarget]
        obtain ⟨hok, heq⟩ := subscribe_refines h hmb cfg.magic
        exact ⟨hok, congrArg Prod.snd heq, congrArg (fun p => some p.1) heq⟩
      · rw [if_neg htarget, if_neg htarget]
        obtain ⟨⟨hok, heq⟩, -⟩ := h.other (Ne.symm htarget) cfg.magic
        exact ⟨hok, heq, rfl⟩
    · obtain ⟨hret, hstate⟩ := mailboxExec_unsubscribe (s := s) hcmd
      rw [hret, hstate]
      by_cases htarget : (resolve s cfg).mb = mb
      · rw [if_pos htarget, if_pos htarget, hcmd, htarget]
        obtain ⟨hok, heq⟩ := unsubscribe_refines h hmb cfg.magic
        exact ⟨hok, congrArg Prod.snd heq, congrArg (fun p => some p.1) heq⟩
      · rw [if_neg htarget, if_neg htarget]
        obtain ⟨-, hok, heq⟩ := h.other (Ne.symm htarget) cfg.magic
        exact ⟨hok, heq, rfl⟩

end MailState

/-! ## Sequences of commands -/

/-- After any commands, by any threads and to any mailboxes, the slots of a mailbox that began empty
hold distinct magics and are the set that its commands make; the commands have answered as they do
on the set; and a broadcast is taken exactly for the magics in the set. -/
theorem subscriptions_refine_set (s : MailState) (mb : Nat) (ops : List SubscriptionOp)
    (hmb : mb ≠ 0) (hs : (s.box mb).subscriptions = List.replicate maxSubscriptionCount 0)
    (hops : subscriptionSystem.Legal s ops) :
    let s' := subscriptionSystem.run s ops
    let cmds := subscriptionSystem.trace (fun s op => op.about mb s) s ops
    let S := setSystem.run ∅ cmds
    ((s'.box mb).subscriptions.filter (· ≠ 0)).Nodup ∧
      ((s'.box mb).subscriptions.filter (· ≠ 0)).toFinset = S ∧
      subscriptionSystem.trace (fun s op => op.answer mb s) s ops =
        setSystem.trace SubscriptionCmd.answer ∅ cmds ∧
      ∀ magic, s'.Subscribed mb magic ↔ magic ∈ S := by
  intro s' cmds S
  have hnil : (List.replicate maxSubscriptionCount 0).filter (· ≠ 0) = [] := by decide
  have hok : s.SlotsOk mb := by
    constructor
    · unfold Distinct
      rw [hs, hnil]
      exact List.nodup_nil
    · rw [hs, List.length_replicate]
  have hempty : s.magics mb = ∅ := by
    unfold MailState.magics slotSet
    rw [hs, hnil]
    rfl
  -- the slots and the set take the same steps
  let abs (s : MailState) := s.magics mb
  have hkeep (s : MailState) (op : SubscriptionOp) (h : s.SlotsOk mb)
      (hen : subscriptionSystem.enabled s op) : (subscriptionSystem.exec s op).SlotsOk mb :=
    (h.step hmb hen).1
  have hexec (s : MailState) (op : SubscriptionOp) (h : s.SlotsOk mb)
      (hen : subscriptionSystem.enabled s op) :
      abs (subscriptionSystem.exec s op) = setSystem.exec (abs s) (op.about mb s) :=
    (h.step hmb hen).2.1
  have hanswer (s : MailState) (op : SubscriptionOp) (h : s.SlotsOk mb)
      (hen : subscriptionSystem.enabled s op) :
      op.answer mb s = SubscriptionCmd.answer (abs s) (op.about mb s) :=
    (h.step hmb hen).2.2
  have hinv : s'.SlotsOk mb := System.run_invariant hkeep hok hops
  have hset : s'.magics mb = setSystem.run (s.magics mb) cmds :=
    System.run_simulation hkeep hexec hok hops
  have hanswers : subscriptionSystem.trace (fun s op => op.answer mb s) s ops =
      setSystem.trace SubscriptionCmd.answer (s.magics mb) cmds :=
    System.trace_simulation hkeep hexec hanswer hok hops
  rw [hempty] at hset hanswers
  refine ⟨hinv.distinct, hset, hanswers, fun magic => ?_⟩
  rw [MailState.subscribed_iff]
  exact iff_of_eq (congrArg (magic ∈ ·) hset)

/-- The running thread subscribes its own mailbox, or unsubscribes it. -/
def ownSubscription (cmd magic : Nat) : SubscriptionOp :=
  .command { cmd, m := 0, mb := 0, handler := 0, pid := 1, tid := 1, magic, ret := 0 }

/-- Two magics, the first of them twice, and the first one taken back. -/
def subscriptionOps : List SubscriptionOp :=
  [ownSubscription 8 7, ownSubscription 8 7, ownSubscription 8 9, ownSubscription 9 7,
    ownSubscription 9 7]

theorem subscriptions_refine_set_taken_back :
    let s := subscriptionSystem.run aloneState subscriptionOps
    subscriptionSystem.trace (fun s op => op.answer 8 s) aloneState subscriptionOps =
        [some 0, some 0, some 0, some 0, some eInval] ∧
      (s.Subscribed 8 9 ↔ 9 ∈ setSystem.run ∅ (subscriptionSystem.trace (fun s op => op.about 8 s)
        aloneState subscriptionOps)) := by
  intro s
  have hops : subscriptionSystem.Legal aloneState subscriptionOps := by decide
  exact ⟨by decide,
    (subscriptions_refine_set aloneState 8 subscriptionOps (by decide) rfl hops).2.2.2 9⟩

end Ukernel.Ipc
