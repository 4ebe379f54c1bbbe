import Ukernel.Ipc.MailboxRuns

/-!
# Waiting for mail

A thread that waits at its mailbox has found it empty, and the mailbox stays empty for as long as
the thread is linked in the wait queue.

## What the argument may use

The sends here need not respect the queues: a mail may be sent again while it is queued, by the same
code that corrupts rings. So the invariant cannot say that the queues are rings. What survives every
use of `list_add` and `list_del` is `Headed`: whoever has the head before it is the node after the
head. It is enough to see that a removal never fills an empty list. An insertion does, and each of
them is followed by a wakeup; only the owner of a mailbox waits there, so that one wakeup empties
the wait queue.

## Main definitions

* `MailState.Calm`: the invariant
* `waitSystem`: the runs

## Main results

* `MailState.Calm.enqueue`, `MailState.Calm.tryGetMail`, `MailState.Calm.listenBlock`
* `mailbox_waiters_empty`
-/

namespace Ukernel.Ipc

open Kernel Lib Machine Mm Sync

namespace MailState

/-- Who waits at a mailbox is its owner, and its queue is empty. -/
structure Calm (s : MailState) : Prop where
  blocks : s.Blocks
  owned : s.Owned
  headed : ∀ mb ∈ s.boxes, Headed s.links mb
  waits : s.sched.Waits
  owner : ∀ mb ∈ s.boxes, ∀ t ∈ s.sched.waiters mb,
    t ∈ s.sched.order ∧ (s.sched.thread t).mailbox = mb
  empty : ∀ mb ∈ s.boxes, s.sched.waiters mb ≠ [] → s.links.Empty mb

variable {s s' : MailState} {m a mb : Nat}

section

variable (h : s.Calm)

include h

/-- Changes to the records, if the threads and the heads of the queues stay. -/
theorem Calm.of_eq (hb : s'.Blocks) (hboxes : s'.boxes = s.boxes) (hsched : s'.sched = s.sched)
    (hheaded : ∀ mb ∈ s.boxes, Headed s'.links mb)
    (hempty : ∀ mb ∈ s.boxes, s.links.Empty mb → s'.links.Empty mb) : s'.Calm where
  blocks := hb
  owned := h.owned.congr (hsched.symm ▸ Sched.SameThreads.refl _)
  headed := hboxes.symm ▸ hheaded
  waits := hsched.symm ▸ h.waits
  owner := by
    rw [hboxes, hsched]
    exact h.owner
  empty := by
    rw [hboxes, hsched]
    exact fun mb hmb hw => hempty mb hmb (h.empty mb hmb hw)

/-- Changes that keep the links. -/
theorem Calm.still (hst : Still s s') (hl : s'.links = s.links) (hsched : s'.sched = s.sched) :
    s'.Calm :=
  h.of_eq (h.blocks.still hst) hst.boxes hsched (hl.symm ▸ h.headed) fun _ _ he => hl.symm ▸ he

/-- Changes to who runs and who could. -/
theorem Calm.withSched {sched : Sched} (hs : s.sched.SameWaits sched) :
    (s.withSched sched).Calm where
  blocks := h.blocks.still ⟨rfl, fun _ => rfl, rfl, rfl, rfl, fun _ => rfl, fun _ => rfl, hs.order,
    hs.mailbox⟩
  owned := h.owned.congr hs.sameThreads
  headed := h.headed
  waits := h.waits.congr hs
  owner mb hmb t ht := by
    change t ∈ sched.waiters mb at ht
    change t ∈ sched.order ∧ (sched.thread t).mailbox = mb
    rw [hs.waiters] at ht
    rw [hs.order, hs.mailbox]
    exact h.owner mb hmb t ht
  empty mb hmb hw := by
    change sched.waiters mb ≠ [] at hw
    rw [hs.waiters] at hw
    exact h.empty mb hmb hw

/-- At most one thread waits at a mailbox. -/
theorem Calm.waiters_cases (hmb : mb ∈ s.boxes) :
    s.sched.waiters mb = [] ∨ ∃ t, s.sched.waiters mb = [t] := by
  match hw : s.sched.waiters mb with
  | [] => exact Or.inl rfl
  | [t] => exact Or.inr ⟨t, rfl⟩
  | t :: t' :: ts =>
    have hnodup := h.waits.nodup mb
    obtain ⟨ht, hbox⟩ := h.owner mb hmb t (by simp [hw])
    obtain ⟨ht', hbox'⟩ := h.owner mb hmb t' (by simp [hw])
    have hne := (h.blocks.boxes mb hmb).1
    have heq := h.owned.apart t ht t' ht' (hbox.symm ▸ hne) (hbox.trans hbox'.symm)
    rw [hw, heq] at hnodup
    simp at hnodup

/-- A wakeup empties the wait queue of a mailbox, and touches no other one. -/
theorem Calm.wakeOne_waiters (hmb : mb ∈ s.boxes) :
    (s.sched.waitQueueWakeOne mb).waiters mb = [] ∧
      ∀ x ≠ mb, (s.sched.waitQueueWakeOne mb).waiters x = s.sched.waiters x := by
  rcases h.waits.wakeOne mb with ⟨hw, heq⟩ | ⟨t, ts, hw, heq⟩
  · rw [heq]
    exact ⟨hw, fun _ _ => rfl⟩
  · rw [heq, (Sched.sameWaits_threadUnblock _ _).waiters]
    constructor
    · grind [h.waiters_cases, Sched.delist_waiters]
    · intro x hx
      rw [Sched.delist_waiters, if_neg hx]

/-- A mailbox whose owner is woken may have any queue. -/
theorem Calm.wake (hmb : mb ∈ s.boxes) (hst : Still s s')
    (hsched : s'.sched = s.sched.waitQueueWakeOne mb) (hheaded : ∀ x ∈ s.boxes, Headed s'.links x)
    (hempty : ∀ x ∈ s.boxes, x ≠ mb → s.links.Empty x → s'.links.Empty x) : s'.Calm := by
  obtain ⟨hself, hothers⟩ := h.wakeOne_waiters hmb
  have hthreads := s.sched.sameThreads_wakeOne mb
  refine ⟨h.blocks.still hst, h.owned.congr (hsched.symm ▸ hthreads), hst.boxes.symm ▸ hheaded,
    hsched.symm ▸ h.waits.wake mb, ?_, ?_⟩
  · grind [hst.boxes, hthreads.order, hthreads.mailbox, h.owner]
  · grind [hst.boxes, h.empty]

/-- A mail is queued, wherever its node may be linked already. -/
theorem Calm.enqueue (hmb : mb ∈ s.boxes) (ha : a ∈ s.registry) :
    (s.enqueue mb a).Calm := by
  have hne {x : Nat} (hx : x ∈ s.boxes) : a ≠ x := fun heq =>
    (h.blocks.boxes x hx).2.2 (heq ▸ ha)
  exact h.wake hmb (still_enqueue s mb a) rfl (fun x hx => (h.headed x hx).add (hne hx) (hne hmb))
    fun x hx hxm he => Links.empty_add_of_ne he (hne hx) hxm

theorem Calm.setMail (m : Nat) (v : Mail) : (s.setMail m v).Calm :=
  h.still (still_setMail s m v) rfl rfl

theorem Calm.invokeHandlers (mb : Nat) : (s.invokeHandlers mb).Calm :=
  h.still (still_invokeHandlers s mb) rfl rfl

theorem Calm.allocMail : s.allocMail.2.Calm := by
  rcases s.allocMail_cases with ⟨-, href⟩ | ⟨a, ha⟩
  · exact h.still href.still href.links href.sched
  · have hne {x : Nat} (hx : x ∈ s.boxes) : a ≠ x := fun heq =>
      ha.meta_new (heq ▸ (h.blocks.boxes x hx).2.1)
    refine h.of_eq (ha.blocks h.blocks) ha.boxes ha.sched (fun x hx => ?_) fun x hx he => ?_
    · rw [ha.links]
      exact (h.headed x hx).init (hne hx)
    · rw [ha.links]
      unfold Links.Empty
      rw [Links.next_init, if_neg (hne hx).symm]
      exact he

theorem Calm.setRefs (a : Nat) (r : Int) :
    (s.setMeta a ((s.metaOf a).withRefs r)).Calm :=
  h.still (still_setRefs s a r) rfl rfl

/-- A mail is released, whether it is queued or not. -/
theorem Calm.releaseMail (m : Nat) : (s.releaseMail m).Calm := by
  rcases releaseMail_cases h.blocks m with ⟨-, heq⟩ | ⟨a, ha, -, ⟨-, heq⟩ | ⟨-, hd⟩⟩
  · rw [heq]
    exact h
  · rw [heq]
    exact h.setRefs a _
  · have hne {x : Nat} (hx : x ∈ s.boxes) : x ≠ a := fun heq =>
      (h.blocks.boxes x hx).2.2 (heq ▸ ha)
    have hgone : (s.releaseMail m).links a = ⟨0, 0⟩ := by
      rw [hd.links]
      exact Function.update_self _ _ _
    have hsame {x : Nat} (hx : x ≠ a) : (s.releaseMail m).links x = s.links x := by
      rw [hd.links]
      exact Function.update_of_ne hx _ _
    refine h.of_eq (hd.blocks h.blocks ha) hd.boxes hd.sched (fun x hx y hy => ?_) fun x hx he => ?_
    · rw [hsame (hne hx)]
      by_cases hya : y = a
      · -- the links of a mail that is gone are 0, and no mailbox is there
        rw [hya, hgone] at hy
        exact absurd hy.symm (h.blocks.boxes x hx).1
      · rw [hsame hya] at hy
        exact h.headed x hx y hy
    · unfold Links.Empty
      rw [hsame (hne hx)]
      exact he

theorem Calm.sendMail (hmb : mb ≠ 0 → mb ∈ s.boxes) (m : Nat) :
    (s.sendMail mb m).2.Calm := by
  unfold MailState.sendMail
  split_ifs with hz
  · exact h
  · exact (h.invokeHandlers mb).releaseMail m
  · grind [h.releaseMail, h.enqueue, getMailmeta_eq_some]

end

/-! ## Sends -/

theorem releaseMail_boxes (s : MailState) (m : Nat) : (s.releaseMail m).boxes = s.boxes := by
  unfold MailState.releaseMail
  split
  · rfl
  · dsimp only
    split_ifs <;> rfl

theorem allocMail_boxes (s : MailState) : s.allocMail.2.boxes = s.boxes := by
  rcases s.allocMail_cases with ⟨-, h⟩ | ⟨a, h⟩
  · exact h.still.boxes
  · exact h.boxes

theorem sendMail_boxes (s : MailState) (mb m : Nat) : (s.sendMail mb m).2.boxes = s.boxes := by
  unfold MailState.sendMail
  split_ifs
  · rfl
  · exact releaseMail_boxes _ m
  · split
    · exact releaseMail_boxes s m
    · rfl

theorem deliver_boxes (s : MailState) (mb m : Nat) : (deliver m s mb).boxes = s.boxes := by
  unfold deliver
  split_ifs
  · exact s.sendMail_boxes mb m
  · dsimp only
    split_ifs
    · exact s.allocMail_boxes
    · split
      · exact s.allocMail_boxes
      · exact s.allocMail_boxes
  · rfl

theorem Calm.deliver (h : s.Calm) (hmb : mb ∈ s.boxes) (m : Nat) : (deliver m s mb).Calm := by
  unfold MailState.deliver
  split_ifs
  · exact h.sendMail (fun _ => hmb) m
  · dsimp only
    split_ifs
    · exact h.allocMail
    · have h' := h.allocMail.setMail s.allocMail.1 (s.allocMail.2.mail m)
      have hmb' : mb ∈ (s.allocMail.2.setMail s.allocMail.1 (s.allocMail.2.mail m)).boxes :=
        s.allocMail_boxes.symm ▸ hmb
      split
      · rename_i a hget
        exact h'.enqueue hmb' (getMailmeta_eq_some hget).2.1
      · -- a wakeup without a mail
        exact h'.wake hmb' ⟨rfl, fun _ => rfl, rfl, rfl, rfl, fun _ => rfl, fun _ => rfl,
          (Sched.sameThreads_wakeOne _ mb).order, (Sched.sameThreads_wakeOne _ mb).mailbox⟩ rfl
          h'.headed fun _ _ _ he => he
  · exact h

theorem Calm.foldl_deliver (mbs : List Nat) (h : s.Calm) (hmbs : ∀ mb ∈ mbs, mb ∈ s.boxes)
    (m : Nat) : (mbs.foldl (MailState.deliver m) s).Calm := by
  induction mbs generalizing s with
  | nil => exact h
  | cons mb mbs ih => grind [h.deliver, deliver_boxes]

/-- `send`, of any mail and to any receiver. -/
theorem Calm.send (h : s.Calm) (m : Nat) : (s.send m).2.Calm := by
  unfold MailState.send
  split_ifs
  · exact h
  · unfold broadcast
    split_ifs
    · exact h.releaseMail m
    · split
      · exact h
      · refine Calm.releaseMail (Calm.foldl_deliver _ (h.setRefs _ _) ?_ m) m
        exact mailboxes_subset h.blocks
  · split
    · exact h.releaseMail m
    · rename_i t ht
      dsimp only
      split_ifs
      · exact h.releaseMail m
      · refine h.sendMail (fun hz => ?_) m
        exact (h.blocks.threads t (List.mem_of_find?_eq_some ht)).resolve_left hz

theorem Calm.dispatchUserModeIrq (h : s.Calm) {owner : Nat} (ho : owner ∈ s.sched.order)
    (tid : Int) : (s.dispatchUserModeIrq owner tid).Calm := by
  unfold MailState.dispatchUserModeIrq
  dsimp only
  split_ifs with hz
  · exact h
  · exact h.allocMail
  · refine (h.allocMail.setMail _ _).sendMail (fun hne => ?_) _
    exact s.allocMail_boxes.symm ▸ (h.blocks.threads owner ho).resolve_left hne

/-! ## Receiving -/

/-- `try_get_mail`, from whatever the queue has become. -/
theorem Calm.tryGetMail (h : s.Calm) (mb : Nat) : (s.tryGetMail mb).2.Calm := by
  unfold MailState.tryGetMail
  split_ifs
  · exact h
  · exact h.of_eq (h.blocks.still
      ⟨rfl, fun _ => rfl, rfl, rfl, rfl, fun _ => rfl, fun _ => rfl, rfl,
      fun _ => rfl⟩) rfl rfl (fun x hx => (h.headed x hx).del) fun x hx he =>
        (h.headed x hx).empty_del he

/-- The mailbox of a thread that is there. -/
theorem ownMailbox_eq {t : Nat} (hrun : s.sched.run = some t) (ht : t ∈ s.sched.order) :
    s.ownMailbox = (s.sched.thread t).mailbox := by
  unfold ownMailbox
  rw [hrun]
  exact if_pos ht

/-- The owner of a mailbox goes to sleep there, if its queue is empty. -/
theorem Calm.listenBlock (h : s.Calm) : (listenBlock s s.ownMailbox).2.Calm := by
  set mb := s.ownMailbox with hown
  unfold Ipc.listenBlock
  split_ifs with hz he
  · exact h
  · rcases s.sched.waitQueueSleepLocked_cases mb with heq | ⟨t, hrun, ht, hfree, hsame⟩
    · rw [heq]
      exact h
    · have hbox : (s.sched.thread t).mailbox = mb := (ownMailbox_eq hrun ht).symm
      have hthreads := s.sched.sameThreads_sleepLocked mb
      refine ⟨h.blocks.still ⟨rfl, fun _ => rfl, rfl, rfl, rfl, fun _ => rfl, fun _ => rfl,
        hthreads.order, hthreads.mailbox⟩, h.owned.congr hthreads, h.headed,
        h.waits.sleepLocked hz, fun x hx t' ht' => ?_, fun x hx hw => ?_⟩
      · change t' ∈ (s.sched.waitQueueSleepLocked mb).waiters x at ht'
        change t' ∈ (s.sched.waitQueueSleepLocked mb).order ∧
          ((s.sched.waitQueueSleepLocked mb).thread t').mailbox = x
        rw [hsame.waiters, Sched.enlist_waiters] at ht'
        rw [hthreads.order, hthreads.mailbox]
        by_cases hxm : x = mb
        · rw [if_pos hxm] at ht'
          rcases List.mem_cons.mp ht' with rfl | ht'
          · exact ⟨ht, hxm ▸ hbox⟩
          · exact h.owner x hx t' (hxm ▸ ht')
        · rw [if_neg hxm] at ht'
          exact h.owner x hx t' ht'
      · change (s.sched.waitQueueSleepLocked mb).waiters x ≠ [] at hw
        rw [hsame.waiters, Sched.enlist_waiters] at hw
        by_cases hxm : x = mb
        · rw [hxm]
          exact he
        · rw [if_neg hxm] at hw
          exact h.empty x hx hw
  · exact h

/-- A mailbox changes its subscriptions. -/
theorem Calm.setSubscriptions (h : s.Calm) (hmb : mb ∈ s.boxes) (v : List Nat) :
    (s.setBox mb { s.box mb with subscriptions := v }).Calm := by
  have hre := reboxed_setBox s mb { s.box mb with subscriptions := v }
  refine h.of_eq (hre.blocks_of_sublist h.blocks hmb rfl ?_) rfl rfl h.headed fun _ _ he => he
  rw [setBox_self]

theorem Calm.subscribe (h : s.Calm) (magic : Nat) : (s.subscribe s.ownMailbox magic).2.Calm := by
  unfold MailState.subscribe
  dsimp only
  split_ifs with hz
  · exact h
  · exact h
  · exact h.setSubscriptions (ownMailbox_live h.blocks (not_or.mp hz).1) _
  · exact h

theorem Calm.unsubscribe (h : s.Calm) (magic : Nat) :
    (s.unsubscribe s.ownMailbox magic).2.Calm := by
  unfold MailState.unsubscribe
  dsimp only
  split_ifs with hz
  · exact h
  · exact h.setSubscriptions (ownMailbox_live h.blocks (not_or.mp hz).1) _
  · exact h

end MailState

/-! ## Runs -/

open MailState

variable {s : MailState}

/-- A command on mails, with every mailbox listened to by its owner. -/
def ListensBy (s : MailState) (cfg : MailboxCtrlConfig) : Option MailboxCtrlCmd → Prop
  | some .listen => cfg.mb = 0 ∨ cfg.mb = s.ownMailbox
  | some .listenBlock => cfg.mb = 0 ∨ cfg.mb = s.ownMailbox
  | some .subscribeMail => cfg.mb = 0 ∨ cfg.mb = s.ownMailbox
  | some .unsubscribeMail => cfg.mb = 0 ∨ cfg.mb = s.ownMailbox
  | some .send => True
  | some .allocMail => True
  | some .releaseMail => True
  | none => True
  | _ => False

/-- The steps of the result. -/
def MailOp.Listens (s : MailState) : MailOp → Prop
  | .syscall proc cfg => Admitted proc cfg → ListensBy s cfg (MailboxCtrlCmd.decode cfg.cmd)
  | .irq owner _ => owner ∈ s.sched.order
  | .threadCreate _ _ => False
  | .threadDelete _ => False
  | _ => True

/-- The runs of threads that send and listen, with the interrupts and the scheduler. -/
def waitSystem : System MailState MailOp := ⟨MailOp.exec, fun s op => op.Listens s⟩

/-- Nobody waits, and nothing is linked to a mailbox. -/
structure MailState.Idle (s : MailState) : Prop extends s.Start where
  unlinked : ∀ mb ∈ s.boxes, ∀ n, (s.links n).prev = mb → n = mb
  waiters : ∀ wq, s.sched.waiters wq = []

theorem MailState.Idle.calm (h : s.Idle) : s.Calm where
  blocks := h.blocks
  owned := h.owned
  headed mb hmb n hn := by
    rw [h.unlinked mb hmb n hn, h.links mb hmb]
  waits := ⟨fun wq t ht => absurd (h.waiters wq ▸ ht) List.not_mem_nil,
    fun wq => h.waiters wq ▸ List.nodup_nil, h.waiters 0⟩
  owner mb _ t ht := absurd (h.waiters mb ▸ ht) List.not_mem_nil
  empty mb _ hw := absurd (h.waiters mb) hw

/-- The mailbox of a command is the one of its thread. -/
theorem resolve_own {cfg : MailboxCtrlConfig} (h : cfg.mb = 0 ∨ cfg.mb = s.ownMailbox) :
    (resolve s cfg).mb = s.ownMailbox := by
  unfold resolve
  split_ifs with hz
  · rfl
  · exact h.resolve_left hz

theorem mailboxExec_calm (h : s.Calm) {cfg : MailboxCtrlConfig}
    (hl : ListensBy s cfg (MailboxCtrlCmd.decode cfg.cmd)) : (mailboxExec s cfg).2.Calm := by
  unfold mailboxExec
  cases hdec : MailboxCtrlCmd.decode cfg.cmd with
  | none => exact h
  | some c =>
    rw [hdec] at hl
    cases c with
    | send => exact h.send cfg.m
    | listen => exact h.tryGetMail _
    | listenBlock =>
      dsimp only
      rw [resolve_own hl]
      exact h.listenBlock
    | allocMail => exact h.allocMail
    | releaseMail => exact h.releaseMail cfg.m
    | subscribeMail =>
      dsimp only
      rw [resolve_own hl]
      exact h.subscribe _
    | unsubscribeMail =>
      dsimp only
      rw [resolve_own hl]
      exact h.unsubscribe _
    | registerHandler => exact hl.elim
    | unregisterHandler => exact hl.elim
    | alloc => exact hl.elim
    | release => exact hl.elim

theorem MailOp.exec_calm (h : s.Calm) {op : MailOp} (hl : op.Listens s) : (op.exec s).Calm := by
  cases op with
  | syscall proc cfg =>
    rcases mailboxSyscallIsr_cases proc s cfg with ⟨hadm, heq⟩ | ⟨-, heq⟩
    · unfold exec
      dsimp only
      rw [heq]
      exact mailboxExec_calm h (hl hadm)
    · unfold exec
      dsimp only
      rw [heq]
      exact h
  | store m v => exact h.setMail m v
  | irq owner tid => exact h.dispatchUserModeIrq hl tid
  | timer => exact h.withSched s.sched.sameWaits_scheduleIfNeeded
  | threadBlock tid => exact h.withSched (s.sched.sameWaits_threadBlock tid)
  | threadUnblock tid => exact h.withSched (s.sched.sameWaits_threadUnblock tid)
  | procBlock pid => exact h.withSched (s.sched.sameWaits_setStates pid _)
  | procUnblock pid => exact h.withSched (s.sched.sameWaits_setStates pid _)
  | threadCreate pid tid => exact hl.elim
  | threadDelete tid => exact hl.elim

/-- In every state of every run, a mailbox at which a thread waits has an empty queue. -/
theorem mailbox_waiters_empty {ops : List MailOp} (hs : s.Idle) (hops : waitSystem.Legal s ops) :
    let s' := waitSystem.run s ops
    ∀ mb ∈ s'.boxes, ∀ t ∈ s'.sched.waiters mb, s'.links.Empty mb := by
  intro s' mb hmb t ht
  have hcalm : s'.Calm := System.run_invariant (M := waitSystem) (I := MailState.Calm)
    (fun s op h hen => MailOp.exec_calm h hen) hs.calm hops
  exact hcalm.empty mb hmb (List.ne_nil_of_mem ht)

theorem mailbox_waiters_empty_alone :
    let s := waitSystem.run aloneState [userCommand 10 0]
    1 ∈ s.sched.waiters 8 ∧ s.links.Empty 8 := by
  intro s
  have hidle : aloneState.Idle := ⟨aloneState_start, fun _ _ _ hn => hn, fun _ => rfl⟩
  have hlegal : waitSystem.Legal aloneState [userCommand 10 0] := ⟨fun _ => Or.inl rfl, trivial⟩
  have ht : 1 ∈ s.sched.waiters 8 := by decide
  exact ⟨ht, mailbox_waiters_empty hidle hlegal 8 (by decide) 1 ht⟩

end Ukernel.Ipc
