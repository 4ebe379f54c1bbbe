import Ukernel.Ipc.MailboxWait
import Ukernel.Sync.WaitLinks

/-!
# Who waits where

Wait queues are embedded in semaphores and in mailboxes, and both lie on one heap. Here semaphores,
mailboxes, the scheduler, and the threads and processes that come and go run together, and the links
between threads and wait queues are followed through all of it.

## Why a mailbox can go under a thread

`semaphore_destroy` refuses to destroy a semaphore with waiters. `release_mailbox` never looks: it
fills the record with zeros and frees it. A thread waits at its own mailbox, and `tcb_detach_wait`
takes it out before `thread_delete_internal` releases that mailbox, so that nothing is left behind.
But code of the kernel may name any mailbox in `MAILBOX_CTRL_LISTEN_BLOCK`. If it sleeps at the
mailbox of another thread and that thread is deleted, its `waiting_on` is left with the address of a
block that has been freed. `WaitOp.Vacated` rules out exactly this.

## Main definitions

* `MailState.Foreign`: a block that has nothing to do with mailboxes
* `MailState.Coupled`: the records of mailboxes and semaphores lie apart, and threads wait at them
  only
* `WaitState`, `WaitOp`: mailboxes and semaphores together, and all that can happen to them
* `WaitOp.Vacated`: nobody else waits at a mailbox that is released

## Main results

* `MailState.exec_tidy`: what every step keeps in any case
* `MailOp.exec_coupled`, `WaitState.Coupled.step`: one step
* `wait_links_coherent`: in every run the links between threads and wait queues are coherent
-/

namespace Ukernel.Ipc

open Kernel Lib Machine Mm Sync

namespace MailState

/-! ## Blocks of others -/

/-- A block of the heap that is no mailbox, no handler of one and no bookkeeping of a mail. -/
structure Foreign (s : MailState) (x : Nat) : Prop where
  ne : x ≠ 0
  live : x ∈ s.kheap.live
  registry : x ∉ s.registry
  boxes : x ∉ s.boxes
  handlers : ∀ mb ∈ s.boxes, ∀ hd ∈ (s.box mb).handlers, hd.addr ≠ x

variable {s s' : MailState} {sems : List Nat} {x a m mb t : Nat}

theorem Still.foreign (h : Still s s') (hx : s.Foreign x) : s'.Foreign x := by
  refine ⟨hx.ne, h.kheap ▸ hx.live, h.registry ▸ hx.registry, h.boxes ▸ hx.boxes, ?_⟩
  simp only [h.boxes, h.handlers]
  exact hx.handlers

theorem Allocated.foreign (h : Allocated s a m s') (hx : s.Foreign x) : s'.Foreign x := by
  refine ⟨hx.ne, ?_, ?_, h.boxes ▸ hx.boxes, ?_⟩
  · rw [h.kheap]
    exact List.mem_cons_of_mem _ hx.live
  · rw [h.registry]
    rintro (_ | ⟨_, hmem⟩)
    · exact h.meta_new hx.live
    · exact hx.registry hmem
  · rw [h.boxes, h.box]
    exact hx.handlers

theorem Discarded.foreign (h : Discarded s a s') (ha : a ∈ s.registry)
    (hx : s.Foreign x) : s'.Foreign x := by
  refine ⟨hx.ne, ?_, ?_, h.boxes ▸ hx.boxes, ?_⟩
  · grind [h.kheap, hx.registry, hx.live]
  · rw [h.registry]
    exact fun hmem => hx.registry (List.mem_of_mem_erase hmem)
  · rw [h.boxes, h.box]
    exact hx.handlers

/-- A mailbox changes its handlers. -/
theorem Reboxed.foreign (h : Reboxed s mb s') (hx : s.Foreign x) (hlive : x ∈ s'.kheap.live)
    (hown : ∀ hd ∈ (s'.box mb).handlers, hd.addr ≠ x) : s'.Foreign x := by
  have hboxes : s'.boxes = s.boxes := congrArg MailHistory.boxes h.history
  refine ⟨hx.ne, hlive, h.registry ▸ hx.registry, hboxes ▸ hx.boxes, ?_⟩
  rw [hboxes]
  intro y hy hd hhd
  by_cases hym : y = mb
  · exact hown hd (hym ▸ hhd)
  · rw [h.others y hym] at hhd
    exact hx.handlers y hy hd hhd

theorem Opened.foreign (h : Opened s mb s') (hx : s.Foreign x) : s'.Foreign x := by
  refine ⟨hx.ne, ?_, h.registry ▸ hx.registry, ?_, ?_⟩
  · rw [h.kheap]
    exact List.mem_cons_of_mem _ hx.live
  · rw [h.boxes]
    rintro (_ | ⟨_, hmem⟩)
    · exact h.box_new.2 hx.live
    · exact hx.boxes hmem
  · grind [h.boxes, h.handlers, hx.handlers]

theorem Closed.foreign (h : Closed s mb s') (hb : s.Blocks) (hmb : mb ∈ s.boxes)
    (hx : s.Foreign x) : s'.Foreign x := by
  have hbox {y : Nat} := h.boxes hb y
  refine ⟨hx.ne, ?_, h.registry ▸ hx.registry, fun hmem => hx.boxes (hbox.mp hmem).2, ?_⟩
  · exact h.kept x hx.live (fun heq => hx.boxes (heq ▸ hmb)) (hx.handlers mb hmb)
  · grind [h.box, hx.handlers]

/-! ## What happens to the threads -/

/-- A new mailbox gets an empty wait queue. -/
theorem allocMailbox_sched (s : MailState) {ownerPid ownerTid : Int}
    (hmb : (s.allocMailbox ownerPid ownerTid).1 ≠ 0) :
    (s.allocMailbox ownerPid ownerTid).2.sched =
      s.sched.setWaiters (s.allocMailbox ownerPid ownerTid).1 [] := by
  unfold allocMailbox at hmb ⊢
  dsimp only at hmb ⊢
  split_ifs at hmb ⊢
  · exact absurd rfl hmb
  · unfold spinlockAlloc at hmb ⊢
    cases hfree : firstFree s.locks Resources.spinLockMaxCount 0 with
    | none =>
      rw [hfree] at hmb
      exact absurd rfl hmb
    | some lock => rfl

theorem closeMailbox_sched (s : MailState) (mb : Nat) :
    (s.closeMailbox mb).sched = s.sched.setWaiters mb [] := by
  unfold closeMailbox
  rw [freeHandlers_eq]
  rfl

theorem sameWaits_entered (sched : Sched) (pid t mb : Nat) : Sched.SameWaits
    (sched.enter t ⟨pid, if sched.run = none then .ready else .pending, false, mb, 0⟩)
    (entered sched pid t mb) := ⟨rfl, rfl, fun _ => rfl, fun _ => rfl, fun _ => rfl⟩

/-- Who runs is the new thread, if it is the first one, or who ran before. -/
theorem entered_tidy {sched : Sched} (h : sched.Tidy) (hnew : t ∉ sched.order) (pid mb : Nat) :
    (entered sched pid t mb).Tidy := by
  refine (h.enter hnew _).congr (sameWaits_entered sched pid t mb) fun u hu => ?_
  change (if sched.run = none then some t else sched.run) = some u at hu
  split_ifs at hu
  · cases hu
    exact List.mem_cons_self
  · exact List.mem_cons_of_mem _ (h.run u hu)

/-- A thread is not deleted, or goes first and its mailbox after it. -/
theorem threadDelete_eq (s : MailState) (t : Nat) : s.threadDelete t = s ∨
    t ∈ s.sched.order ∧ (s.sched.threadDelete t).order = s.sched.order.erase t ∧
      s.threadDelete t =
        (s.withSched (s.sched.threadDelete t)).releaseMailbox (s.sched.thread t).mailbox := by
  unfold MailState.threadDelete Sched.threadDelete
  by_cases hnone : s.sched.run = none ∨ t ∉ s.sched.order
  · rw [if_pos hnone]
    exact Or.inl rfl
  rw [if_neg hnone, if_neg hnone]
  have ht : t ∈ s.sched.order := not_not.mp (not_or.mp hnone).2
  by_cases hrun : s.sched.run ≠ some t
  · rw [if_pos hrun, if_pos hrun]
    exact Or.inr ⟨ht, rfl, rfl⟩
  · rw [if_neg hrun, if_neg hrun]
    rcases s.sched.findNextRunnable_cases t with ⟨-, heq⟩ | ⟨next, -, -, heq⟩
    · rw [heq]
      exact Or.inl rfl
    · rw [heq]
      exact Or.inr ⟨ht, rfl, rfl⟩

/-! ## What holds in any case

A thread that runs is listed, and so is every thread that is linked in a wait queue, whoever waits
where and whatever becomes of the queue. -/

theorem sendMail_tidy (h : s.sched.Tidy) (mb m : Nat) : (s.sendMail mb m).2.sched.Tidy := by
  unfold sendMail
  split_ifs
  · exact h
  · rw [releaseMail_sched]
    exact h
  · cases s.getMailmeta m with
    | none =>
      rw [releaseMail_sched]
      exact h
    | some a => exact h.wakeOne mb

theorem deliver_tidy (h : s.sched.Tidy) (m mb : Nat) : (deliver m s mb).sched.Tidy := by
  unfold deliver
  split_ifs
  · exact sendMail_tidy h mb m
  · have halloc : s.allocMail.2.sched.Tidy := s.allocMail_sched.symm ▸ h
    dsimp only
    split_ifs
    · exact halloc
    · split
      · exact halloc.wakeOne mb
      · exact halloc.wakeOne mb
  · exact h

theorem foldl_deliver_tidy (mbs : List Nat) (h : s.sched.Tidy) (m : Nat) :
    (mbs.foldl (deliver m) s).sched.Tidy := by
  induction mbs generalizing s with
  | nil => exact h
  | cons mb mbs ih => exact ih (deliver_tidy h m mb)

section

variable (h : s.sched.Tidy)

include h

theorem send_tidy (m : Nat) : (s.send m).2.sched.Tidy := by
  have hrelease : (s.releaseMail m).sched.Tidy := (s.releaseMail_sched m).symm ▸ h
  unfold send
  split_ifs
  · exact h
  · unfold broadcast
    split_ifs
    · exact hrelease
    · split
      · exact h
      · rw [releaseMail_sched]
        refine foldl_deliver_tidy _ ?_ m
        exact h
  · grind [sendMail_tidy]

theorem dispatchUserModeIrq_tidy (owner : Nat) (tid : Int) :
    (s.dispatchUserModeIrq owner tid).sched.Tidy := by
  have halloc : s.allocMail.2.sched.Tidy := s.allocMail_sched.symm ▸ h
  unfold dispatchUserModeIrq
  dsimp only
  split_ifs
  · exact h
  · exact halloc
  · refine sendMail_tidy ?_ _ _
    exact halloc

theorem allocMailbox_tidy (ownerPid ownerTid : Int) :
    (s.allocMailbox ownerPid ownerTid).2.sched.Tidy := by
  rcases s.allocMailbox_cases ownerPid ownerTid with ⟨-, href⟩ | hopen
  · rw [href.sched]
    exact h
  · rw [s.allocMailbox_sched hopen.box_new.1]
    exact h.clear _

theorem releaseMailbox_tidy (mb : Nat) : (s.releaseMailbox mb).sched.Tidy := by
  by_cases hz : mb = 0
  · unfold releaseMailbox
    rw [if_pos hz]
    exact h
  · rw [releaseMailbox_eq hz, closeMailbox_sched]
    refine Sched.Tidy.clear ?_ mb
    cases hs : drainLoop (s.registry.length + 1) s mb with
    | none => exact h
    | some s₁ => exact (drainLoop_sched _ s mb s₁ hs).symm ▸ h

theorem threadCreate_tidy (hnew : t ∉ s.sched.order) (pid : Nat) :
    (s.threadCreate pid t).sched.Tidy := by
  have hopen := allocMailbox_tidy h (pid : Int) (t : Int)
  have hnew' : t ∉ (s.allocMailbox pid t).2.sched.order :=
    (s.allocMailbox_threads pid t).order.symm ▸ hnew
  exact entered_tidy hopen hnew' pid _

theorem threadDelete_tidy (t : Nat) : (s.threadDelete t).sched.Tidy := by
  rcases threadDelete_eq s t with heq | ⟨-, -, heq⟩
  · rw [heq]
    exact h
  · rw [heq]
    exact releaseMailbox_tidy (h.threadDelete t) _

theorem mailboxExec_tidy (cfg : MailboxCtrlConfig) :
    (mailboxExec s cfg).2.sched.Tidy := by
  unfold mailboxExec
  cases MailboxCtrlCmd.decode cfg.cmd with
  | none => exact h
  | some c =>
    cases c with
    | send => exact send_tidy h cfg.m
    | listen => exact (tryGetMail_sched _ _).symm ▸ h
    | registerHandler => exact (registerHandler_sched _ _ _).symm ▸ h
    | unregisterHandler => exact (unregisterHandler_sched _ _ _).symm ▸ h
    | allocMail => exact s.allocMail_sched.symm ▸ h
    | releaseMail => exact (s.releaseMail_sched cfg.m).symm ▸ h
    | alloc => exact allocMailbox_tidy h cfg.pid cfg.tid
    | release => exact releaseMailbox_tidy h cfg.mb
    | subscribeMail => exact (subscribe_sched _ _ _).symm ▸ h
    | unsubscribeMail => exact (unsubscribe_sched _ _ _).symm ▸ h
    | listenBlock =>
      dsimp only
      unfold listenBlock
      split_ifs with hz
      · exact h
      · exact h.sleepLocked hz
      · exact h

/-- Every step of mailboxes and threads. -/
theorem exec_tidy {op : MailOp} (hs : op.Sound s) :
    (op.exec s).sched.Tidy := by
  cases op with
  | syscall proc cfg =>
    unfold MailOp.exec
    dsimp only
    rcases mailboxSyscallIsr_cases proc s cfg with ⟨-, heq⟩ | ⟨-, heq⟩
    · rw [heq]
      exact mailboxExec_tidy h cfg
    · rw [heq]
      exact h
  | store m v => exact h
  | irq owner tid => exact dispatchUserModeIrq_tidy h owner tid
  | timer => exact h.schedule
  | threadBlock t => exact h.threadBlock t
  | threadUnblock t => exact h.threadUnblock t
  | procBlock pid => exact h.setStates pid _
  | procUnblock pid => exact h.setStates pid _
  | threadCreate pid t => exact threadCreate_tidy h hs pid
  | threadDelete t => exact threadDelete_tidy h t

end

/-! ## Mailboxes and semaphores -/

/-- The wait queues that are there: those of mailboxes and those of semaphores. -/
def Queue (s : MailState) (sems : List Nat) (wq : Nat) : Prop := wq ∈ s.boxes ∨ wq ∈ sems

/-- The records of mailboxes and semaphores lie apart, and threads wait at them only. -/
structure Coupled (s : MailState) (sems : List Nat) : Prop where
  blocks : s.Blocks
  owned : s.Owned
  foreign : ∀ a ∈ sems, s.Foreign a
  woven : s.sched.Woven (s.Queue sems)

namespace Coupled

variable (h : s.Coupled sems)
include h

/-- The records stay; the threads move between the wait queues. -/
theorem still (hst : Still s s') (hth : s.sched.SameThreads s'.sched)
    (hw : s'.sched.Woven (s.Queue sems)) : s'.Coupled sems where
  blocks := h.blocks.still hst
  owned := h.owned.congr hth
  foreign a ha := hst.foreign (h.foreign a ha)
  woven := hw.mono fun _ hq => hq.imp_left fun hin => hst.boxes.symm ▸ hin

/-- Neither records nor threads change in what matters here. -/
theorem keep (hst : Still s s') (hsched : s'.sched = s.sched) : s'.Coupled sems :=
  h.still hst (hsched.symm ▸ Sched.SameThreads.refl _) (hsched.symm ▸ h.woven)

theorem withSched {sched : Sched} (hth : s.sched.SameThreads sched)
    (hw : sched.Woven (s.Queue sems)) : (s.withSched sched).Coupled sems :=
  h.still ⟨rfl, fun _ => rfl, rfl, rfl, rfl, fun _ => rfl, fun _ => rfl, hth.order, hth.mailbox⟩
    hth hw

/-- The records change, and the wait queues do not. -/
theorem of_eq (hb : s'.Blocks) (hf : ∀ a ∈ sems, s'.Foreign a) (hboxes : s'.boxes = s.boxes)
    (hsched : s'.sched = s.sched) : s'.Coupled sems where
  blocks := hb
  owned := h.owned.congr (hsched.symm ▸ Sched.SameThreads.refl _)
  foreign := hf
  woven := by
    rw [hsched]
    exact h.woven.mono fun _ hq => hq.imp_left fun hin => hboxes.symm ▸ hin

theorem queue_ne_zero {wq : Nat} (hq : s.Queue sems wq) : wq ≠ 0 := by
  rcases hq with hq | hq
  · exact (h.blocks.boxes wq hq).1
  · exact (h.foreign wq hq).ne

/-! ### Mails -/

theorem setMail (m : Nat) (v : Mail) : (s.setMail m v).Coupled sems :=
  h.keep (still_setMail s m v) rfl

theorem setRefs (a : Nat) (r : Int) : (s.setMeta a ((s.metaOf a).withRefs r)).Coupled sems :=
  h.keep (still_setRefs s a r) rfl

theorem wakeOne (wq : Nat) : (s.withSched (s.sched.waitQueueWakeOne wq)).Coupled sems :=
  h.withSched (s.sched.sameThreads_wakeOne wq) (h.woven.wakeOne wq)

theorem enqueue (mb a : Nat) : (s.enqueue mb a).Coupled sems :=
  h.still (still_enqueue s mb a) (s.enqueue_threads mb a) (h.woven.wakeOne mb)

theorem allocMail : s.allocMail.2.Coupled sems := by
  rcases s.allocMail_cases with ⟨-, href⟩ | ⟨a, ha⟩
  · exact h.keep href.still href.sched
  · exact h.of_eq (ha.blocks h.blocks) (fun x hx => ha.foreign (h.foreign x hx)) ha.boxes ha.sched

theorem releaseMail (m : Nat) : (s.releaseMail m).Coupled sems := by
  rcases releaseMail_cases h.blocks m with ⟨-, heq⟩ | ⟨a, ha, -, ⟨-, heq⟩ | ⟨-, hd⟩⟩
  · rw [heq]
    exact h
  · rw [heq]
    exact h.setRefs a _
  · exact h.of_eq (hd.blocks h.blocks ha)
      (fun x hx => hd.foreign ha (h.foreign x hx)) hd.boxes hd.sched

theorem sendMail (mb m : Nat) : (s.sendMail mb m).2.Coupled sems := by
  unfold MailState.sendMail
  split_ifs with hz
  · exact h
  · have hcalled := h.keep (still_invokeHandlers s mb) rfl
    exact hcalled.releaseMail m
  · grind [h.releaseMail, h.enqueue]

theorem deliver (m mb : Nat) : (deliver m s mb).Coupled sems := by
  unfold MailState.deliver
  split_ifs
  · exact h.sendMail mb m
  · dsimp only
    split_ifs
    · exact h.allocMail
    · have hclone := h.allocMail.setMail s.allocMail.1 (s.allocMail.2.mail m)
      split
      · exact hclone.enqueue mb _
      · -- a wakeup without a mail
        exact hclone.wakeOne mb
  · exact h

omit h in
theorem foldl_deliver (mbs : List Nat) (h : s.Coupled sems) (m : Nat) :
    (mbs.foldl (MailState.deliver m) s).Coupled sems := by
  induction mbs generalizing s with
  | nil => exact h
  | cons mb mbs ih => exact ih (h.deliver m mb)

theorem send (m : Nat) : (s.send m).2.Coupled sems := by
  unfold MailState.send
  split_ifs
  · exact h
  · unfold broadcast
    split_ifs
    · exact h.releaseMail m
    · split
      · exact h
      · exact (foldl_deliver _ (h.setRefs _ _) m).releaseMail m
  · grind [h.releaseMail, h.sendMail]

theorem dispatchUserModeIrq (owner : Nat) (tid : Int) :
    (s.dispatchUserModeIrq owner tid).Coupled sems := by
  unfold MailState.dispatchUserModeIrq
  dsimp only
  split_ifs with hz
  · exact h
  · exact h.allocMail
  · exact (h.allocMail.setMail _ _).sendMail _ _

theorem tryGetMail (mb : Nat) : (s.tryGetMail mb).2.Coupled sems := by
  unfold MailState.tryGetMail
  split_ifs
  · exact h
  · exact h.keep ⟨rfl, fun _ => rfl, rfl, rfl, rfl, fun _ => rfl, fun _ => rfl, rfl, fun _ => rfl⟩
      rfl

theorem listenBlock (hmb : mb ≠ 0 → mb ∈ s.boxes) : (listenBlock s mb).2.Coupled sems := by
  unfold Ipc.listenBlock
  split_ifs with hz he
  · exact h
  · exact h.withSched (s.sched.sameThreads_sleepLocked mb)
      (h.woven.sleepLocked hz (Or.inl (hmb hz)))
  · exact h

/-! ### Handlers and subscriptions -/

theorem setSubscriptions (hmb : mb ∈ s.boxes) (v : List Nat) :
    (s.setBox mb { s.box mb with subscriptions := v }).Coupled sems := by
  have hre := reboxed_setBox s mb { s.box mb with subscriptions := v }
  have hsame : ((s.setBox mb { s.box mb with subscriptions := v }).box mb).handlers =
      (s.box mb).handlers := by rw [setBox_self]
  refine h.of_eq (hre.blocks_of_sublist h.blocks hmb rfl ?_) (fun x hx => ?_) rfl rfl
  · rw [setBox_self]
  · have hf := h.foreign x hx
    exact hre.foreign hf hf.live (hsame.symm ▸ hf.handlers mb hmb)

section

variable (hmb : mb ≠ 0 → mb ∈ s.boxes)

include hmb

theorem subscribe (magic : Nat) :
    (s.subscribe mb magic).2.Coupled sems := by
  unfold MailState.subscribe
  dsimp only
  split_ifs with hz
  · exact h
  · exact h
  · exact h.setSubscriptions (hmb (not_or.mp hz).1) _
  · exact h

theorem unsubscribe (magic : Nat) :
    (s.unsubscribe mb magic).2.Coupled sems := by
  unfold MailState.unsubscribe
  dsimp only
  split_ifs with hz
  · exact h
  · exact h.setSubscriptions (hmb (not_or.mp hz).1) _
  · exact h

theorem registerHandler (handler : Nat) :
    (s.registerHandler mb handler).2.Coupled sems := by
  rcases registerHandler_reboxed h.blocks hmb handler with
    href | ⟨hmem, hre, hb, addr, hnew, hlive, hown⟩
  · exact h.keep href.still href.sched
  · refine h.of_eq hb (fun x hx => ?_) (congrArg MailHistory.boxes hre.history) hre.sched
    have hf := h.foreign x hx
    refine hre.foreign hf (hlive ▸ List.mem_cons_of_mem _ hf.live) fun hd hhd => ?_
    rcases hown hd hhd with heq | hold
    · exact fun hxa => hnew (heq ▸ hxa.symm ▸ hf.live)
    · exact hf.handlers mb hmem hd hold

theorem unregisterHandler (handler : Nat) :
    (s.unregisterHandler mb handler).2.Coupled sems := by
  rcases unregisterHandler_reboxed h.blocks hmb handler with
    href | ⟨hmem, hre, hb, hsub, hd, hhd, hlive⟩
  · exact h.keep href.still href.sched
  · refine h.of_eq hb (fun x hx => ?_) (congrArg MailHistory.boxes hre.history) hre.sched
    have hf := h.foreign x hx
    refine hre.foreign hf ?_ fun hd' hhd' => hf.handlers mb hmem hd' (hsub hhd')
    rw [hlive]
    exact h.blocks.kheap.mem_erase_iff.mpr ⟨(hf.handlers mb hmem hd hhd).symm, hf.live⟩

end

/-! ### Mailboxes come and go -/

/-- A block that is new to the heap is no wait queue, and nobody is linked there. -/
theorem waiters_new (hx : x ∉ s.kheap.live) : s.sched.waiters x = [] := by
  refine h.woven.waiters_eq_nil ?_
  rintro (hin | hin)
  · exact hx (h.blocks.boxes x hin).2.1
  · exact hx (h.foreign x hin).live

theorem allocMailbox (ownerPid ownerTid : Int) :
    (s.allocMailbox ownerPid ownerTid).2.Coupled sems ∧
      (s.allocMailbox ownerPid ownerTid).2.sched = s.sched := by
  rcases s.allocMailbox_cases ownerPid ownerTid with ⟨-, href⟩ | hopen
  · exact ⟨h.keep href.still href.sched, href.sched⟩
  · have hsched : (s.allocMailbox ownerPid ownerTid).2.sched = s.sched := by
      rw [s.allocMailbox_sched hopen.box_new.1]
      exact Sched.setWaiters_nil (h.waiters_new hopen.box_new.2)
    refine ⟨⟨hopen.blocks h.blocks, h.owned.congr (s.allocMailbox_threads ownerPid ownerTid),
      fun a ha => hopen.foreign (h.foreign a ha), ?_⟩, hsched⟩
    rw [hsched]
    exact h.woven.mono fun wq hq => hq.imp_left fun hin =>
      hopen.boxes.symm ▸ List.mem_cons_of_mem _ hin

omit h in
/-- The loop of `release_mailbox` over the mails, whatever the queue has become. -/
theorem drainLoop (fuel : Nat) (h : s.Coupled sems) (mb : Nat)
    (hs : MailState.drainLoop fuel s mb = some s') : s'.Coupled sems ∧ s'.boxes = s.boxes := by
  induction fuel generalizing s with
  | zero => exact nomatch hs
  | succ fuel ih =>
    unfold MailState.drainLoop at hs
    split_ifs at hs
    · cases hs
      exact ⟨h, rfl⟩
    · have hdel : Coupled { s with links := s.links.del (s.links mb).prev } sems :=
        h.keep ⟨rfl, fun _ => rfl, rfl, rfl, rfl, fun _ => rfl, fun _ => rfl, rfl, fun _ => rfl⟩ rfl
      obtain ⟨hdone, hboxes⟩ := ih (hdel.releaseMail _) hs
      exact ⟨hdone, hboxes.trans (releaseMail_boxes _ _)⟩

/-- A mailbox is released that no thread has and at which nobody waits. -/
theorem releaseMailbox (hmb : mb ∈ s.boxes) (hw : s.sched.waiters mb = [])
    (hfree : ∀ t ∈ s.sched.order, (s.sched.thread t).mailbox ≠ mb) :
    (s.releaseMailbox mb).Coupled sems := by
  have hdrained : ((MailState.drainLoop (s.registry.length + 1) s mb).getD s).Coupled sems ∧
      ((MailState.drainLoop (s.registry.length + 1) s mb).getD s).boxes = s.boxes ∧
      ((MailState.drainLoop (s.registry.length + 1) s mb).getD s).sched = s.sched := by
    cases hs : MailState.drainLoop (s.registry.length + 1) s mb with
    | none => exact ⟨h, rfl, rfl⟩
    | some s₁ =>
      obtain ⟨hdone, hboxes⟩ := drainLoop _ h mb hs
      exact ⟨hdone, hboxes, drainLoop_sched _ s mb s₁ hs⟩
  rw [releaseMailbox_eq (h.blocks.boxes mb hmb).1]
  generalize (MailState.drainLoop (s.registry.length + 1) s mb).getD s = s₁ at hdrained ⊢
  obtain ⟨hdone, hboxes, hsched⟩ := hdrained
  have hclosed := closed_closeMailbox hdone.blocks.kheap mb
  have hmb₁ : mb ∈ s₁.boxes := hboxes.symm ▸ hmb
  have hw₁ : s₁.sched.waiters mb = [] := hsched.symm ▸ hw
  have hsame : (s₁.closeMailbox mb).sched = s₁.sched := by
    rw [closeMailbox_sched]
    exact Sched.setWaiters_nil hw₁
  refine ⟨hclosed.blocks hdone.blocks hmb₁ (hsched ▸ hfree), ?_, fun a ha =>
    hclosed.foreign hdone.blocks hmb₁ (hdone.foreign a ha), ?_⟩
  · exact hdone.owned.congr (hsame.symm ▸ Sched.SameThreads.refl _)
  · rw [hsame]
    refine (hdone.woven.drop hw₁).mono fun wq hq => hq.1.imp_left fun hin => ?_
    exact (hclosed.boxes hdone.blocks wq).mpr ⟨hq.2, hin⟩

/-! ### Threads come and go -/

/-- Threads go; their mailboxes stay. -/
theorem fewer {sched : Sched} (hs : s.sched.Fewer sched) (hw : sched.Woven (s.Queue sems)) :
    (s.withSched sched).Coupled sems := by
  have hthreads : ∀ t ∈ sched.order,
      (sched.thread t).mailbox = 0 ∨ (sched.thread t).mailbox ∈ s.boxes := fun t ht => by
    rw [hs.mailbox]
    exact h.blocks.threads t (hs.order.subset ht)
  refine ⟨{ h.blocks with threads := hthreads }, ⟨h.owned.nodup.sublist hs.order, ?_⟩,
    fun a ha => ⟨(h.foreign a ha).ne, (h.foreign a ha).live, (h.foreign a ha).registry,
      (h.foreign a ha).boxes, (h.foreign a ha).handlers⟩, hw⟩
  intro t ht t' ht' hz heq
  change (sched.thread t).mailbox ≠ 0 at hz
  change (sched.thread t).mailbox = (sched.thread t').mailbox at heq
  rw [hs.mailbox] at hz
  rw [hs.mailbox, hs.mailbox] at heq
  exact h.owned.apart t (hs.order.subset ht) t' (hs.order.subset ht') hz heq

theorem threadCreate (hnew : t ∉ s.sched.order) (pid : Nat) :
    (s.threadCreate pid t).Coupled sems := by
  obtain ⟨hopen, hsched⟩ := h.allocMailbox pid t
  have hmailboxes := threadCreate_mailboxes h.blocks pid t
  have howned := threadCreate_owned h.blocks h.owned hnew pid
  rw [threadCreate_eq] at hmailboxes howned ⊢
  generalize s.allocMailbox pid t = res at hopen hsched hmailboxes howned ⊢
  obtain ⟨mb, s₁⟩ := res
  refine ⟨{ hopen.blocks with threads := hmailboxes }, howned, fun a ha =>
    ⟨(hopen.foreign a ha).ne, (hopen.foreign a ha).live, (hopen.foreign a ha).registry,
      (hopen.foreign a ha).boxes, (hopen.foreign a ha).handlers⟩, ?_⟩
  have hnew₁ : t ∉ s₁.sched.order := hsched.symm ▸ hnew
  exact (hopen.woven.enter hnew₁ rfl).congr (sameWaits_entered s₁.sched pid t mb)
    (entered_tidy hopen.woven.toTidy hnew₁ pid mb)

/-- A thread is deleted, and nobody else waits at its mailbox. -/
theorem threadDelete (hv : ∀ u ∈ s.sched.waiters (s.sched.thread t).mailbox, u = t) :
    (s.threadDelete t).Coupled sems := by
  rcases threadDelete_eq s t with heq | ⟨ht, horder, heq⟩
  · rw [heq]
    exact h
  rw [heq]
  have hleft := h.fewer (s.sched.fewer_threadDelete t) (h.woven.threadDelete t)
  by_cases hz : (s.sched.thread t).mailbox = 0
  · unfold MailState.releaseMailbox
    rw [if_pos hz]
    exact hleft
  have hmem {u : Nat} (hu : u ∈ (s.sched.threadDelete t).order) : u ≠ t ∧ u ∈ s.sched.order :=
    h.owned.nodup.mem_erase_iff.mp (horder ▸ hu)
  refine hleft.releaseMailbox ((h.blocks.threads t ht).resolve_left hz) ?_ fun u hu hbox => ?_
  · -- whoever were linked there now would have been linked before, and is not the one who has gone
    refine List.eq_nil_iff_forall_not_mem.mpr fun u hu => ?_
    exact (hmem (hleft.woven.live _ u hu)).1 (hv u (Sched.mem_waiters_of_threadDelete hu))
  · change ((s.sched.threadDelete t).thread u).mailbox = _ at hbox
    rw [(s.sched.fewer_threadDelete t).mailbox] at hbox
    obtain ⟨hne, hu⟩ := hmem hu
    exact hne (h.owned.apart u hu t ht (hbox.symm ▸ hz) hbox)

end Coupled

/-- `proc_exit_internal`, for the threads: they go, and their mailboxes stay. -/
def procExit (s : MailState) (pid : Nat) : MailState :=
  s.withSched (Sched.exitLoop (s.sched.order.filter fun t => (s.sched.thread t).pid == pid)
    s.sched).2

theorem Coupled.procExit (h : s.Coupled sems) (pid : Nat) : (s.procExit pid).Coupled sems := by
  refine h.fewer (Sched.fewer_exitLoop _ _) (h.woven.exitLoop (h.owned.nodup.filter _) ?_)
  exact fun t ht => List.mem_of_mem_filter ht

end MailState

/-! ## Steps of mailboxes -/

/-- Nobody waits at a mailbox that is released, apart from its owner who is deleted with it. -/
def MailOp.Vacated (s : MailState) : MailOp → Prop
  | .syscall proc cfg => Admitted proc cfg → MailboxCtrlCmd.decode cfg.cmd = some .release →
      s.sched.waiters cfg.mb = []
  | .threadDelete t => ∀ u ∈ s.sched.waiters (s.sched.thread t).mailbox, u = t
  | _ => True

section Mailboxes

open MailState

variable {s : MailState} {sems : List Nat}

theorem mailboxExec_coupled (h : s.Coupled sems) {cfg : MailboxCtrlConfig}
    (hmb : cfg.mb ≠ 0 → cfg.mb ∈ s.boxes)
    (hrelease : MailboxCtrlCmd.decode cfg.cmd = some .release → s.sched.waiters cfg.mb = [] ∧
      (cfg.mb ≠ 0 → ∀ t ∈ s.sched.order, (s.sched.thread t).mailbox ≠ cfg.mb)) :
    (mailboxExec s cfg).2.Coupled sems := by
  have hres := resolve_live h.blocks hmb
  unfold mailboxExec
  cases hdec : MailboxCtrlCmd.decode cfg.cmd with
  | none => exact h
  | some c =>
    cases c with
    | send => exact h.send cfg.m
    | listen => exact h.tryGetMail _
    | registerHandler => exact h.registerHandler hmb _
    | unregisterHandler => exact h.unregisterHandler hmb _
    | allocMail => exact h.allocMail
    | releaseMail => exact h.releaseMail cfg.m
    | alloc => exact (h.allocMailbox cfg.pid cfg.tid).1
    | release => grind [MailState.releaseMailbox, h.releaseMailbox]
    | subscribeMail => exact h.subscribe hres _
    | unsubscribeMail => exact h.unsubscribe hres _
    | listenBlock => exact h.listenBlock hres

/-- Every step of mailboxes and threads. -/
theorem MailOp.exec_coupled (h : s.Coupled sems) {op : MailOp} (hs : op.Sound s)
    (hv : op.Vacated s) : (op.exec s).Coupled sems := by
  cases op with
  | syscall proc cfg =>
    unfold exec
    dsimp only
    rcases mailboxSyscallIsr_cases proc s cfg with ⟨hadm, heq⟩ | ⟨-, heq⟩
    · rw [heq]
      exact mailboxExec_coupled h (fun hz => (hs hadm hz).1) fun hdec =>
        ⟨hv hadm hdec, fun hz => (hs hadm hz).2 hdec⟩
    · rw [heq]
      exact h
  | store m v => exact h.setMail m v
  | irq owner tid => exact h.dispatchUserModeIrq owner tid
  | timer => exact h.withSched s.sched.sameWaits_scheduleIfNeeded.sameThreads h.woven.schedule
  | threadBlock t =>
    exact h.withSched (s.sched.sameWaits_threadBlock t).sameThreads (h.woven.threadBlock t)
  | threadUnblock t =>
    exact h.withSched (s.sched.sameWaits_threadUnblock t).sameThreads (h.woven.threadUnblock t)
  | procBlock pid =>
    exact h.withSched (s.sched.sameWaits_setStates pid _).sameThreads (h.woven.setStates pid _)
  | procUnblock pid =>
    exact h.withSched (s.sched.sameWaits_setStates pid _).sameThreads (h.woven.setStates pid _)
  | threadCreate pid t => exact h.threadCreate hs pid
  | threadDelete t => exact h.threadDelete hv

/-- The heap gives a block to a new semaphore, or takes the block of one that goes. -/
theorem MailState.Coupled.withHeap (h : s.Coupled sems) {kheap : Pool} {locks : Nat → Bool}
    {sems' : List Nat} (hnodup : kheap.live.Nodup)
    (hlive : ∀ x ∈ s.kheap.live, (x ∈ sems → x ∈ sems') → x ∈ kheap.live)
    (hsems : ∀ a ∈ sems', a ∈ sems ∨ a ≠ 0 ∧ a ∉ s.kheap.live ∧ a ∈ kheap.live)
    (hw : s.sched.Woven (s.Queue sems')) :
    MailState.Coupled { s with kheap, locks } sems' := by
  have hkept {x : Nat} (hx : x ∈ s.kheap.live) (hf : ¬s.Foreign x) : x ∈ kheap.live :=
    hlive x hx fun hin => absurd (h.foreign x hin) hf
  have hb := h.blocks
  refine ⟨{ hb with
      metas := fun x hx => hkept (hb.metas x hx) fun hf => hf.registry hx
      kheap := hnodup
      boxes := fun x hx => ⟨(hb.boxes x hx).1, hkept (hb.boxes x hx).2.1 fun hf => hf.boxes hx,
        (hb.boxes x hx).2.2⟩
      handlers := fun mb hmb hd hhd => ⟨hkept (hb.handlers mb hmb hd hhd).1 fun hf =>
        hf.handlers mb hmb hd hhd rfl, (hb.handlers mb hmb hd hhd).2⟩ },
    ⟨h.owned.nodup, h.owned.apart⟩, fun a ha => ?_, hw⟩
  rcases hsems a ha with hold | ⟨hne, hnew, hin⟩
  · have hf := h.foreign a hold
    exact ⟨hf.ne, hlive a hf.live fun _ => ha, hf.registry, hf.boxes, hf.handlers⟩
  · exact ⟨hne, hin, fun hmem => hnew (hb.metas a hmem), fun hmem => hnew (hb.boxes a hmem).2.1,
      fun mb hmb hd hhd heq => hnew (heq ▸ (hb.handlers mb hmb hd hhd).1)⟩

end Mailboxes

/-! ## Mailboxes and semaphores together -/

/-- Mailboxes and threads, and semaphores on the same heap. -/
structure WaitState where
  mail : MailState
  head : List Nat
  sem : Nat → Semaphore
  nextId : Nat

/-- What can happen. -/
inductive WaitOp where
  | mail (op : MailOp)
  | create (value : Int)
  | destroy (a : Nat)
  | wait (id : Nat)
  | signal (id : Nat)
  /-- `wait_queue_wake_one` and `wait_queue_wake_one_locked`. -/
  | wakeOne (wq : Nat)
  | wakeByTid (wq t : Nat)
  | wakeAll (wq : Nat)
  | procExit (pid : Nat)

namespace WaitState

/-- What semaphores see. -/
def sems (s : WaitState) : SemState where
  kheap := s.mail.kheap
  locks := s.mail.locks
  head := s.head
  sem := s.sem
  nextId := s.nextId
  sched := s.mail.sched

/-- What semaphores have changed. -/
def withSems (s : WaitState) (v : SemState) : WaitState where
  mail := { s.mail with kheap := v.kheap, locks := v.locks, sched := v.sched }
  head := v.head
  sem := v.sem
  nextId := v.nextId

/-- Replace the mailboxes and threads. -/
def withMail (s : WaitState) (mail : MailState) : WaitState := { s with mail }

/-- Replace the threads. -/
def withSched (s : WaitState) (sched : Sched) : WaitState := s.withMail (s.mail.withSched sched)

/-- The wait queues that are there. -/
def Queue (s : WaitState) : Nat → Prop := s.mail.Queue s.head

end WaitState

/-- A step. -/
def WaitOp.exec (s : WaitState) : WaitOp → WaitState
  | .mail op => s.withMail (op.exec s.mail)
  | .create value => s.withSems (s.sems.create value).2
  | .destroy a => s.withSems (s.sems.destroy a).2
  | .wait id => s.withSems (s.sems.wait id).2
  | .signal id => s.withSems (s.sems.signal id).2
  | .wakeOne wq => s.withSched (s.mail.sched.waitQueueWakeOne wq)
  | .wakeByTid wq t => s.withSched (s.mail.sched.waitQueueWakeByTid wq t)
  | .wakeAll wq => s.withSched (s.mail.sched.waitQueueWakeAll wq)
  | .procExit pid => s.withMail (s.mail.procExit pid)

/-- What kernel code guarantees of a step. -/
def WaitOp.Sound (s : WaitState) : WaitOp → Prop
  | .mail op => op.Sound s.mail
  | .destroy a => a ∈ s.head
  | _ => True

/-- Nobody else waits at a mailbox that is released. -/
def WaitOp.Vacated (s : WaitState) : WaitOp → Prop
  | .mail op => op.Vacated s.mail
  | _ => True

namespace WaitState

/-- Mailboxes and semaphores are apart, and threads wait at them only. -/
structure Coupled (s : WaitState) : Prop where
  mail : s.mail.Coupled s.head
  head : s.head.Nodup

variable {s : WaitState}

namespace Coupled

variable (h : s.Coupled)
include h

theorem withSched {sched : Sched} (hth : s.mail.sched.SameThreads sched)
    (hw : sched.Woven s.Queue) : (s.withSched sched).Coupled :=
  ⟨h.mail.withSched hth hw, h.head⟩

theorem create (value : Int) : (s.withSems (s.sems.create value).2).Coupled := by
  rcases s.sems.create_cases value with ⟨-, hu⟩ | hc
  · generalize (s.sems.create value).2 = v at hu
    obtain ⟨kheap, locks, head, sem, nextId, sched⟩ := v
    obtain ⟨hlive, rfl, rfl, rfl, rfl⟩ := hu
    have hsame {x : Nat} : x ∈ kheap.live ↔ x ∈ s.mail.kheap.live := by
      rw [hlive]
      rfl
    refine ⟨h.mail.withHeap (hlive.symm ▸ h.mail.blocks.kheap) (fun x hx _ => hsame.mpr hx)
      (fun a ha => Or.inl ha) h.mail.woven, h.head⟩
  · generalize (s.sems.create value).1 = a at hc
    generalize (s.sems.create value).2 = v at hc
    obtain ⟨kheap, locks, head, sem, nextId, sched⟩ := v
    obtain ⟨⟨hne, hnew⟩, hlive, rfl, -, -, rfl, rfl⟩ := hc
    -- nobody is linked in a block that was free
    have hsched : s.mail.sched.setWaiters a [] = s.mail.sched :=
      Sched.setWaiters_nil (h.mail.waiters_new hnew)
    change WaitState.Coupled ⟨{ s.mail with kheap, locks, sched := s.mail.sched.setWaiters a [] },
      a :: s.head, sem, _⟩
    rw [hsched]
    refine ⟨h.mail.withHeap (hlive.symm ▸ List.nodup_cons.mpr ⟨hnew, h.mail.blocks.kheap⟩)
      (fun x hx _ => hlive.symm ▸ List.mem_cons_of_mem _ hx) (fun b hb => ?_)
      (h.mail.woven.mono fun _ hq => hq.imp_right (List.mem_cons_of_mem _)), ?_⟩
    · rcases List.mem_cons.mp hb with rfl | hb
      · exact Or.inr ⟨hne, hnew, hlive.symm ▸ List.mem_cons_self⟩
      · exact Or.inl hb
    · exact List.nodup_cons.mpr ⟨fun hin => hnew (h.mail.foreign a hin).live, h.head⟩

theorem destroy {a : Nat} (ha : a ∈ s.head) : (s.withSems (s.sems.destroy a).2).Coupled := by
  rcases s.sems.destroy_cases (h.mail.foreign a ha).ne with ⟨-, heq⟩ | ⟨hw, hd⟩
  · rw [heq]
    exact h
  · generalize (s.sems.destroy a).2 = v at hd
    obtain ⟨kheap, locks, head, sem, nextId, sched⟩ := v
    obtain ⟨hlive, rfl, rfl, rfl, rfl⟩ := hd
    have hnodup := h.mail.blocks.kheap
    refine ⟨h.mail.withHeap (hlive.symm ▸ hnodup.erase a) (fun x hx hkept => ?_)
      (fun b hb => Or.inl (List.mem_of_mem_erase hb)) ?_, h.head.erase a⟩
    · rw [hlive]
      refine hnodup.mem_erase_iff.mpr ⟨?_, hx⟩
      rintro rfl
      exact h.head.not_mem_erase (hkept ha)
    · refine (h.mail.woven.drop hw).mono fun wq hq => hq.1.imp_right fun hin => ?_
      exact h.head.mem_erase_iff.mpr ⟨hq.2, hin⟩

theorem wait (id : Nat) : (s.withSems (s.sems.wait id).2).Coupled := by
  unfold SemState.wait
  cases hget : s.sems.get id with
  | none => exact h
  | some a =>
    dsimp only
    have hq : s.Queue a := Or.inr (List.mem_of_find?_eq_some hget)
    split_ifs
    · exact ⟨h.mail.withSched (s.mail.sched.sameThreads_sleepLocked a)
        (h.mail.woven.sleepLocked (h.mail.queue_ne_zero hq) hq), h.head⟩
    · exact ⟨h.mail, h.head⟩

theorem signal (id : Nat) : (s.withSems (s.sems.signal id).2).Coupled := by
  unfold SemState.signal
  cases hget : s.sems.get id with
  | none => exact h
  | some a =>
    dsimp only
    split_ifs
    · exact ⟨h.mail.wakeOne a, h.head⟩
    · exact ⟨h.mail, h.head⟩

/-- Every step. -/
theorem step {op : WaitOp} (hs : op.Sound s) (hv : op.Vacated s) : (op.exec s).Coupled := by
  cases op with
  | mail op => exact ⟨MailOp.exec_coupled h.mail hs hv, h.head⟩
  | create value => exact h.create value
  | destroy a => exact h.destroy hs
  | wait id => exact h.wait id
  | signal id => exact h.signal id
  | wakeOne wq => exact ⟨h.mail.wakeOne wq, h.head⟩
  | wakeByTid wq t =>
    exact h.withSched (s.mail.sched.sameThreads_wakeByTid wq t) (h.mail.woven.wakeByTid wq t)
  | wakeAll wq => exact h.withSched (s.mail.sched.sameThreads_wakeAll wq) (h.mail.woven.wakeAll wq)
  | procExit pid => exact ⟨h.mail.procExit pid, h.head⟩

end Coupled

/-- There are no semaphores yet, and nobody waits. -/
structure Start (s : WaitState) : Prop where
  blocks : s.mail.Blocks
  owned : s.mail.Owned
  head : s.head = []
  run : ∀ t, s.mail.sched.run = some t → t ∈ s.mail.sched.order
  waiters : ∀ wq, s.mail.sched.waiters wq = []
  idle : ∀ t ∈ s.mail.sched.order, (s.mail.sched.thread t).waitingOn = 0

theorem Start.coupled (h : s.Start) : s.Coupled where
  mail := by
    refine ⟨h.blocks, h.owned, fun a ha => absurd (h.head ▸ ha) List.not_mem_nil, ?_⟩
    have hnil {wq t : Nat} (ht : t ∈ s.mail.sched.waiters wq) : False :=
      List.not_mem_nil (h.waiters wq ▸ ht)
    exact ⟨⟨h.owned.nodup, h.run, ⟨fun _ _ ht => (hnil ht).elim,
      fun wq => h.waiters wq ▸ List.nodup_nil, h.waiters 0⟩, fun _ _ ht => (hnil ht).elim⟩,
      fun t ht hon => absurd (h.idle t ht) hon⟩
  head := h.head ▸ List.nodup_nil

end WaitState

/-! ## Runs -/

/-- The runs of all that kernel code may do. -/
def queueSystem : System WaitState WaitOp := ⟨WaitOp.exec, fun s op => op.Sound s⟩

/-- The runs in which nobody waits at a mailbox that goes. -/
def vacatedSystem : System WaitState WaitOp :=
  ⟨WaitOp.exec, fun s op => op.Sound s ∧ op.Vacated s⟩

/-- In every state of every such run the links between threads and wait queues are coherent: a
thread waits for a queue if and only if it is linked there once, linked threads are live, and the
queue is one of a semaphore or of a mailbox that has not been freed. -/
theorem wait_links_coherent {s : WaitState} {ops : List WaitOp} (hs : s.Start)
    (hops : vacatedSystem.Legal s ops) :
    let s' := vacatedSystem.run s ops
    s'.mail.sched.Coherent fun wq => wq ∈ s'.mail.boxes ∨ wq ∈ s'.head := by
  intro s'
  have hcoupled : s'.Coupled := System.run_invariant (M := vacatedSystem) (I := WaitState.Coupled)
    (fun _ _ h hen => h.step hen.1 hen.2) hs.coupled hops
  exact hcoupled.mail.woven.coherent

instance (s : MailState) : (op : MailOp) → Decidable (op.Sound s)
  | .syscall proc cfg => inferInstanceAs (Decidable (Admitted proc cfg → cfg.mb ≠ 0 →
      cfg.mb ∈ s.boxes ∧ (MailboxCtrlCmd.decode cfg.cmd = some .release →
        ∀ t ∈ s.sched.order, (s.sched.thread t).mailbox ≠ cfg.mb)))
  | .irq owner _ => inferInstanceAs (Decidable (owner ∈ s.sched.order))
  | .threadCreate _ tid => inferInstanceAs (Decidable (tid ∉ s.sched.order))
  | .store _ _ | .timer | .threadBlock _ | .threadUnblock _ | .procBlock _ | .procUnblock _
  | .threadDelete _ => .isTrue trivial

instance (s : MailState) : (op : MailOp) → Decidable (op.Vacated s)
  | .syscall proc cfg => inferInstanceAs (Decidable (Admitted proc cfg →
      MailboxCtrlCmd.decode cfg.cmd = some .release → s.sched.waiters cfg.mb = []))
  | .threadDelete t => inferInstanceAs
      (Decidable (∀ u ∈ s.sched.waiters (s.sched.thread t).mailbox, u = t))
  | .irq _ _ | .threadCreate _ _ | .store _ _ | .timer | .threadBlock _ | .threadUnblock _
  | .procBlock _ | .procUnblock _ => .isTrue trivial

instance (s : WaitState) : (op : WaitOp) → Decidable (op.Sound s)
  | .mail op => inferInstanceAs (Decidable (op.Sound s.mail))
  | .destroy a => inferInstanceAs (Decidable (a ∈ s.head))
  | .create _ | .wait _ | .signal _ | .wakeOne _ | .wakeByTid _ _ | .wakeAll _ | .procExit _ =>
    .isTrue trivial

instance (s : WaitState) : (op : WaitOp) → Decidable (op.Vacated s)
  | .mail op => inferInstanceAs (Decidable (op.Vacated s.mail))
  | .destroy _ | .create _ | .wait _ | .signal _ | .wakeOne _ | .wakeByTid _ _ | .wakeAll _
  | .procExit _ => .isTrue trivial

instance (s : WaitState) (op : WaitOp) : Decidable (queueSystem.enabled s op) :=
  inferInstanceAs (Decidable (op.Sound s))

instance (s : WaitState) (op : WaitOp) : Decidable (vacatedSystem.enabled s op) :=
  inferInstanceAs (Decidable (op.Sound s ∧ op.Vacated s))

/-- One thread with its mailbox, and no semaphores. -/
def soloState : WaitState := ⟨aloneState, [], fun _ => ⟨0, 0, 0⟩, 0⟩

theorem soloState_start : soloState.Start :=
  ⟨aloneState_start.blocks, aloneState_start.owned, rfl, by decide, fun _ => rfl, by decide⟩

/-- The first thread waits at a semaphore; the second one at its mailbox, the block 100. -/
def asleepOps : List WaitOp :=
  [.mail (.threadCreate 1 2), .mail (.threadUnblock 2), .create 0, .wait 0,
    .mail (userCommand 10 0)]

theorem wait_links_coherent_asleep :
    let s := vacatedSystem.run soloState asleepOps
    s.mail.sched.waiters 101 = [1] ∧ s.mail.sched.waiters 100 = [2] ∧
      s.mail.sched.Coherent fun wq => wq ∈ s.mail.boxes ∨ wq ∈ s.head := by
  have hops : vacatedSystem.Legal soloState asleepOps := by decide
  exact ⟨by decide, by decide, wait_links_coherent soloState_start hops⟩

/-- Thread 3, in the kernel, sleeps at the mailbox of thread 1, and thread 2 deletes thread 1. -/
def evictedOps : List WaitOp :=
  [.mail (.threadCreate 1 2), .mail (.threadUnblock 2), .mail (.threadCreate 1 3),
    .mail (.threadUnblock 3), .mail .timer, .mail (.syscall none ⟨10, 0, 8, 0, 0, 0, 0, 0⟩),
    .mail (.threadDelete 1)]

/-- Afterwards thread 3 waits for a queue that has been freed, and is not linked there. -/
theorem wait_links_dangling :
    soloState.Start ∧ queueSystem.Legal soloState evictedOps ∧
      let s := queueSystem.run soloState evictedOps
      3 ∈ s.mail.sched.order ∧ (s.mail.sched.thread 3).waitingOn = 8 ∧
        8 ∉ s.mail.boxes ∧ 8 ∉ s.head ∧ 8 ∉ s.mail.kheap.live ∧ 3 ∉ s.mail.sched.waiters 8 :=
  ⟨soloState_start, by decide, by decide⟩

end Ukernel.Ipc
