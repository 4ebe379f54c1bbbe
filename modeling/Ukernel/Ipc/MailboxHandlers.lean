import Ukernel.Ipc.MailboxSystem

/-!
# Handlers of mailboxes

The functions that `send_mail` calls are those in the list of a mailbox, and the list of a mailbox
grows by one command only. A user cannot give that command: it has to name a mailbox, and the gate
refuses every command of a user that does.

## Main definitions

* `MailState.Tame`: no list of handlers has grown, and whoever has been called was in a list

## Main results

* `MailState.mailboxExec_tame`: every command but the one that registers
* `MailState.mailboxSyscallIsr_tame`: every command of a user
* `MailOp.exec_tame`
-/

namespace Ukernel.Ipc

open Kernel Lib Machine Mm Sync

namespace MailState

/-- No list of handlers has grown, and whoever has been called was in a list. -/
structure Tame (s s' : MailState) : Prop where
  handlers : ∀ mb, (s'.box mb).handlers ⊆ (s.box mb).handlers
  invoked : ∀ f ∈ s'.history.invoked,
    f ∈ s.history.invoked ∨ ∃ mb, ∃ h ∈ (s.box mb).handlers, h.handler = f

variable {s s' s'' : MailState} {m mb : Nat}

/-- Neither the mailboxes nor the calls have changed. -/
theorem Tame.of_eq (hbox : s'.box = s.box) (hinvoked : s'.history.invoked = s.history.invoked) :
    Tame s s' where
  handlers mb := by
    rw [hbox]
    exact List.Subset.refl _
  invoked f hf := Or.inl (hinvoked ▸ hf)

theorem Tame.refl (s : MailState) : Tame s s := .of_eq rfl rfl

theorem Tame.trans (h : Tame s s') (h' : Tame s' s'') : Tame s s'' where
  handlers mb := List.Subset.trans (h'.handlers mb) (h.handlers mb)
  invoked f hf := by
    rcases h'.invoked f hf with hf | ⟨mb, a, ha, rfl⟩
    · exact h.invoked f hf
    · exact Or.inr ⟨mb, a, h.handlers mb ha, rfl⟩

theorem Tame.after (h : Tame s' s'') (hbox : s'.box = s.box)
    (hinvoked : s'.history.invoked = s.history.invoked) : Tame s s'' :=
  (Tame.of_eq hbox hinvoked).trans h

/-- A mailbox that has been replaced by one with no more handlers. -/
theorem Tame.setBox (v : Mailbox) (hv : v.handlers ⊆ (s.box mb).handlers) :
    Tame s (s.setBox mb v) where
  handlers mb' := by
    change (Function.update s.box mb v mb').handlers ⊆ _
    by_cases hmb : mb' = mb
    · rw [hmb, Function.update_self]
      exact hv
    · rw [Function.update_of_ne hmb]
      exact List.Subset.refl _
  invoked _ hf := Or.inl hf

theorem setMeta_tame (s : MailState) (a : Nat) (v : MailMeta) : Tame s (s.setMeta a v) :=
  .of_eq rfl rfl

theorem allocMail_tame (s : MailState) : Tame s s.allocMail.2 := by
  unfold allocMail
  dsimp only
  split_ifs
  · exact .of_eq rfl rfl
  · exact .of_eq rfl rfl
  · unfold spinlockAlloc
    split <;> rename_i heq <;> split at heq <;> cases heq <;> exact .of_eq rfl rfl

theorem releaseMail_tame (s : MailState) (m : Nat) : Tame s (s.releaseMail m) := by
  unfold releaseMail
  split
  · exact .refl s
  · dsimp only
    split_ifs <;> exact .of_eq rfl rfl

theorem enqueue_tame (s : MailState) (mb a : Nat) : Tame s (s.enqueue mb a) := .of_eq rfl rfl

theorem invokeHandlers_tame (s : MailState) (mb : Nat) : Tame s (s.invokeHandlers mb) where
  handlers _ := List.Subset.refl _
  invoked f hf := by
    rcases List.mem_append.mp hf with hf | hf
    · grind
    · exact Or.inl hf

theorem sendMail_tame (s : MailState) (mb m : Nat) : Tame s (s.sendMail mb m).2 := by
  unfold sendMail
  split_ifs
  · exact .refl s
  · exact (s.invokeHandlers_tame mb).trans (releaseMail_tame _ m)
  · split
    · exact s.releaseMail_tame m
    · exact s.enqueue_tame mb _

theorem deliver_tame (s : MailState) (m mb : Nat) : Tame s (deliver m s mb) := by
  unfold deliver
  split_ifs
  · exact s.sendMail_tame mb m
  · dsimp only
    split_ifs
    · exact s.allocMail_tame
    · refine s.allocMail_tame.trans ?_
      split <;> exact .of_eq rfl rfl
  · exact .refl s

theorem foldl_deliver_tame (m : Nat) (mbs : List Nat) (s : MailState) :
    Tame s (mbs.foldl (deliver m) s) := by
  induction mbs generalizing s with
  | nil => exact .refl s
  | cons mb mbs ih => exact (s.deliver_tame m mb).trans (ih _)

theorem send_tame (s : MailState) (m : Nat) : Tame s (s.send m).2 := by
  unfold send
  split_ifs
  · exact .refl s
  · unfold broadcast
    split_ifs
    · exact s.releaseMail_tame m
    · split
      · exact .refl s
      · exact ((s.setMeta_tame _ _).trans (foldl_deliver_tame m _ _)).trans (releaseMail_tame _ m)
  · grind [s.releaseMail_tame, s.sendMail_tame]

theorem tryGetMail_tame (s : MailState) (mb : Nat) : Tame s (s.tryGetMail mb).2 := by
  unfold tryGetMail
  split_ifs
  · exact .refl s
  · exact .of_eq rfl rfl

theorem unregisterHandler_tame (s : MailState) (mb handler : Nat) :
    Tame s (s.unregisterHandler mb handler).2 := by
  unfold unregisterHandler
  split_ifs
  · exact .refl s
  · dsimp only
    split
    · exact .refl s
    · rename_i h _
      have hset : Tame s (s.setBox mb { s.box mb with handlers := (s.box mb).handlers.erase h }) :=
        .setBox _ List.erase_subset
      exact hset.trans (.of_eq rfl rfl)

theorem subscribe_tame (s : MailState) (mb magic : Nat) : Tame s (s.subscribe mb magic).2 := by
  unfold subscribe
  dsimp only
  split_ifs
  · exact .refl s
  · exact .refl s
  · exact .setBox _ (List.Subset.refl _)
  · exact .refl s

theorem unsubscribe_tame (s : MailState) (mb magic : Nat) :
    Tame s (s.unsubscribe mb magic).2 := by
  unfold unsubscribe
  dsimp only
  split_ifs
  · exact .refl s
  · exact .setBox _ (List.Subset.refl _)
  · exact .refl s

theorem allocMailbox_tame (s : MailState) (ownerPid ownerTid : Int) :
    Tame s (s.allocMailbox ownerPid ownerTid).2 := by
  unfold allocMailbox
  dsimp only
  split_ifs
  · exact .of_eq rfl rfl
  · unfold spinlockAlloc
    split <;> rename_i heq <;> split at heq <;> cases heq
    · exact .of_eq rfl rfl
    · exact Tame.trans (.setBox _ (List.nil_subset _)) (.of_eq rfl rfl)

theorem drainLoop_tame (fuel : Nat) (s : MailState) (mb : Nat) (h : drainLoop fuel s mb = some s') :
    Tame s s' := by
  induction fuel generalizing s with
  | zero => exact nomatch h
  | succ fuel ih =>
    rw [drainLoop] at h
    by_cases hempty : s.links.Empty mb
    · rw [if_pos hempty] at h
      exact Option.some.inj h ▸ Tame.refl s
    · rw [if_neg hempty] at h
      exact ((releaseMail_tame _ _).trans (ih _ h)).after rfl rfl

theorem foldl_free_box (hs : List MailHandler) (s : MailState) :
    Tame s (hs.foldl (fun s h => { s with kheap := s.kheap.free h.addr }) s) := by
  induction hs generalizing s with
  | nil => exact .refl s
  | cons h hs ih => exact (ih _).after rfl rfl

theorem releaseMailbox_tame (s : MailState) (mb : Nat) : Tame s (s.releaseMailbox mb) := by
  unfold releaseMailbox
  split_ifs
  · exact .refl s
  have hdrain : Tame s ((drainLoop (s.registry.length + 1) s mb).getD s) := by
    cases h : drainLoop (s.registry.length + 1) s mb with
    | none => exact .refl s
    | some s' => exact drainLoop_tame _ s mb h
  set s₁ := (drainLoop (s.registry.length + 1) s mb).getD s
  set s₂ := (s₁.box mb).handlers.foldl (fun s h => { s with kheap := s.kheap.free h.addr }) s₁
  have hfree : Tame s s₂ := hdrain.trans (foldl_free_box _ s₁)
  have hset : Tame s₂ (s₂.setBox mb ⟨0, 0, [], 0, []⟩) := .setBox _ (List.nil_subset _)
  exact (hfree.trans hset).trans (.of_eq rfl rfl)

theorem dispatchUserModeIrq_tame (s : MailState) (owner : Nat) (tid : Int) :
    Tame s (s.dispatchUserModeIrq owner tid) := by
  unfold dispatchUserModeIrq
  dsimp only
  split_ifs
  · exact .refl s
  · exact s.allocMail_tame
  · refine s.allocMail_tame.trans (Tame.trans ?_ (sendMail_tame _ _ _))
    exact .of_eq rfl rfl

theorem threadCreate_tame (s : MailState) (pid tid : Nat) : Tame s (s.threadCreate pid tid) :=
  (s.allocMailbox_tame pid tid).trans (.of_eq rfl rfl)

theorem threadDelete_tame (s : MailState) (tid : Nat) : Tame s (s.threadDelete tid) := by
  unfold threadDelete
  split_ifs
  · exact .refl s
  · exact (releaseMailbox_tame _ _).after rfl rfl
  · split
    · exact .refl s
    · exact (releaseMailbox_tame _ _).after rfl rfl

/-- Every command but the one that registers a handler. -/
theorem mailboxExec_tame (s : MailState) (cfg : MailboxCtrlConfig)
    (h : MailboxCtrlCmd.decode cfg.cmd ≠ some .registerHandler) :
    Tame s (mailboxExec s cfg).2 := by
  unfold mailboxExec
  cases hdec : MailboxCtrlCmd.decode cfg.cmd with
  | none => exact .refl s
  | some cmd =>
    cases cmd with
    | send => exact s.send_tame cfg.m
    | listen => exact s.tryGetMail_tame _
    | listenBlock =>
      dsimp only
      unfold listenBlock
      split_ifs
      · exact .refl s
      · exact .of_eq rfl rfl
      · exact .refl s
    | registerHandler => exact absurd hdec h
    | unregisterHandler => exact s.unregisterHandler_tame cfg.mb cfg.handler
    | allocMail => exact s.allocMail_tame
    | releaseMail => exact s.releaseMail_tame cfg.m
    | alloc => exact s.allocMailbox_tame cfg.pid cfg.tid
    | release => exact s.releaseMailbox_tame cfg.mb
    | subscribeMail => exact s.subscribe_tame (resolve s cfg).mb (resolve s cfg).magic
    | unsubscribeMail => exact s.unsubscribe_tame (resolve s cfg).mb (resolve s cfg).magic

/-- A handler has been added to a list, or nothing has changed. -/
theorem registerHandler_cases (s : MailState) (mb handler : Nat) :
    (s.registerHandler mb handler).1 ≠ 0 ∧ Tame s (s.registerHandler mb handler).2 ∨
      mb ≠ 0 ∧ (s.registerHandler mb handler).1 = 0 ∧
        (s.registerHandler mb handler).2.history.invoked = s.history.invoked ∧
        ∀ mb', ∀ h ∈ ((s.registerHandler mb handler).2.box mb').handlers,
          h ∈ (s.box mb').handlers ∨ h.handler = handler := by
  unfold registerHandler
  split_ifs with hz
  · exact Or.inl ⟨eInval_ne_zero, .refl s⟩
  dsimp only
  split_ifs
  · exact Or.inl ⟨eNomem_ne_zero, .of_eq rfl rfl⟩
  refine Or.inr ⟨(not_or.mp hz).1, rfl, rfl, fun mb' h hh => ?_⟩
  unfold MailState.setBox at hh
  by_cases hmb : mb' = mb
  · grind
  · simp only [Function.update_of_ne hmb] at hh
    exact Or.inl hh

/-- A user registers nothing. -/
theorem mailboxSyscallIsr_tame (s : MailState) (p : Pcb) (hp : p.priv ≠ .kernel)
    (cfg : MailboxCtrlConfig) : Tame s (mailboxSyscallIsr (some p) s cfg).2 := by
  rcases mailboxSyscallIsr_cases (some p) s cfg with ⟨hadm, heq⟩ | ⟨-, heq⟩
  · rw [heq]
    have hmb : cfg.mb = 0 := (hadm.resolve_left hp).1
    by_cases hreg : MailboxCtrlCmd.decode cfg.cmd = some .registerHandler
    · grind [s.registerHandler_cases, mailboxExec]
    · exact s.mailboxExec_tame cfg hreg
  · rw [heq]
    exact .refl s

end MailState

/-- A step that neither interrupts nor creates or deletes a thread. -/
def MailOp.Plain : MailOp → Prop
  | .irq _ _ => False
  | .threadCreate _ _ => False
  | .threadDelete _ => False
  | _ => True

/-- The threads stay what they are. -/
theorem MailOp.exec_threads (s : MailState) {op : MailOp} (h : op.Plain) :
    s.sched.SameThreads (op.exec s).sched := by
  cases op with
  | syscall proc cfg =>
    rcases mailboxSyscallIsr_cases proc s cfg with ⟨-, heq⟩ | ⟨-, heq⟩
    · unfold exec
      dsimp only
      rw [heq]
      exact MailState.mailboxExec_threads s cfg
    · unfold exec
      dsimp only
      rw [heq]
      exact Sched.SameThreads.refl _
  | store m v => exact Sched.SameThreads.refl _
  | irq owner tid => exact h.elim
  | timer => exact s.sched.sameWaits_scheduleIfNeeded.sameThreads
  | threadBlock tid => exact (s.sched.sameWaits_threadBlock tid).sameThreads
  | threadUnblock tid => exact (s.sched.sameWaits_threadUnblock tid).sameThreads
  | procBlock pid => exact (s.sched.sameWaits_setStates pid _).sameThreads
  | procUnblock pid => exact (s.sched.sameWaits_setStates pid _).sameThreads
  | threadCreate pid tid => exact h.elim
  | threadDelete tid => exact h.elim

/-- A step registers no handler, or it is the command that does. -/
theorem MailOp.exec_tame (s : MailState) {op : MailOp} (h : op.Plain)
    (hreg : ∀ proc cfg, op = .syscall proc cfg → Admitted proc cfg →
      MailboxCtrlCmd.decode cfg.cmd ≠ some .registerHandler) : s.Tame (op.exec s) := by
  cases op with
  | syscall proc cfg =>
    rcases mailboxSyscallIsr_cases proc s cfg with ⟨hadm, heq⟩ | ⟨-, heq⟩
    · grind [s.mailboxExec_tame, exec]
    · unfold exec
      dsimp only
      rw [heq]
      exact .refl s
  | store m v => exact .of_eq rfl rfl
  | irq owner tid => exact h.elim
  | timer => exact .of_eq rfl rfl
  | threadBlock tid => exact .of_eq rfl rfl
  | threadUnblock tid => exact .of_eq rfl rfl
  | procBlock pid => exact .of_eq rfl rfl
  | procUnblock pid => exact .of_eq rfl rfl
  | threadCreate pid tid => exact h.elim
  | threadDelete tid => exact h.elim

end Ukernel.Ipc
