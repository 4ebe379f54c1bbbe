import Ukernel.Ipc.MailboxBoxes
import Ukernel.Machine.System

/-!
# The mailbox system

Everything that can happen to mailboxes, one step at a time: a thread traps into the gate, a user
writes into a mail, an interrupt is turned into a mail, the scheduler acts, threads come and go.

## What the steps assume

A user may trap with any command and any values. Kernel code may name a mailbox, and then names one
that is live; it releases only mailboxes that no thread has, which leaves those of threads to
`thread_delete_internal`. An interrupt is for a thread that is there. `MailOp.Sound` says this, and
nothing of it limits a user.

## Main definitions

* `MailOp`, `MailOp.exec`: the steps
* `MailOp.Sound`: what kernel code guarantees
* `MailState.Owned`: threads have mailboxes of their own
* `MailState.Start`: mailboxes before the first mail

## Main results

* `MailState.mailboxExec_threads`: no command changes which threads there are
* `MailState.threadDelete_spec`: a thread goes, with its mailbox
-/

namespace Ukernel.Ipc

open Kernel Lib Machine Mm Sync

namespace MailState

/-- `thread_create_ex_internal`: a thread and its mailbox. -/
def threadCreate (s : MailState) (pid tid : Nat) : MailState :=
  let (mb, s) := s.allocMailbox pid tid
  let state := if s.sched.run = none then ThreadState.ready else .pending
  s.withSched { s.sched with
    order := tid :: s.sched.order
    thread := Function.update s.sched.thread tid ⟨pid, state, false, mb, 0⟩
    run := if s.sched.run = none then some tid else s.sched.run }

/-- A thread leaves its wait queue and `thread_head`. -/
def unlinkThread (s : MailState) (tid : Nat) : MailState :=
  s.withSched { s.sched.detachWait tid with order := s.sched.order.erase tid }

/-- `thread_delete_internal`: a thread goes, and its mailbox with it. -/
def threadDelete (s : MailState) (tid : Nat) : MailState :=
  if s.sched.run = none ∨ tid ∉ s.sched.order then s
  else
    let mb := (s.sched.thread tid).mailbox
    if s.sched.run ≠ some tid then (s.unlinkThread tid).releaseMailbox mb
    else
      match s.sched.findNextRunnable tid with
      | (none, _) => s
      | (some next, sched) =>
        ((s.withSched { sched with run := some next }).unlinkThread tid).releaseMailbox mb

end MailState

/-- What can happen. -/
inductive MailOp where
  /-- The running thread traps, on behalf of a process. -/
  | syscall (proc : Option Pcb) (cfg : MailboxCtrlConfig)
  /-- A user writes to a mail. -/
  | store (m : Nat) (v : Mail)
  /-- An interrupt that a thread has requested. -/
  | irq (owner : Nat) (tid : Int)
  /-- The timer. -/
  | timer
  | threadBlock (tid : Nat)
  | threadUnblock (tid : Nat)
  | procBlock (pid : Nat)
  | procUnblock (pid : Nat)
  | threadCreate (pid tid : Nat)
  | threadDelete (tid : Nat)

/-- A step. -/
def MailOp.exec (s : MailState) : MailOp → MailState
  | .syscall proc cfg => (mailboxSyscallIsr proc s cfg).2
  | .store m v => s.setMail m v
  | .irq owner tid => s.dispatchUserModeIrq owner tid
  | .timer => s.withSched s.sched.scheduleIfNeeded
  | .threadBlock tid => s.withSched (s.sched.threadBlock tid)
  | .threadUnblock tid => s.withSched (s.sched.threadUnblock tid)
  | .procBlock pid => s.withSched (s.sched.procBlock pid)
  | .procUnblock pid => s.withSched (s.sched.procUnblock pid)
  | .threadCreate pid tid => s.threadCreate pid tid
  | .threadDelete tid => s.threadDelete tid

/-- The gate lets a command pass. -/
def Admitted (proc : Option Pcb) (cfg : MailboxCtrlConfig) : Prop :=
  match proc with
  | none => True
  | some p => p.priv = .kernel ∨ cfg.mb = 0 ∧ capCheck p.capabilities (.ipc 1) = 0

instance : (proc : Option Pcb) → (cfg : MailboxCtrlConfig) → Decidable (Admitted proc cfg)
  | none, _ => .isTrue trivial
  | some p, cfg => inferInstanceAs
    (Decidable (p.priv = .kernel ∨ cfg.mb = 0 ∧ capCheck p.capabilities (.ipc 1) = 0))

/-- The gate runs a command or leaves everything as it is. -/
theorem mailboxSyscallIsr_cases (proc : Option Pcb) (s : MailState) (cfg : MailboxCtrlConfig) :
    Admitted proc cfg ∧ mailboxSyscallIsr proc s cfg = mailboxExec s cfg ∨
      ¬Admitted proc cfg ∧ (mailboxSyscallIsr proc s cfg).2 = s := by
  unfold Admitted mailboxSyscallIsr
  cases proc with
  | none => exact Or.inl ⟨trivial, rfl⟩
  | some p => grind

/-- What kernel code guarantees of a step. -/
def MailOp.Sound (s : MailState) : MailOp → Prop
  | .syscall proc cfg => Admitted proc cfg → cfg.mb ≠ 0 → cfg.mb ∈ s.boxes ∧
      (MailboxCtrlCmd.decode cfg.cmd = some .release →
        ∀ t ∈ s.sched.order, (s.sched.thread t).mailbox ≠ cfg.mb)
  | .irq owner _ => owner ∈ s.sched.order
  | .threadCreate _ tid => tid ∉ s.sched.order
  | _ => True

namespace MailState

/-- Threads are listed once and have mailboxes of their own. -/
structure Owned (s : MailState) : Prop where
  nodup : s.sched.order.Nodup
  apart : ∀ t ∈ s.sched.order, ∀ t' ∈ s.sched.order, (s.sched.thread t).mailbox ≠ 0 →
    (s.sched.thread t).mailbox = (s.sched.thread t').mailbox → t = t'

/-- Mailboxes before the first mail. -/
structure Start (s : MailState) : Prop where
  blocks : s.Blocks
  owned : s.Owned
  registry : s.registry = []
  links : ∀ mb ∈ s.boxes, s.links mb = ⟨mb, mb⟩
  history : ∀ mb ∈ s.boxes, s.history.enqueued mb = [] ∧ s.history.returned mb = []

variable {s s' s'' : MailState} {q q' q'' : Nat → List Nat} {m a mb tid : Nat} {A : Nat → Prop}

theorem Start.inv (h : s.Start) : s.Inv fun _ => [] where
  blocks := h.blocks
  queues := by
    refine ⟨fun mb hmb => ⟨?_, by simp⟩, fun mb _ a ha => absurd ha List.not_mem_nil,
      fun mb _ mb' _ a ha => absurd ha List.not_mem_nil⟩
    simp [Chain, h.links mb hmb]
  logged mb hmb := by simp [h.history mb hmb]
  single a ha := by
    rw [h.registry] at ha
    exact absurd ha List.not_mem_nil

/-! ## Threads -/

/-- `Owned` is about the threads and nothing else. -/
theorem Owned.congr (h : s.Owned) (hs : s.sched.SameThreads s'.sched) : s'.Owned where
  nodup := by
    rw [hs.order]
    exact h.nodup
  apart := by
    simp only [hs.order, hs.mailbox]
    exact h.apart

theorem releaseMail_sched (s : MailState) (m : Nat) : (s.releaseMail m).sched = s.sched := by
  unfold releaseMail
  split
  · rfl
  · dsimp only
    split_ifs <;> rfl

theorem allocMail_sched (s : MailState) : s.allocMail.2.sched = s.sched := by
  rcases s.allocMail_cases with ⟨-, h⟩ | ⟨a, h⟩
  · exact h.sched
  · exact h.sched

theorem enqueue_threads (s : MailState) (mb a : Nat) :
    s.sched.SameThreads (s.enqueue mb a).sched := s.sched.sameThreads_wakeOne mb

theorem sendMail_threads (s : MailState) (mb m : Nat) :
    s.sched.SameThreads (s.sendMail mb m).2.sched := by
  unfold sendMail
  split_ifs
  · exact Sched.SameThreads.refl _
  · rw [releaseMail_sched]
    exact Sched.SameThreads.refl _
  · split
    · rw [releaseMail_sched]
      exact Sched.SameThreads.refl _
    · exact s.enqueue_threads mb _

theorem deliver_threads (s : MailState) (mb m : Nat) :
    s.sched.SameThreads (deliver m s mb).sched := by
  unfold deliver
  split_ifs
  · exact s.sendMail_threads mb m
  · dsimp only
    have halloc := s.allocMail_sched
    split_ifs
    · rw [halloc]
      exact Sched.SameThreads.refl _
    · split <;> rw [← halloc]
      · exact Sched.sameThreads_wakeOne _ mb
      · exact Sched.sameThreads_wakeOne _ mb
  · exact Sched.SameThreads.refl _

theorem foldl_deliver_threads (mbs : List Nat) (s : MailState) (m : Nat) :
    s.sched.SameThreads (mbs.foldl (deliver m) s).sched := by
  induction mbs generalizing s with
  | nil => exact Sched.SameThreads.refl _
  | cons mb mbs ih => exact (s.deliver_threads mb m).trans (ih _)

theorem send_threads (s : MailState) (m : Nat) : s.sched.SameThreads (s.send m).2.sched := by
  unfold send
  split_ifs
  · exact Sched.SameThreads.refl _
  · unfold broadcast
    split_ifs
    · rw [releaseMail_sched]
      exact Sched.SameThreads.refl _
    · split
      · exact Sched.SameThreads.refl _
      · rw [releaseMail_sched]
        exact foldl_deliver_threads _ (s.setMeta _ _) m
  · grind [releaseMail_sched, Sched.SameThreads.refl, s.sendMail_threads]

theorem drainLoop_sched (fuel : Nat) (s : MailState) (mb : Nat) :
    ∀ s', drainLoop fuel s mb = some s' → s'.sched = s.sched := by
  induction fuel generalizing s with
  | zero => exact fun s' h => nomatch h
  | succ fuel ih => grind [releaseMail_sched, drainLoop]

theorem releaseMailbox_threads (s : MailState) (mb : Nat) :
    s.sched.SameThreads (s.releaseMailbox mb).sched := by
  by_cases hz : mb = 0
  · unfold releaseMailbox
    rw [if_pos hz]
    exact Sched.SameThreads.refl _
  · rw [releaseMailbox_eq hz]
    have hdrain : ((drainLoop (s.registry.length + 1) s mb).getD s).sched = s.sched := by
      cases h : drainLoop (s.registry.length + 1) s mb with
      | none => rfl
      | some s' => exact drainLoop_sched _ s mb s' h
    rw [← hdrain]
    unfold closeMailbox
    rw [freeHandlers_eq]
    exact ⟨rfl, fun _ => rfl, fun _ => rfl⟩

theorem allocMailbox_threads (s : MailState) (ownerPid ownerTid : Int) :
    s.sched.SameThreads (s.allocMailbox ownerPid ownerTid).2.sched := by
  rcases s.allocMailbox_cases ownerPid ownerTid with ⟨-, h⟩ | h
  · rw [h.sched]
    exact Sched.SameThreads.refl _
  · exact ⟨h.order, fun t => by rw [h.thread], fun t => by rw [h.thread]⟩

theorem registerHandler_sched (s : MailState) (mb handler : Nat) :
    (s.registerHandler mb handler).2.sched = s.sched := by
  unfold registerHandler
  dsimp only
  split_ifs <;> rfl

theorem unregisterHandler_sched (s : MailState) (mb handler : Nat) :
    (s.unregisterHandler mb handler).2.sched = s.sched := by
  unfold unregisterHandler
  dsimp only
  split_ifs
  · rfl
  · split <;> rfl

theorem subscribe_sched (s : MailState) (mb magic : Nat) :
    (s.subscribe mb magic).2.sched = s.sched := by
  unfold subscribe
  dsimp only
  split_ifs <;> rfl

theorem unsubscribe_sched (s : MailState) (mb magic : Nat) :
    (s.unsubscribe mb magic).2.sched = s.sched := by
  unfold unsubscribe
  dsimp only
  split_ifs <;> rfl

theorem tryGetMail_sched (s : MailState) (mb : Nat) : (s.tryGetMail mb).2.sched = s.sched := by
  unfold tryGetMail
  split_ifs <;> rfl

theorem listenBlock_threads (s : MailState) (mb : Nat) :
    s.sched.SameThreads (listenBlock s mb).2.sched := by
  unfold listenBlock
  split_ifs
  · exact Sched.SameThreads.refl _
  · exact s.sched.sameThreads_sleepLocked mb
  · exact Sched.SameThreads.refl _

/-- No command changes which threads there are. -/
theorem mailboxExec_threads (s : MailState) (cfg : MailboxCtrlConfig) :
    s.sched.SameThreads (mailboxExec s cfg).2.sched := by
  have hrefl {s' : MailState} (h : s'.sched = s.sched) : s.sched.SameThreads s'.sched := by
    rw [h]
    exact Sched.SameThreads.refl _
  unfold mailboxExec
  split
  · exact s.send_threads _
  · exact hrefl (s.tryGetMail_sched _)
  · exact listenBlock_threads s _
  · exact hrefl (s.registerHandler_sched _ _)
  · exact hrefl (s.unregisterHandler_sched _ _)
  · exact hrefl s.allocMail_sched
  · exact hrefl (s.releaseMail_sched _)
  · exact s.allocMailbox_threads _ _
  · exact s.releaseMailbox_threads _
  · exact hrefl (s.subscribe_sched _ _)
  · exact hrefl (s.unsubscribe_sched _ _)
  · exact Sched.SameThreads.refl _

theorem dispatchUserModeIrq_threads (s : MailState) (owner : Nat) (tid : Int) :
    s.sched.SameThreads (s.dispatchUserModeIrq owner tid).sched := by
  unfold dispatchUserModeIrq
  dsimp only
  have halloc := s.allocMail_sched
  split_ifs
  · exact Sched.SameThreads.refl _
  · rw [halloc]
    exact Sched.SameThreads.refl _
  · rw [← halloc]
    exact sendMail_threads (s.allocMail.2.setMail _ _) _ _

/-! ## Threads come and go -/

/-- Any change to the threads that leaves them with live mailboxes. -/
theorem Inv.withThreads (hi : s.Inv q) {sched : Sched} (h : ∀ t ∈ sched.order,
    (sched.thread t).mailbox = 0 ∨ (sched.thread t).mailbox ∈ s.boxes) :
    Flow A s q (s.withSched sched) q := by
  have hb := hi.blocks
  refine Flow.of_eq ⟨⟨⟨hb.registry, hb.metas, hb.payloads, hb.inj, hb.kheap, hb.uheap, hb.boxes,
    hb.boxes_nodup, hb.handlers, hb.handlers_nodup, hb.handlers_apart, h⟩,
    ⟨hi.queues.ring, hi.queues.queued, hi.queues.apart⟩, hi.logged⟩, hi.single⟩ rfl (fun _ => rfl)
    fun _ _ _ => Iff.rfl

/-- One effect after another, if the first one leaves all mails alone. -/
theorem Flow.trans (h : Flow (fun _ => False) s q s' q') (h' : Flow A s' q' s'' q'')
    (hreg : s'.registry = s.registry) (hu : s'.uheap.live = s.uheap.live) :
    Flow A s q s'' q'' where
  inv := h'.inv
  others b hmem hnot := by
    obtain ⟨h₁, h₂, h₃⟩ := h.others b hmem not_false
    obtain ⟨h₁', h₂', h₃'⟩ := h'.others b h₁ hnot
    exact ⟨h₁', h₂'.trans h₂, h₃'.trans h₃⟩
  fresh b hmem hnot := by
    rw [← hu]
    exact h'.fresh b hmem (hreg.symm ▸ hnot)

/-- The threads once another one has been created. -/
def entered (sched : Sched) (pid tid mb : Nat) : Sched :=
  { sched with
    order := tid :: sched.order
    thread := Function.update sched.thread tid
      ⟨pid, if sched.run = none then .ready else .pending, false, mb, 0⟩
    run := if sched.run = none then some tid else sched.run }

theorem threadCreate_eq (s : MailState) (pid tid : Nat) : s.threadCreate pid tid =
    (s.allocMailbox pid tid).2.withSched
      (entered (s.allocMailbox pid tid).2.sched pid tid (s.allocMailbox pid tid).1) := rfl

theorem entered_mailbox (sched : Sched) (pid tid mb t : Nat) :
    ((entered sched pid tid mb).thread t).mailbox =
      if t = tid then mb else (sched.thread t).mailbox := by
  change (Function.update sched.thread tid _ t).mailbox = _
  by_cases ht : t = tid
  · rw [ht, Function.update_self, if_pos rfl]
  · rw [Function.update_of_ne ht, if_neg ht]

/-- The mailboxes of all threads are live, the one of the new thread too. -/
theorem threadCreate_mailboxes (hb : s.Blocks) (pid tid : Nat) :
    ∀ t ∈ (s.threadCreate pid tid).sched.order,
      ((s.threadCreate pid tid).sched.thread t).mailbox = 0 ∨
      ((s.threadCreate pid tid).sched.thread t).mailbox ∈ (s.allocMailbox pid tid).2.boxes := by
  have hsame := s.allocMailbox_threads pid tid
  rw [threadCreate_eq]
  intro t ht
  change ((entered _ pid tid _).thread t).mailbox = 0 ∨
    ((entered _ pid tid _).thread t).mailbox ∈ _
  rw [entered_mailbox]
  split_ifs with heq
  · rcases s.allocMailbox_cases pid tid with ⟨hzero, -⟩ | hopen
    · exact Or.inl hzero
    · exact Or.inr (hopen.boxes ▸ List.mem_cons_self)
  · have hold : t ∈ s.sched.order := hsame.order ▸ (List.mem_cons.mp ht).resolve_left heq
    rw [hsame.mailbox]
    refine (hb.threads t hold).imp_right fun hin => ?_
    rcases s.allocMailbox_cases pid tid with ⟨-, href⟩ | hopen
    · exact href.still.boxes.symm ▸ hin
    · exact hopen.boxes ▸ List.mem_cons_of_mem _ hin

/-- The new thread is the only one whose mailbox is new. -/
theorem threadCreate_owned (hb : s.Blocks) (ho : s.Owned) (hnew : tid ∉ s.sched.order)
    (pid : Nat) : (s.threadCreate pid tid).Owned := by
  have hsame := s.allocMailbox_threads pid tid
  have hfresh : ∀ t ∈ s.sched.order, (s.sched.thread t).mailbox ≠ 0 →
      (s.sched.thread t).mailbox ≠ (s.allocMailbox pid tid).1 := by
    intro t ht hz heq
    rcases s.allocMailbox_cases pid tid with ⟨hzero, -⟩ | hopen
    · exact hz (heq.trans hzero)
    · grind [hb.threads, hopen.box_new, hb.boxes]
  rw [threadCreate_eq]
  refine ⟨?_, fun t ht t' ht' hz heq => ?_⟩
  · change (tid :: (s.allocMailbox pid tid).2.sched.order).Nodup
    rw [hsame.order]
    exact List.nodup_cons.mpr ⟨hnew, ho.nodup⟩
  · have hold {t : Nat} (ht : t ∈ tid :: (s.allocMailbox pid tid).2.sched.order) (hne : t ≠ tid) :
        t ∈ s.sched.order := hsame.order ▸ (List.mem_cons.mp ht).resolve_left hne
    change ((entered _ pid tid _).thread t).mailbox ≠ 0 at hz
    change ((entered _ pid tid _).thread t).mailbox =
      ((entered _ pid tid _).thread t').mailbox at heq
    rw [entered_mailbox, hsame.mailbox] at hz
    rw [entered_mailbox, entered_mailbox, hsame.mailbox, hsame.mailbox] at heq
    by_cases h : t = tid <;> by_cases h' : t' = tid
    · rw [h, h']
    · rw [if_pos h] at hz
      rw [if_pos h, if_neg h'] at heq
      exact absurd heq.symm (hfresh t' (hold ht' h') (heq ▸ hz))
    · rw [if_neg h] at hz
      rw [if_neg h, if_pos h'] at heq
      exact absurd heq (hfresh t (hold ht h) hz)
    · rw [if_neg h] at hz
      rw [if_neg h, if_neg h'] at heq
      exact ho.apart t (hold ht h) t' (hold ht' h') hz heq

theorem threadCreate_spec (hi : s.Inv q) (ho : s.Owned) (hnew : tid ∉ s.sched.order) (pid : Nat) :
    (∃ q', Flow A s q (s.threadCreate pid tid) q') ∧ (s.threadCreate pid tid).Owned := by
  refine ⟨?_, threadCreate_owned hi.blocks ho hnew pid⟩
  have hlive := threadCreate_mailboxes hi.blocks pid tid
  rcases s.allocMailbox_cases pid tid with ⟨-, href⟩ | hopen
  · have hflow : Flow (fun _ => False) s q (s.allocMailbox pid tid).2 q :=
      href.still.flow hi href.links href.metaOf href.history
    exact ⟨q, hflow.trans (hflow.inv.withThreads hlive) href.still.registry href.still.uheap⟩
  · have hflow : Flow (fun _ => False) s q (s.allocMailbox pid tid).2 _ := hopen.flow hi
    exact ⟨_, hflow.trans (hflow.inv.withThreads hlive) hopen.registry hopen.uheap⟩

/-- A thread is deleted, and not just asked to. -/
def Deletes (s : MailState) (tid : Nat) : Prop :=
  s.sched.run ≠ none ∧ tid ∈ s.sched.order ∧
    (s.sched.run = some tid → (s.sched.findNextRunnable tid).1 ≠ none)

/-- Deleting a thread releases its mailbox, from a state without the thread. -/
theorem threadDelete_cases (s : MailState) (tid : Nat) :
    ¬s.Deletes tid ∧ s.threadDelete tid = s ∨ s.Deletes tid ∧
      ∃ sched : Sched, sched.order = s.sched.order.erase tid ∧
        (∀ t, (sched.thread t).mailbox = (s.sched.thread t).mailbox) ∧
        s.threadDelete tid = (s.withSched sched).releaseMailbox (s.sched.thread tid).mailbox := by
  unfold threadDelete Deletes
  by_cases h : s.sched.run = none ∨ tid ∉ s.sched.order
  · grind
  rw [if_neg h]
  rw [not_or, not_not] at h
  have hdetach (s : Sched) (t : Nat) := (s.sameThreads_detachWait tid).mailbox t
  by_cases hrun : s.sched.run ≠ some tid
  · rw [if_pos hrun]
    exact Or.inr ⟨⟨h.1, h.2, fun heq => absurd heq hrun⟩,
      { s.sched.detachWait tid with order := s.sched.order.erase tid }, rfl, hdetach s.sched, rfl⟩
  · rw [if_neg hrun]
    rw [not_not] at hrun
    have hnext := s.sched.sameWaits_findNextRunnable tid
    rcases hf : s.sched.findNextRunnable tid with ⟨_ | next, sched⟩
    · exact Or.inl ⟨fun hd => hd.2.2 hrun rfl, rfl⟩
    · rw [hf] at hnext
      refine Or.inr ⟨⟨h.1, h.2, fun _ hn => (nomatch hn)⟩,
        { Sched.detachWait { sched with run := some next } tid with
          order := sched.order.erase tid }, ?_, fun t => ?_, rfl⟩
      · exact congrArg (List.erase · tid) hnext.order
      · exact (hdetach _ t).trans (hnext.mailbox t)

/-- A thread goes, with its mailbox and what is queued there. -/
theorem threadDelete_spec (hi : s.Inv q) (ho : s.Owned) (hd : s.Deletes tid) :
    let mb := (s.sched.thread tid).mailbox
    (s.threadDelete tid).Owned ∧ ∃ q',
      Flow (fun a => mb ≠ 0 ∧ a ∈ q mb) s q (s.threadDelete tid) q' ∧
      ∀ a, mb ≠ 0 ∧ a ∈ q mb → a ∉ (s.threadDelete tid).registry := by
  intro mb
  rcases s.threadDelete_cases tid with ⟨hno, -⟩ | ⟨-, sched, horder, hbox, heq⟩
  · exact absurd hd hno
  have hmem {t : Nat} : t ∈ sched.order ↔ t ≠ tid ∧ t ∈ s.sched.order := by
    rw [horder]
    exact ho.nodup.mem_erase_iff
  have hflow : Flow (fun _ => False) s q (s.withSched sched) q := by
    refine hi.withThreads fun t ht => ?_
    rw [hbox]
    exact hi.blocks.threads t (hmem.mp ht).2
  have howned : (s.withSched sched).Owned := by
    refine ⟨?_, fun t ht t' ht' hz heq => ?_⟩
    · change sched.order.Nodup
      rw [horder]
      exact ho.nodup.erase tid
    · change (sched.thread t).mailbox ≠ 0 at hz
      change (sched.thread t).mailbox = (sched.thread t').mailbox at heq
      rw [hbox] at hz
      rw [hbox, hbox] at heq
      exact ho.apart t (hmem.mp ht).2 t' (hmem.mp ht').2 hz heq
  rw [heq]
  refine ⟨howned.congr (releaseMailbox_threads _ _), ?_⟩
  by_cases hz : mb = 0
  · refine ⟨q, ?_, fun a h => absurd hz h.1⟩
    have hrel : (s.withSched sched).releaseMailbox mb = s.withSched sched := by
      unfold releaseMailbox
      rw [if_pos hz]
    rw [hrel]
    exact hflow.trans (hflow.inv.flow _) rfl rfl
  · have hlive : mb ∈ (s.withSched sched).boxes := (hi.blocks.threads tid hd.2.1).resolve_left hz
    obtain ⟨q', hrel, hgone⟩ := releaseMailbox_spec hflow.inv hlive fun t ht heq => by
      have ht' := hmem.mp ht
      change (sched.thread t).mailbox = mb at heq
      rw [hbox] at heq
      exact ht'.1 (ho.apart t ht'.2 tid hd.2.1 (heq ▸ hz) heq)
    refine ⟨q', hflow.trans ⟨hrel.inv, fun b hb hnot => ?_, fun b hb hn => ?_⟩ rfl rfl,
      fun a h => hgone a h.2⟩
    · exact hrel.others b hb fun hin => hnot ⟨hz, hin⟩
    · grind [hrel.fresh]

end MailState

end Ukernel.Ipc
