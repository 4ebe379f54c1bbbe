import Ukernel.Ipc.MailboxOps

/-!
# Mailboxes come, change and go

The commands that are about a mailbox and not about one mail: a mailbox is allocated, gets and loses
handlers and subscriptions, hands out a mail, and is released with everything in its queue.

## The one effect

All that a holder of a mail can notice of a command is whether the mail is still there, and whether
it is in a queue now. `Flow` says this for all mails at once, apart from those of a set that the
command is about, and forgets in which queue a mail is. It is what the commands on mails and those
on mailboxes have in common.

## Main definitions

* `MailState.Flow`: what a command does to the mails it is not about
* `MailState.Opened`: a mailbox has been allocated

## Main results

* `MailState.allocMail_spec`, `MailState.tryGetMail_spec`: a mail is handed out
* `MailState.allocMailbox_spec`, `MailState.releaseMailbox_spec`: mailboxes
-/

namespace Ukernel.Ipc

open Kernel Lib Machine Mm Sync

namespace MailState

/-- The mails outside of `A` stay, in a queue or not as before, and mails that have come are in a
queue or in `A`. -/
structure Flow (A : Nat → Prop) (s : MailState) (q : Nat → List Nat) (s' : MailState)
    (q' : Nat → List Nat) : Prop where
  inv : s'.Inv q'
  others : ∀ b ∈ s.registry, ¬A b → b ∈ s'.registry ∧ s'.payload b = s.payload b ∧
    (s'.Unqueued q' b ↔ s.Unqueued q b)
  fresh : ∀ b ∈ s'.registry, b ∉ s.registry → s'.payload b ∉ s.uheap.live ∧
    (A b ∨ ¬s'.Unqueued q' b)

variable {s s' s'' : MailState} {q q' q'' : Nat → List Nat} {m a mb : Nat} {A : Nat → Prop}

theorem Moved.flow (h : Moved A s q s' q') (hi : s'.Inv q') : Flow A s q s' q' where
  inv := hi
  others b hmem hnot := by
    obtain ⟨h₁, h₂, h₃⟩ := h.others b hmem hnot
    refine ⟨h₁, h₂, ?_⟩
    unfold Unqueued
    rw [h.boxes]
    exact forall₂_congr fun mb hmb => not_congr (h₃ mb hmb)
  fresh b hmem hnot := by
    obtain ⟨h₁, mb, hmb, h₂⟩ := h.fresh b hmem hnot
    exact ⟨h₁, Or.inr fun hun => hun mb (h.boxes.symm ▸ hmb) h₂⟩

theorem Inv.flow (hi : s.Inv q) (A : Nat → Prop) : Flow A s q s q := (Moved.refl A s q).flow hi

/-- What does not touch the registry and the queues. -/
theorem Flow.of_eq (hi : s'.Inv q') (hreg : s'.registry = s.registry)
    (hpay : ∀ b, s'.payload b = s.payload b)
    (hun : ∀ b ∈ s.registry, ¬A b → (s'.Unqueued q' b ↔ s.Unqueued q b)) : Flow A s q s' q' where
  inv := hi
  others b hmem hnot := ⟨hreg.symm ▸ hmem, hpay b, hun b hmem hnot⟩
  fresh _ hmem hnot := absurd (hreg ▸ hmem) hnot

/-- Changes to threads and to what is in the mails. -/
theorem Still.flow (h : Still s s') (hi : s.Inv q) (hl : s'.links = s.links)
    (hm : s'.metaOf = s.metaOf) (hh : s'.history = s.history) : Flow A s q s' q := by
  refine Flow.of_eq ⟨hi.toWf.still h hl hh, h.single hm hi.single⟩ h.registry h.payload
    fun b _ _ => ?_
  unfold Unqueued
  rw [h.boxes]

theorem Inv.withSched (hi : s.Inv q) {sched : Sched} (h : s.sched.SameThreads sched) :
    Flow A s q (s.withSched sched) q :=
  Still.flow ⟨rfl, fun _ => rfl, rfl, rfl, rfl, fun _ => rfl, fun _ => rfl, h.order, h.mailbox⟩ hi
    rfl rfl rfl

theorem Inv.setMail (hi : s.Inv q) (m : Nat) (v : Mail) : Flow A s q (s.setMail m v) q :=
  (still_setMail s m v).flow hi rfl rfl rfl

/-! ## Mails are handed out -/

/-- `alloc_mail`: nothing, or a new mail that is in no queue. -/
theorem allocMail_spec (hi : s.Inv q) :
    s.allocMail.1 = 0 ∧ Flow A s q s.allocMail.2 q ∨ ∃ a, Flow (· = a) s q s.allocMail.2 q ∧
      a ∉ s.registry ∧ a ∈ s.allocMail.2.registry ∧ s.allocMail.2.payload a = s.allocMail.1 ∧
      s.allocMail.1 ≠ 0 ∧ s.allocMail.1 ∉ s.uheap.live ∧ s.allocMail.2.Unqueued q a := by
  rcases s.allocMail_cases with ⟨hz, href⟩ | ⟨a, ha⟩
  · exact Or.inl ⟨hz, href.still.flow hi href.links href.metaOf href.history⟩
  · have hi' : s.allocMail.2.Inv q := ⟨ha.wf hi.toWf, ha.single hi.blocks hi.single⟩
    refine Or.inr ⟨a, ⟨hi', fun b hb _ => ?_, fun b hb hn => ?_⟩, ha.not_mem_registry hi.blocks,
      ha.registry ▸ List.mem_cons_self, ha.metaOf_self.2, ha.mail_new.1, ha.mail_new.2,
      fun mb hmb => ha.not_queued hi.blocks hi.queues (ha.boxes ▸ hmb)⟩
    · grind [ha.registry, ha.payload_of_mem, hi.blocks, ha.boxes, Unqueued]
    · grind [ha.registry, ha.metaOf_self, ha.mail_new]

/-- `try_get_mail` on a live mailbox: nothing, or the mail that has been queued for longest. -/
theorem tryGetMail_spec (hi : s.Inv q) (hmb : mb ∈ s.boxes) :
    s.tryGetMail mb = (0, s) ∨ ∃ xs a, q mb = xs ++ [a] ∧ (s.tryGetMail mb).1 = s.payload a ∧
      Flow (· = a) s q (s.tryGetMail mb).2 (Function.update q mb xs) ∧ a ∈ s.registry ∧
      a ∈ (s.tryGetMail mb).2.registry ∧ (s.tryGetMail mb).2.payload a = s.payload a ∧
      (s.tryGetMail mb).2.Unqueued (Function.update q mb xs) a := by
  rcases tryGetMail_cases hi.blocks hi.queues hmb with ⟨-, heq⟩ |
    ⟨xs, a, hq, hres, hst, hmeta, hlinks, hhist⟩
  · exact Or.inl heq
  have haq : a ∈ q mb := by simp [hq]
  have ha := hi.queues.queued mb hmb a haq
  have hqueues : (s.tryGetMail mb).2.Queues (Function.update q mb (xs ++ [])) :=
    hi.queues.dequeue hi.blocks hmb hq hst hlinks
  rw [List.append_nil] at hqueues
  have hnodup := (hi.queues.ring mb hmb).nodup
  have hpay : (s.tryGetMail mb).2.payload = s.payload := funext hst.payload
  have hlogged : (s.tryGetMail mb).2.Logged (Function.update q mb xs) := by
    unfold Logged
    rw [hst.boxes, hhist, hpay]
    intro x hx
    by_cases hxm : x = mb
    · subst hxm
      dsimp only
      rw [Function.update_self, Function.update_self, hi.logged x hx, hq]
      simp
    · dsimp only
      rw [Function.update_of_ne hxm, Function.update_of_ne hxm]
      exact hi.logged x hx
  have hun {b : Nat} (hb : b ≠ a) : (s.tryGetMail mb).2.Unqueued (Function.update q mb xs) b ↔
      s.Unqueued q b := by grind [hst.boxes, Unqueued]
  refine Or.inr ⟨xs, a, hq, hres, Flow.of_eq ⟨⟨hi.blocks.still hst, hqueues, hlogged⟩,
    hst.single hmeta hi.single⟩ hst.registry hst.payload fun b _ hb => hun hb, ha,
    hst.registry.symm ▸ ha, hst.payload a, ?_⟩
  rw [Unqueued, hst.boxes]
  intro x hx hmem
  by_cases hxm : x = mb
  · grind
  · grind [hi.queues.apart]

/-! ## Handlers and subscriptions -/

/-- A mailbox changes, and blocks for its handlers with it. -/
structure Reboxed (s : MailState) (mb : Nat) (s' : MailState) : Prop where
  registry : s'.registry = s.registry
  metaOf : s'.metaOf = s.metaOf
  links : s'.links = s.links
  uheap : s'.uheap.live = s.uheap.live
  others : ∀ x ≠ mb, s'.box x = s.box x
  sched : s'.sched = s.sched
  history : s'.history = s.history

theorem Reboxed.flow (h : Reboxed s mb s') (hi : s.Inv q) (hb : s'.Blocks) : Flow A s q s' q := by
  have hpay (b : Nat) : s'.payload b = s.payload b := by rw [payload, h.metaOf]; rfl
  have hboxes : s'.boxes = s.boxes := congrArg MailHistory.boxes h.history
  refine Flow.of_eq ⟨⟨hb, ?_, ?_⟩, ?_⟩ h.registry hpay fun b _ _ => ?_
  · refine ⟨?_, ?_, ?_⟩
    · rw [hboxes, h.links]
      exact hi.queues.ring
    · rw [hboxes, h.registry]
      exact hi.queues.queued
    · rw [hboxes]
      exact hi.queues.apart
  · unfold Logged
    rw [hboxes, h.history, funext hpay]
    exact hi.logged
  · unfold Single
    rw [h.registry, h.metaOf]
    exact hi.single
  · unfold Unqueued
    rw [hboxes]

/-- The blocks of a mailbox that has changed, if its handlers lie in blocks of their own. -/
theorem Reboxed.blocks (h : Reboxed s mb s') (hb : s.Blocks) (hk : s'.kheap.live.Nodup)
    (hlive : ∀ x ∈ s.kheap.live, x ∈ s.registry ∨ x ∈ s.boxes ∨
      (∃ y ∈ s.boxes, y ≠ mb ∧ ∃ hd ∈ (s.box y).handlers, hd.addr = x) → x ∈ s'.kheap.live)
    (hown : ∀ hd ∈ (s'.box mb).handlers, hd.addr ∈ s'.kheap.live ∧ hd.addr ∉ s.registry ∧
      hd.addr ∉ s.boxes ∧ ∀ y ∈ s.boxes, y ≠ mb → ∀ hd' ∈ (s.box y).handlers, hd.addr ≠ hd'.addr)
    (hnodup : ((s'.box mb).handlers.map MailHandler.addr).Nodup) : s'.Blocks := by
  have hboxes : s'.boxes = s.boxes := congrArg MailHistory.boxes h.history
  have hpay (b : Nat) : s'.payload b = s.payload b := by rw [payload, h.metaOf]; rfl
  refine ⟨?_, ?_, ?_, ?_, hk, ?_, ?_, ?_, ?_, ?_, ?_, ?_⟩
  · rw [h.registry]
    exact hb.registry
  · rw [h.registry]
    exact fun a ha => hlive a (hb.metas a ha) (Or.inl ha)
  · simp only [h.registry, hpay, h.uheap]
    exact hb.payloads
  · simp only [h.registry, hpay]
    exact hb.inj
  · rw [h.uheap]
    exact hb.uheap
  · grind [h.registry, hb.boxes]
  · rw [hboxes]
    exact hb.boxes_nodup
  · grind [h.registry, h.others, hb.handlers]
  · grind [h.others, hb.handlers_nodup]
  · grind [h.others, hb.handlers_apart]
  · rw [hboxes, h.sched]
    exact hb.threads

/-- A mailbox loses handlers at most. -/
theorem Reboxed.blocks_of_sublist (h : Reboxed s mb s') (hb : s.Blocks) (hmb : mb ∈ s.boxes)
    (hk : s'.kheap.live = s.kheap.live)
    (hh : (s'.box mb).handlers.Sublist (s.box mb).handlers) : s'.Blocks := by
  refine h.blocks hb (hk ▸ hb.kheap) (fun x hx _ => hk ▸ hx) (fun hd hhd => ?_) ?_
  · grind [hb.handlers, hb.handlers_apart]
  · exact (hb.handlers_nodup mb hmb).sublist (hh.map _)

theorem Reboxed.flow_of_sublist (h : Reboxed s mb s') (hi : s.Inv q) (hmb : mb ∈ s.boxes)
    (hk : s'.kheap.live = s.kheap.live)
    (hh : (s'.box mb).handlers.Sublist (s.box mb).handlers) : Flow A s q s' q :=
  h.flow hi (h.blocks_of_sublist hi.blocks hmb hk hh)

theorem reboxed_setBox (s : MailState) (mb : Nat) (v : Mailbox) : Reboxed s mb (s.setBox mb v) :=
  ⟨rfl, rfl, rfl, rfl, fun _ hx => Function.update_of_ne hx _ _, rfl, rfl⟩

theorem setBox_self (s : MailState) (mb : Nat) (v : Mailbox) : (s.setBox mb v).box mb = v :=
  Function.update_self _ _ _

theorem subscribe_spec (hi : s.Inv q) (hmb : mb ≠ 0 → mb ∈ s.boxes) (magic : Nat) :
    Flow A s q (s.subscribe mb magic).2 q := by
  unfold subscribe
  dsimp only
  split_ifs with h
  · exact hi.flow A
  · exact hi.flow A
  · have hmem := hmb (not_or.mp h).1
    refine (reboxed_setBox s mb _).flow_of_sublist hi hmem rfl ?_
    rw [setBox_self]
  · exact hi.flow A

theorem unsubscribe_spec (hi : s.Inv q) (hmb : mb ≠ 0 → mb ∈ s.boxes) (magic : Nat) :
    Flow A s q (s.unsubscribe mb magic).2 q := by
  unfold unsubscribe
  dsimp only
  split_ifs with h
  · exact hi.flow A
  · have hmem := hmb (not_or.mp h).1
    refine (reboxed_setBox s mb _).flow_of_sublist hi hmem rfl ?_
    rw [setBox_self]
  · exact hi.flow A

/-- The address of a handler that is new to the heap is new to all mailboxes. -/
theorem Blocks.handler_new (hb : s.Blocks) {x : Nat} (hx : x ∉ s.kheap.live) {y : Nat}
    (hy : y ∈ s.boxes) : ∀ hd ∈ (s.box y).handlers, x ≠ hd.addr := fun hd hhd heq =>
  hx (heq ▸ (hb.handlers y hy hd hhd).1)

theorem Refused.refl (s : MailState) : Refused s s :=
  ⟨Still.refl s, rfl, rfl, fun _ _ => rfl, rfl, rfl, rfl⟩

/-- `register_handler`: nothing that shows has changed, or the mailbox has a handler more, in a
block that is new. -/
theorem registerHandler_reboxed (hb : s.Blocks) (hmb : mb ≠ 0 → mb ∈ s.boxes) (handler : Nat) :
    Refused s (s.registerHandler mb handler).2 ∨ mb ∈ s.boxes ∧
      Reboxed s mb (s.registerHandler mb handler).2 ∧ (s.registerHandler mb handler).2.Blocks ∧
      ∃ addr ∉ s.kheap.live,
        (s.registerHandler mb handler).2.kheap.live = addr :: s.kheap.live ∧
        ∀ hd ∈ ((s.registerHandler mb handler).2.box mb).handlers,
          hd.addr = addr ∨ hd ∈ (s.box mb).handlers := by
  unfold registerHandler
  dsimp only
  by_cases h : mb = 0 ∨ handler = 0
  · rw [if_pos h]
    exact Or.inl (Refused.refl s)
  rw [if_neg h]
  have hmem := hmb (not_or.mp h).1
  rcases s.kheap.alloc_cases with ⟨hz, hlive⟩ | ⟨hz, hnew, hlive⟩
  · rw [if_pos hz]
    exact Or.inl ⟨⟨rfl, fun _ => rfl, hlive, rfl, rfl, fun _ => rfl, fun _ => rfl, rfl,
      fun _ => rfl⟩, rfl, rfl, fun _ _ => rfl, rfl, rfl, rfl⟩
  · rw [if_neg hz]
    set addr := s.kheap.alloc.1 with haddr
    set v : Mailbox := { s.box mb with handlers := ⟨addr, handler⟩ :: (s.box mb).handlers } with hv
    set s' : MailState := { s.setBox mb v with kheap := s.kheap.alloc.2 } with hs'
    have hre : Reboxed s mb s' :=
      ⟨rfl, rfl, rfl, rfl, fun _ hx => Function.update_of_ne hx _ _, rfl, rfl⟩
    have hbox : s'.box mb = v := setBox_self s mb v
    have hk : s'.kheap.live = addr :: s.kheap.live := hlive
    refine Or.inr ⟨hmem, hre, hre.blocks hb ?_ (fun x hx _ => ?_) (fun hd hhd => ?_) ?_,
      addr, hnew, hk, fun hd hhd => ?_⟩
    · rw [hk]
      exact List.nodup_cons.mpr ⟨hnew, hb.kheap⟩
    · rw [hk]
      exact List.mem_cons_of_mem _ hx
    · grind [hb.metas, hb.boxes, hb.handlers, hb.handlers_apart]
    · grind [hb.handlers_nodup, hb.handler_new]
    · change hd ∈ (s'.box mb).handlers at hhd
      rw [hbox] at hhd
      rcases List.mem_cons.mp hhd with rfl | hhd
      · exact Or.inl rfl
      · exact Or.inr hhd

theorem registerHandler_spec (hi : s.Inv q) (hmb : mb ≠ 0 → mb ∈ s.boxes) (handler : Nat) :
    Flow A s q (s.registerHandler mb handler).2 q := by
  rcases registerHandler_reboxed hi.blocks hmb handler with href | ⟨-, hre, hb, -⟩
  · exact href.still.flow hi href.links href.metaOf href.history
  · exact hre.flow hi hb

/-- `unregister_handler`: nothing has changed, or the mailbox has lost a handler and its block. -/
theorem unregisterHandler_reboxed (hb : s.Blocks) (hmb : mb ≠ 0 → mb ∈ s.boxes) (handler : Nat) :
    Refused s (s.unregisterHandler mb handler).2 ∨ mb ∈ s.boxes ∧
      Reboxed s mb (s.unregisterHandler mb handler).2 ∧ (s.unregisterHandler mb handler).2.Blocks ∧
      ((s.unregisterHandler mb handler).2.box mb).handlers ⊆ (s.box mb).handlers ∧
      ∃ hd ∈ (s.box mb).handlers,
        (s.unregisterHandler mb handler).2.kheap.live = s.kheap.live.erase hd.addr := by
  unfold unregisterHandler
  dsimp only
  by_cases h : mb = 0 ∨ handler = 0
  · rw [if_pos h]
    exact Or.inl (Refused.refl s)
  rw [if_neg h]
  have hmem := hmb (not_or.mp h).1
  cases hfind : (s.box mb).handlers.find? fun h => h.handler == handler with
  | none => exact Or.inl (Refused.refl s)
  | some hd =>
    have hhd := List.mem_of_find?_eq_some hfind
    set v : Mailbox := { s.box mb with handlers := (s.box mb).handlers.erase hd } with hv
    set s' : MailState := { s.setBox mb v with kheap := s.kheap.free hd.addr } with hs'
    have hre : Reboxed s mb s' :=
      ⟨rfl, rfl, rfl, rfl, fun _ hx => Function.update_of_ne hx _ _, rfl, rfl⟩
    have hbox : s'.box mb = v := setBox_self s mb v
    have hk : s'.kheap.live = s.kheap.live.erase hd.addr := rfl
    obtain ⟨-, hreg, hboxes⟩ := hb.handlers mb hmem hd hhd
    have hnodup := hb.handlers_nodup mb hmem
    refine Or.inr ⟨hmem, hre, hre.blocks hb ?_ (fun x hx hcase => ?_) (fun hd' hhd' => ?_) ?_,
      fun hd' hhd' => ?_, hd, hhd, hk⟩
    · exact hb.kheap.erase _
    · grind [hb.handlers_apart]
    · rw [hbox] at hhd'
      have hnd := List.Nodup.of_map _ hnodup
      obtain ⟨hne, hin⟩ := hnd.mem_erase_iff.mp hhd'
      obtain ⟨h₁, h₂, h₃⟩ := hb.handlers mb hmem hd' hin
      refine ⟨?_, h₂, h₃, fun y hy hny hd'' hin' heq => hny ?_⟩
      · grind [List.inj_on_of_nodup_map]
      · exact (hb.handlers_apart mb hmem y hy hd' hin hd'' hin' heq).symm
    · rw [hbox]
      exact hnodup.sublist (List.erase_sublist.map _)
    · grind

theorem unregisterHandler_spec (hi : s.Inv q) (hmb : mb ≠ 0 → mb ∈ s.boxes) (handler : Nat) :
    Flow A s q (s.unregisterHandler mb handler).2 q := by
  rcases unregisterHandler_reboxed hi.blocks hmb handler with href | ⟨-, hre, hb, -⟩
  · exact href.still.flow hi href.links href.metaOf href.history
  · exact hre.flow hi hb

/-! ## A new mailbox -/

/-- A mailbox has been allocated. -/
structure Opened (s : MailState) (mb : Nat) (s' : MailState) : Prop where
  box_new : mb ≠ 0 ∧ mb ∉ s.kheap.live
  kheap : s'.kheap.live = mb :: s.kheap.live
  uheap : s'.uheap.live = s.uheap.live
  registry : s'.registry = s.registry
  metaOf : s'.metaOf = s.metaOf
  links : s'.links = s.links.init mb
  box : (s'.box mb).handlers = [] ∧ ∀ x ≠ mb, s'.box x = s.box x
  order : s'.sched.order = s.sched.order
  thread : s'.sched.thread = s.sched.thread
  history : s'.history = s.history.open mb

/-- `alloc_mailbox`: nothing that shows has changed, or there is a new mailbox. -/
theorem allocMailbox_cases (s : MailState) (ownerPid ownerTid : Int) :
    (s.allocMailbox ownerPid ownerTid).1 = 0 ∧ Refused s (s.allocMailbox ownerPid ownerTid).2 ∨
      Opened s (s.allocMailbox ownerPid ownerTid).1 (s.allocMailbox ownerPid ownerTid).2 := by
  unfold allocMailbox
  dsimp only
  rcases s.kheap.alloc_cases with ⟨hz, hlive⟩ | ⟨hz, hnew, hlive⟩
  · rw [if_pos hz]
    exact Or.inl ⟨rfl, ⟨rfl, fun _ => rfl, hlive, rfl, rfl, fun _ => rfl, fun _ => rfl, rfl,
      fun _ => rfl⟩, rfl, rfl, fun _ _ => rfl, rfl, rfl, rfl⟩
  rw [if_neg hz]
  have hfree : (s.kheap.alloc.2.free s.kheap.alloc.1).live = s.kheap.live := by
    unfold Pool.free
    simp [hlive]
  unfold spinlockAlloc
  split
  · rename_i heq
    split at heq
    · cases heq
    · cases heq
      exact Or.inl ⟨rfl, ⟨rfl, fun _ => rfl, hfree, rfl, rfl, fun _ => rfl, fun _ => rfl, rfl,
        fun _ => rfl⟩, rfl, rfl, fun _ _ => rfl, rfl, rfl, rfl⟩
  · rename_i heq
    split at heq
    · cases heq
      refine Or.inr ⟨⟨hz, hnew⟩, hlive, rfl, rfl, rfl, rfl, ⟨?_, fun x hx => ?_⟩, rfl, rfl, rfl⟩
      · simp [setBox, withSched, withHistory]
      · exact Function.update_of_ne hx _ _
    · cases heq

namespace Opened

variable (h : Opened s mb s')
include h

theorem boxes : s'.boxes = mb :: s.boxes := congrArg MailHistory.boxes h.history

theorem ne_of_mem (hb : s.Blocks) {x : Nat} (hx : x ∈ s.boxes) : x ≠ mb := fun heq =>
  h.box_new.2 (heq ▸ (hb.boxes x hx).2.1)

theorem payload (b : Nat) : s'.payload b = s.payload b := by
  rw [MailState.payload, h.metaOf]
  rfl

theorem handlers {x : Nat} {hd : MailHandler} (hhd : hd ∈ (s'.box x).handlers) :
    x ≠ mb ∧ hd ∈ (s.box x).handlers := by
  have hne : x ≠ mb := by
    rintro rfl
    rw [h.box.1] at hhd
    exact List.not_mem_nil hhd
  rw [h.box.2 x hne] at hhd
  exact ⟨hne, hhd⟩

theorem blocks (hb : s.Blocks) : s'.Blocks := by
  have hmem {x : Nat} (hx : x ∈ mb :: s.boxes) (hne : x ≠ mb) : x ∈ s.boxes :=
    (List.mem_cons.mp hx).resolve_left hne
  refine ⟨?_, ?_, ?_, ?_, ?_, ?_, ?_, ?_, ?_, ?_, ?_, ?_⟩
  · rw [h.registry]
    exact hb.registry
  · rw [h.registry, h.kheap]
    exact fun a ha => List.mem_cons_of_mem _ (hb.metas a ha)
  · simp only [h.registry, h.payload, h.uheap]
    exact hb.payloads
  · simp only [h.registry, h.payload]
    exact hb.inj
  · rw [h.kheap]
    exact List.nodup_cons.mpr ⟨h.box_new.2, hb.kheap⟩
  · rw [h.uheap]
    exact hb.uheap
  · grind [h.boxes, h.kheap, h.registry, h.box_new, hb.metas, hb.boxes]
  · rw [h.boxes]
    exact List.nodup_cons.mpr ⟨fun hin => h.ne_of_mem hb hin rfl, hb.boxes_nodup⟩
  · grind [h.boxes, h.kheap, h.registry, h.handlers, hb.handlers, h.box_new]
  · grind [h.boxes, h.box, hb.handlers_nodup]
  · rw [h.boxes]
    intro x hx y hy hd hhd hd' hhd' heq
    obtain ⟨hne, hhd⟩ := h.handlers hhd
    obtain ⟨hne', hhd'⟩ := h.handlers hhd'
    exact hb.handlers_apart x (hmem hx hne) y (hmem hy hne') hd hhd hd' hhd' heq
  · rw [h.boxes, h.order, h.thread]
    exact fun t ht => (hb.threads t ht).imp_right (List.mem_cons_of_mem _)

theorem queues (hb : s.Blocks) (hq : s.Queues q) : s'.Queues (Function.update q mb []) := by
  have hcase {x : Nat} (hx : x ∈ s'.boxes) : x = mb ∨ x ∈ s.boxes ∧ x ≠ mb := by grind [h.boxes]
  refine ⟨fun x hx => ?_, fun x hx a ha => ?_, fun x hx y hy a ha ha' => ?_⟩
  · rw [h.links]
    rcases hcase hx with rfl | ⟨hx, hne⟩
    · rw [Function.update_self]
      exact LinkRing.init s.links x
    · rw [Function.update_of_ne hne]
      refine (hq.ring x hx).init_of_not_mem fun hin => ?_
      rcases List.mem_cons.mp hin with heq | hin
      · exact hne heq.symm
      · exact h.box_new.2 (hb.metas mb (hq.queued x hx mb hin))
  · grind [h.registry, hq.queued]
  · grind [hq.apart]

theorem logged (hl : s.Logged q) : s'.Logged (Function.update q mb []) := by
  intro x hx
  rw [h.boxes] at hx
  rw [h.history, funext h.payload]
  unfold MailHistory.open
  dsimp only
  by_cases hxm : x = mb
  · grind
  · rw [Function.update_of_ne hxm, Function.update_of_ne hxm, Function.update_of_ne hxm]
    exact hl x ((List.mem_cons.mp hx).resolve_left hxm)

theorem flow (hi : s.Inv q) : Flow A s q s' (Function.update q mb []) := by
  have hs : s'.Single := by
    unfold Single
    rw [h.registry, h.metaOf]
    exact hi.single
  refine Flow.of_eq ⟨⟨h.blocks hi.blocks, h.queues hi.blocks hi.queues, h.logged hi.logged⟩, hs⟩
    h.registry h.payload fun b _ _ => ?_
  unfold Unqueued
  rw [h.boxes, List.forall_mem_cons, Function.update_self]
  refine (and_iff_right List.not_mem_nil).trans (forall₂_congr fun x hx => ?_)
  rw [Function.update_of_ne (h.ne_of_mem hi.blocks hx)]

end Opened

theorem allocMailbox_spec (hi : s.Inv q) (ownerPid ownerTid : Int) :
    ∃ q', Flow A s q (s.allocMailbox ownerPid ownerTid).2 q' := by
  rcases s.allocMailbox_cases ownerPid ownerTid with ⟨-, href⟩ | hopen
  · exact ⟨q, href.still.flow hi href.links href.metaOf href.history⟩
  · exact ⟨_, hopen.flow hi⟩

/-! ## A mailbox goes -/

/-- The queue of a mailbox has been emptied, and its mails have been released. -/
structure Drained (s : MailState) (q : Nat → List Nat) (mb : Nat) (s' : MailState) : Prop where
  blocks : s'.Blocks
  queues : s'.Queues (Function.update q mb [])
  single : s'.Single
  registry : ∀ b, b ∈ s'.registry ↔ b ∈ s.registry ∧ b ∉ q mb
  payload : ∀ b ∈ s'.registry, s'.payload b = s.payload b
  box : s'.box = s.box
  sched : s'.sched = s.sched
  history : s'.history = s.history

/-- The loop ends: each round takes one mail out of the queue. -/
theorem drainLoop_spec (fuel : Nat) (hb : s.Blocks) (hq : s.Queues q) (hs : s.Single)
    (hmb : mb ∈ s.boxes) (hfuel : (q mb).length < fuel) :
    ∃ s', drainLoop fuel s mb = some s' ∧ Drained s q mb s' := by
  induction fuel generalizing s q with
  | zero => omega
  | succ fuel ih =>
    have hring := hq.ring mb hmb
    unfold drainLoop
    rcases List.eq_nil_or_concat (q mb) with hnil | ⟨xs, a, hcons⟩
    · rw [if_pos (hring.empty_iff.mpr hnil)]
      have hself : Function.update q mb [] = q := by
        rw [← hnil]
        exact Function.update_eq_self mb q
      refine ⟨s, rfl, hb, hself.symm ▸ hq, hs, fun b => ?_, fun _ _ => rfl, rfl, rfl, rfl⟩
      simp [hnil]
    rw [List.concat_eq_append] at hcons
    have haq : a ∈ q mb := by simp [hcons]
    have ha := hq.queued mb hmb a haq
    have hne : ¬s.links.Empty mb := by
      rw [hring.empty_iff, hcons]
      simp
    have hnodup := hring.nodup
    rw [hcons] at hring hnodup
    rw [if_neg hne]
    rw [hring.prev_eq]
    -- the mail leaves the queue …
    set s₁ : MailState := { s with links := s.links.del a } with hs₁
    have hst : Still s s₁ :=
      ⟨rfl, fun _ => rfl, rfl, rfl, rfl, fun _ => rfl, fun _ => rfl, rfl, fun _ => rfl⟩
    have hb₁ := hb.still hst
    have hq₁ : s₁.Queues (Function.update q mb xs) := by grind [hq.dequeue]
    have hnot₁ : s₁.Unqueued (Function.update q mb xs) a := by
      intro x hx hmem
      by_cases hxm : x = mb
      · grind
      · rw [Function.update_of_ne hxm] at hmem
        exact hxm (hq.apart x hx mb hmb a hmem haq)
    -- … and the registry
    have hd : Discarded s₁ a (s₁.releaseMail (s₁.metaOf a).payload) :=
      releaseMail_last hb₁ ha (hs a ha).le
    set s₂ := s₁.releaseMail (s₁.metaOf a).payload with hs₂
    have hmb₂ : mb ∈ s₂.boxes := hd.boxes.symm ▸ hmb
    obtain ⟨s', hloop, hdr⟩ := ih (hd.blocks hb₁ ha) (hd.queues hb₁ ha hq₁ hnot₁)
      (hd.single hb₁ hs) hmb₂ (by
        rw [Function.update_self]
        rw [hcons, List.length_append, List.length_singleton] at hfuel
        omega)
    have hreg (b : Nat) : b ∈ s'.registry ↔ b ∈ s.registry ∧ b ∉ q mb := by
      grind [hdr.registry, hd.mem_registry]
    refine ⟨s', hloop, hdr.blocks, ?_, hdr.single, hreg, fun b hbm => ?_, hdr.box.trans hd.box,
      hdr.sched.trans hd.sched, hdr.history.trans hd.history⟩
    · have h := hdr.queues
      rwa [Function.update_idem] at h
    · have hne : b ≠ a := fun heq => ((hreg b).mp hbm).2 (heq ▸ haq)
      exact (hdr.payload b hbm).trans (hd.payload_of_ne hne)

/-- The blocks of a list of handlers are freed. -/
def freeHandlers (s : MailState) (hs : List MailHandler) : MailState :=
  hs.foldl (fun s h => { s with kheap := s.kheap.free h.addr }) s

/-- A mailbox is gone: its blocks are free. -/
structure Closed (s : MailState) (mb : Nat) (s' : MailState) : Prop where
  kheap : s'.kheap.live.Nodup
  kept : ∀ x ∈ s.kheap.live, x ≠ mb → (∀ h ∈ (s.box mb).handlers, h.addr ≠ x) → x ∈ s'.kheap.live
  uheap : s'.uheap.live = s.uheap.live
  registry : s'.registry = s.registry
  metaOf : s'.metaOf = s.metaOf
  links : ∀ x ≠ mb, s'.links x = s.links x
  box : ∀ x ≠ mb, s'.box x = s.box x
  order : s'.sched.order = s.sched.order
  thread : s'.sched.thread = s.sched.thread
  history : s'.history = { s.history with boxes := s.boxes.erase mb }

/-- What `release_mailbox` does once the queue is empty. -/
def closeMailbox (s : MailState) (mb : Nat) : MailState :=
  let s := s.freeHandlers (s.box mb).handlers
  let s := s.spinlockRelease (s.box mb).spLock
  let s := { s.setBox mb ⟨0, 0, [], 0, []⟩ with
    links := Function.update s.links mb ⟨0, 0⟩
    kheap := s.kheap.free mb }
  let s := s.withSched (s.sched.setWaiters mb [])
  s.withHistory { s.history with boxes := s.boxes.erase mb }

theorem releaseMailbox_eq (hmb : mb ≠ 0) : s.releaseMailbox mb =
    ((drainLoop (s.registry.length + 1) s mb).getD s).closeMailbox mb := by
  unfold releaseMailbox
  rw [if_neg hmb]
  rfl

/-- Freeing the blocks of handlers changes nothing but the heap. -/
theorem freeHandlers_eq (s : MailState) (hs : List MailHandler) :
    s.freeHandlers hs = { s with kheap := (s.freeHandlers hs).kheap } := by
  induction hs generalizing s with
  | nil => rfl
  | cons h hs ih =>
    change freeHandlers { s with kheap := s.kheap.free h.addr } hs = _
    rw [ih]
    rfl

theorem freeHandlers_live (hs : List MailHandler) (hk : s.kheap.live.Nodup) :
    (s.freeHandlers hs).kheap.live.Nodup ∧ ∀ x ∈ s.kheap.live, (∀ h ∈ hs, h.addr ≠ x) →
      x ∈ (s.freeHandlers hs).kheap.live := by
  induction hs generalizing s with
  | nil => exact ⟨hk, fun x hx _ => hx⟩
  | cons h hs ih =>
    obtain ⟨h₁, h₂⟩ := ih (s := { s with kheap := s.kheap.free h.addr }) (hk.erase h.addr)
    refine ⟨h₁, fun x hx hne => h₂ x ?_ fun h' hh' => hne h' (List.mem_cons_of_mem _ hh')⟩
    exact hk.mem_erase_iff.mpr ⟨(hne h List.mem_cons_self).symm, hx⟩

theorem closed_closeMailbox (hk : s.kheap.live.Nodup) (mb : Nat) :
    Closed s mb (s.closeMailbox mb) := by
  obtain ⟨hnodup, hkept⟩ := freeHandlers_live (s.box mb).handlers hk
  unfold closeMailbox
  rw [freeHandlers_eq]
  refine ⟨hnodup.erase mb, fun x hx hne hh => ?_, rfl, rfl, rfl, fun x hx => ?_, fun x hx => ?_,
    rfl, rfl, rfl⟩
  · exact hnodup.mem_erase_iff.mpr ⟨hne, hkept x hx hh⟩
  · exact Function.update_of_ne hx _ _
  · exact Function.update_of_ne hx _ _

namespace Closed

variable (h : Closed s mb s')
include h

theorem boxes (hb : s.Blocks) (x : Nat) : x ∈ s'.boxes ↔ x ≠ mb ∧ x ∈ s.boxes := by
  have heq : s'.boxes = s.boxes.erase mb := congrArg MailHistory.boxes h.history
  rw [heq]
  exact hb.boxes_nodup.mem_erase_iff

theorem payload (b : Nat) : s'.payload b = s.payload b := by
  rw [MailState.payload, h.metaOf]
  rfl

theorem blocks (hb : s.Blocks) (hmb : mb ∈ s.boxes)
    (hfree : ∀ t ∈ s.sched.order, (s.sched.thread t).mailbox ≠ mb) : s'.Blocks := by
  have hbox {x : Nat} := h.boxes hb x
  have hown {x : Nat} (hx : x ∈ s.registry ∨ x ∈ s.boxes) :
      ∀ h ∈ (s.box mb).handlers, h.addr ≠ x := by
    rintro hd hhd rfl
    obtain ⟨-, h₂, h₃⟩ := hb.handlers mb hmb hd hhd
    exact hx.elim h₂ h₃
  refine ⟨?_, ?_, ?_, ?_, h.kheap, ?_, ?_, ?_, ?_, ?_, ?_, ?_⟩
  · rw [h.registry]
    exact hb.registry
  · grind [h.registry, h.kept, hb.metas, hb.boxes]
  · simp only [h.registry, h.payload, h.uheap]
    exact hb.payloads
  · simp only [h.registry, h.payload]
    exact hb.inj
  · rw [h.uheap]
    exact hb.uheap
  · grind [h.registry, hb.boxes, h.kept]
  · have heq : s'.boxes = s.boxes.erase mb := congrArg MailHistory.boxes h.history
    rw [heq]
    exact hb.boxes_nodup.erase mb
  · grind [h.registry, h.box, hb.handlers, h.kept, hb.handlers_apart]
  · grind [h.box, hb.handlers_nodup]
  · grind [h.box, hb.handlers_apart]
  · rw [h.order, h.thread]
    intro t ht
    exact (hb.threads t ht).imp_right fun hin => hbox.mpr ⟨hfree t ht, hin⟩

theorem queues (hb : s.Blocks) (hmb : mb ∈ s.boxes) (hq : s.Queues q) : s'.Queues q := by
  have hbox {x : Nat} := h.boxes hb x
  refine ⟨fun x hx => ?_, fun x hx => ?_, fun x hx y hy => ?_⟩
  · obtain ⟨hne, hx⟩ := hbox.mp hx
    refine (hq.ring x hx).congr fun y hy => h.links y ?_
    rintro rfl
    rcases List.mem_cons.mp hy with heq | hy
    · exact hne heq.symm
    · exact (hb.boxes y hmb).2.2 (hq.queued x hx y hy)
  · rw [h.registry]
    exact hq.queued x (hbox.mp hx).2
  · exact hq.apart x (hbox.mp hx).2 y (hbox.mp hy).2

end Closed

/-- A mailbox that no thread has is released, with the mails in its queue. -/
theorem releaseMailbox_spec (hi : s.Inv q) (hmb : mb ∈ s.boxes)
    (hfree : ∀ t ∈ s.sched.order, (s.sched.thread t).mailbox ≠ mb) :
    ∃ q', Flow (· ∈ q mb) s q (s.releaseMailbox mb) q' ∧
      ∀ a ∈ q mb, a ∉ (s.releaseMailbox mb).registry := by
  have hlen : (q mb).length < s.registry.length + 1 := by
    have hnd := (List.nodup_cons.mp (hi.queues.ring mb hmb).nodup).2
    have := hnd.subperm (hi.queues.queued mb hmb)
    exact Nat.lt_succ_of_le this.length_le
  obtain ⟨s₁, hloop, hdr⟩ := drainLoop_spec _ hi.blocks hi.queues hi.single hmb hlen
  rw [releaseMailbox_eq (hi.blocks.boxes mb hmb).1, hloop, Option.getD_some]
  have hc := closed_closeMailbox hdr.blocks.kheap mb
  set s' := s₁.closeMailbox mb with hs'
  have hboxes₁ : s₁.boxes = s.boxes := congrArg MailHistory.boxes hdr.history
  have hmb₁ : mb ∈ s₁.boxes := hboxes₁.symm ▸ hmb
  have hreg (b : Nat) : b ∈ s'.registry ↔ b ∈ s.registry ∧ b ∉ q mb := by
    rw [hc.registry]
    exact hdr.registry b
  have hpay {b : Nat} (hb : b ∈ s'.registry) : s'.payload b = s.payload b := by
    rw [hc.payload]
    exact hdr.payload b (hc.registry ▸ hb)
  have hbox (x : Nat) : x ∈ s'.boxes ↔ x ≠ mb ∧ x ∈ s.boxes := by
    rw [hc.boxes hdr.blocks, hboxes₁]
  have hqueues := hc.queues hdr.blocks hmb₁ hdr.queues
  have hlogged : s'.Logged (Function.update q mb []) := by
    intro x hx
    have hx' := (hbox x).mp hx
    rw [Function.update_of_ne hx'.1, hc.history, hdr.history]
    rw [hi.logged x hx'.2]
    refine congrArg _ (List.map_congr_left fun b hmem => (hpay ?_).symm)
    have hin := hqueues.queued x hx b
    rw [Function.update_of_ne hx'.1] at hin
    exact hin (List.mem_reverse.mp hmem)
  refine ⟨Function.update q mb [], ⟨⟨⟨hc.blocks hdr.blocks hmb₁ (hdr.sched ▸ hfree), hqueues,
    hlogged⟩, ?_⟩, fun b hb hnot => ?_, fun b hb hn => absurd ((hreg b).mp hb).1 hn⟩,
    fun a ha hin => ((hreg a).mp hin).2 ha⟩
  · unfold Single
    rw [hc.registry, hc.metaOf]
    exact hdr.single
  · have hb' := (hreg b).mpr ⟨hb, hnot⟩
    refine ⟨hb', hpay hb', fun hun x hx => ?_, fun hun x hx => ?_⟩
    · by_cases hxm : x = mb
      · rw [hxm]
        exact hnot
      · have h := hun x ((hbox x).mpr ⟨hxm, hx⟩)
        rwa [Function.update_of_ne hxm] at h
    · obtain ⟨hxm, hx⟩ := (hbox x).mp hx
      rw [Function.update_of_ne hxm]
      exact hun x hx

end MailState

end Ukernel.Ipc
