import Ukernel.Ipc.Mailbox

/-!
# Well-formed mailboxes

The invariant of the mailboxes, and what the operations on single mails do to it: a mail enters the
registry, enters a queue, leaves a queue, leaves the registry. The queues are given with the state,
as lists of the nodes from the one that entered last to the one that leaves next.

## Main definitions

* `MailState.Inflight`: the mails of the registry
* `MailState.Blocks`: the records lie in blocks of their own
* `MailState.Queues`: the queues are rings of mails of the registry

## Main results

* `MailState.allocMail_cases`, `MailState.releaseMail_cases`, `MailState.tryGetMail_cases`
* `MailState.Discarded.queues`, `MailState.Queues.enqueue`, `MailState.Queues.dequeue`
-/

namespace Ukernel.Ipc

open Kernel Lib Machine Mm Sync

namespace MailState

/-- The mail that a `mailmeta` is about. -/
def payload (s : MailState) (a : Nat) : Nat := (s.metaOf a).payload

/-- A mail is in the registry. -/
def Inflight (s : MailState) (m : Nat) : Prop := ∃ a ∈ s.registry, s.payload a = m

/-- The records lie in blocks of their own, and the registry knows every mail once. -/
structure Blocks (s : MailState) : Prop where
  registry : s.registry.Nodup
  metas : ∀ a ∈ s.registry, a ∈ s.kheap.live
  payloads : ∀ a ∈ s.registry, s.payload a ≠ 0 ∧ s.payload a ∈ s.uheap.live
  inj : ∀ a ∈ s.registry, ∀ b ∈ s.registry, s.payload a = s.payload b → a = b
  kheap : s.kheap.live.Nodup
  uheap : s.uheap.live.Nodup
  boxes : ∀ mb ∈ s.boxes, mb ≠ 0 ∧ mb ∈ s.kheap.live ∧ mb ∉ s.registry
  boxes_nodup : s.boxes.Nodup
  handlers : ∀ mb ∈ s.boxes, ∀ h ∈ (s.box mb).handlers,
    h.addr ∈ s.kheap.live ∧ h.addr ∉ s.registry ∧ h.addr ∉ s.boxes
  handlers_nodup : ∀ mb ∈ s.boxes, ((s.box mb).handlers.map MailHandler.addr).Nodup
  handlers_apart : ∀ mb ∈ s.boxes, ∀ mb' ∈ s.boxes, ∀ h ∈ (s.box mb).handlers,
    ∀ h' ∈ (s.box mb').handlers, h.addr = h'.addr → mb = mb'
  threads : ∀ t ∈ s.sched.order,
    (s.sched.thread t).mailbox = 0 ∨ (s.sched.thread t).mailbox ∈ s.boxes

/-- The queues are rings of mails of the registry, and no mail is in two of them. -/
structure Queues (s : MailState) (q : Nat → List Nat) : Prop where
  ring : ∀ mb ∈ s.boxes, LinkRing s.links mb (q mb)
  queued : ∀ mb ∈ s.boxes, ∀ a ∈ q mb, a ∈ s.registry
  apart : ∀ mb ∈ s.boxes, ∀ mb' ∈ s.boxes, ∀ a ∈ q mb, a ∈ q mb' → mb = mb'

/-- Every mail has one reference. -/
def Single (s : MailState) : Prop := ∀ a ∈ s.registry, (s.metaOf a).refCount = 1

/-- What a mailbox has queued is what it has handed out and what is still in the queue. -/
def Logged (s : MailState) (q : Nat → List Nat) : Prop :=
  ∀ mb ∈ s.boxes,
    s.history.enqueued mb = s.history.returned mb ++ (q mb).reverse.map s.payload

/-- The records are where they were, and the threads have their mailboxes. -/
structure Still (s s' : MailState) : Prop where
  registry : s'.registry = s.registry
  payload : ∀ a, s'.payload a = s.payload a
  kheap : s'.kheap.live = s.kheap.live
  uheap : s'.uheap.live = s.uheap.live
  boxes : s'.boxes = s.boxes
  handlers : ∀ mb, (s'.box mb).handlers = (s.box mb).handlers
  subscriptions : ∀ mb, (s'.box mb).subscriptions = (s.box mb).subscriptions
  order : s'.sched.order = s.sched.order
  mailbox : ∀ t, (s'.sched.thread t).mailbox = (s.sched.thread t).mailbox

variable {s s' s'' : MailState} {q : Nat → List Nat} {m a mb : Nat}

theorem Still.refl (s : MailState) : Still s s :=
  ⟨rfl, fun _ => rfl, rfl, rfl, rfl, fun _ => rfl, fun _ => rfl, rfl, fun _ => rfl⟩

theorem Blocks.still (hb : s.Blocks) (h : Still s s') : s'.Blocks where
  registry := by rw [h.registry]; exact hb.registry
  metas := by rw [h.registry, h.kheap]; exact hb.metas
  payloads := by simp only [h.registry, h.payload, h.uheap]; exact hb.payloads
  inj := by simp only [h.registry, h.payload]; exact hb.inj
  kheap := by rw [h.kheap]; exact hb.kheap
  uheap := by rw [h.uheap]; exact hb.uheap
  boxes := by rw [h.boxes, h.kheap, h.registry]; exact hb.boxes
  boxes_nodup := by rw [h.boxes]; exact hb.boxes_nodup
  handlers := by simp only [h.boxes, h.kheap, h.registry, h.handlers]; exact hb.handlers
  handlers_nodup := by simp only [h.boxes, h.handlers]; exact hb.handlers_nodup
  handlers_apart := by simp only [h.boxes, h.handlers]; exact hb.handlers_apart
  threads := by simp only [h.boxes, h.order, h.mailbox]; exact hb.threads

theorem Queues.still (hq : s.Queues q) (h : Still s s') (hl : s'.links = s.links) :
    s'.Queues q where
  ring := by rw [h.boxes, hl]; exact hq.ring
  queued := by rw [h.boxes, h.registry]; exact hq.queued
  apart := by rw [h.boxes]; exact hq.apart

theorem Logged.still (hl : s.Logged q) (h : Still s s') (hh : s'.history = s.history) :
    s'.Logged q := by
  have hpay : s'.payload = s.payload := funext h.payload
  unfold Logged
  rw [h.boxes, hh, hpay]
  exact hl

/-! ## The registry -/

theorem getMailmeta_eq_some (h : s.getMailmeta m = some a) :
    m ≠ 0 ∧ a ∈ s.registry ∧ s.payload a = m := by
  unfold getMailmeta at h
  split_ifs at h with hm
  have heq := List.find?_some h
  exact ⟨hm, List.mem_of_find?_eq_some h, beq_iff_eq.mp heq⟩

theorem getMailmeta_eq_none (hb : s.Blocks) (h : s.getMailmeta m = none) : ¬s.Inflight m := by
  rintro ⟨a, ha, rfl⟩
  unfold getMailmeta at h
  rw [if_neg (hb.payloads a ha).1] at h
  exact (List.find?_eq_none.mp h) a ha (beq_iff_eq.mpr rfl)

theorem Blocks.getMailmeta (hb : s.Blocks) (ha : a ∈ s.registry) :
    s.getMailmeta (s.payload a) = some a := by
  cases h : s.getMailmeta (s.payload a) with
  | none => exact absurd ⟨a, ha, rfl⟩ (getMailmeta_eq_none hb h)
  | some b =>
    obtain ⟨-, hmem, heq⟩ := getMailmeta_eq_some h
    rw [hb.inj b hmem a ha heq]

/-- A mail and its bookkeeping have been allocated. -/
structure Allocated (s : MailState) (a m : Nat) (s' : MailState) : Prop where
  mail_new : m ≠ 0 ∧ m ∉ s.uheap.live
  meta_new : a ∉ s.kheap.live
  registry : s'.registry = a :: s.registry
  metaOf : ∃ id lock, s'.metaOf = Function.update s.metaOf a ⟨id, 1, m, lock⟩
  links : s'.links = s.links.init a
  kheap : s'.kheap.live = a :: s.kheap.live
  uheap : s'.uheap.live = m :: s.uheap.live
  mail : ∀ x ∈ s.uheap.live, s'.mail x = s.mail x
  box : s'.box = s.box
  sched : s'.sched = s.sched
  history : s'.history = s.history

/-- There is no memory for a mail, and nothing that shows has changed. -/
structure Refused (s s' : MailState) : Prop where
  still : Still s s'
  metaOf : s'.metaOf = s.metaOf
  links : s'.links = s.links
  mail : ∀ x ∈ s.uheap.live, s'.mail x = s.mail x
  box : s'.box = s.box
  sched : s'.sched = s.sched
  history : s'.history = s.history

/-- `alloc_mail`: no mail, and nothing that shows has changed, or a new mail in the registry. -/
theorem allocMail_cases (s : MailState) :
    s.allocMail.1 = 0 ∧ Refused s s.allocMail.2 ∨
      ∃ a, Allocated s a s.allocMail.1 s.allocMail.2 := by
  unfold allocMail
  dsimp only
  rcases s.uheap.alloc_cases with ⟨hm, hlive⟩ | ⟨hm, hnew, hlive⟩
  · rw [if_pos hm]
    exact Or.inl ⟨rfl, ⟨rfl, fun _ => rfl, rfl, hlive, rfl, fun _ => rfl, fun _ => rfl, rfl,
      fun _ => rfl⟩, rfl, rfl, fun _ _ => rfl, rfl, rfl, rfl⟩
  rw [if_neg hm]
  have hfree : (s.uheap.alloc.2.free s.uheap.alloc.1).live = s.uheap.live := by
    unfold Pool.free
    simp [hlive]
  rcases s.kheap.alloc_cases with ⟨ha, hklive⟩ | ⟨ha, hknew, hklive⟩
  · rw [if_pos ha]
    exact Or.inl ⟨rfl, ⟨rfl, fun _ => rfl, hklive, hfree, rfl, fun _ => rfl, fun _ => rfl, rfl,
      fun _ => rfl⟩, rfl, rfl, fun _ _ => rfl, rfl, rfl, rfl⟩
  rw [if_neg ha]
  have hkfree : (s.kheap.alloc.2.free s.kheap.alloc.1).live = s.kheap.live := by
    unfold Pool.free
    simp [hklive]
  have hmail : ∀ x ∈ s.uheap.live,
      Function.update s.mail s.uheap.alloc.1 Mail.zero x = s.mail x := by grind
  unfold spinlockAlloc
  split
  · rename_i heq
    split at heq
    · cases heq
    · cases heq
      exact Or.inl ⟨rfl, ⟨rfl, fun _ => rfl, hkfree, hfree, rfl, fun _ => rfl, fun _ => rfl, rfl,
        fun _ => rfl⟩, rfl, rfl, hmail, rfl, rfl, rfl⟩
  · rename_i heq
    split at heq
    · cases heq
      exact Or.inr ⟨s.kheap.alloc.1, ⟨hm, hnew⟩, hknew, rfl, ⟨_, _, rfl⟩, rfl, hklive, hlive, hmail,
        rfl, rfl, rfl⟩
    · cases heq

namespace Allocated

variable (h : Allocated s a m s')
include h

theorem metaOf_self : (s'.metaOf a).refCount = 1 ∧ s'.payload a = m := by
  obtain ⟨id, lock, heq⟩ := h.metaOf
  unfold MailState.payload
  rw [heq, Function.update_self]
  exact ⟨rfl, rfl⟩

theorem metaOf_of_ne {b : Nat} (hb : b ≠ a) : s'.metaOf b = s.metaOf b := by
  obtain ⟨id, lock, heq⟩ := h.metaOf
  rw [heq, Function.update_of_ne hb]

theorem boxes : s'.boxes = s.boxes := congrArg MailHistory.boxes h.history

variable (hb : s.Blocks)

include hb

theorem not_mem_registry : a ∉ s.registry :=
  fun hmem => h.meta_new (hb.metas a hmem)

theorem ne_of_mem {b : Nat} (hmem : b ∈ s.registry) : b ≠ a := fun heq =>
  h.not_mem_registry hb (heq ▸ hmem)

theorem payload_of_mem {b : Nat} (hmem : b ∈ s.registry) :
    s'.payload b = s.payload b := congrArg MailMeta.payload (h.metaOf_of_ne (h.ne_of_mem hb hmem))

theorem blocks : s'.Blocks := by
  have hpay := h.metaOf_self.2
  have hold {b : Nat} (hmem : b ∈ s.registry) := h.payload_of_mem hb hmem
  have hfresh {b : Nat} (hmem : b ∈ s.registry) : s.payload b ≠ m := fun heq =>
    h.mail_new.2 (heq ▸ (hb.payloads b hmem).2)
  refine ⟨?_, ?_, ?_, ?_, ?_, ?_, ?_, ?_, ?_, ?_, ?_, ?_⟩
  · rw [h.registry]
    exact List.nodup_cons.mpr ⟨h.not_mem_registry hb, hb.registry⟩
  · grind [h.registry, h.kheap, hb.metas]
  · grind [h.registry, h.uheap, h.mail_new, hb.payloads]
  · grind [h.registry, hb.inj]
  · rw [h.kheap]
    exact List.nodup_cons.mpr ⟨h.meta_new, hb.kheap⟩
  · rw [h.uheap]
    exact List.nodup_cons.mpr ⟨h.mail_new.2, hb.uheap⟩
  · grind [h.boxes, h.kheap, h.registry, hb.boxes, h.meta_new]
  · rw [h.boxes]
    exact hb.boxes_nodup
  · grind [h.boxes, h.kheap, h.registry, h.box, hb.handlers, h.meta_new]
  · rw [h.boxes, h.box]
    exact hb.handlers_nodup
  · rw [h.boxes, h.box]
    exact hb.handlers_apart
  · rw [h.boxes, h.sched]
    exact hb.threads

theorem queues (hq : s.Queues q) : s'.Queues q := by
  refine ⟨?_, ?_, ?_⟩
  · rw [h.boxes, h.links]
    intro mb hmb
    refine (hq.ring mb hmb).init_of_not_mem fun hmem => ?_
    rcases List.mem_cons.mp hmem with heq | hmem
    · exact h.meta_new (heq ▸ (hb.boxes mb hmb).2.1)
    · exact h.not_mem_registry hb (hq.queued mb hmb a hmem)
  · grind [h.boxes, h.registry, hq.queued]
  · rw [h.boxes]
    exact hq.apart

theorem not_queued (hq : s.Queues q) {mb : Nat} (hmb : mb ∈ s.boxes) : a ∉ q mb :=
  fun hmem => h.not_mem_registry hb (hq.queued mb hmb a hmem)

theorem single (hs : s.Single) : s'.Single := by
  intro b hmem
  rw [h.registry] at hmem
  rcases List.mem_cons.mp hmem with rfl | hmem
  · exact h.metaOf_self.1
  · rw [h.metaOf_of_ne (h.ne_of_mem hb hmem)]
    exact hs b hmem

theorem logged (hq : s.Queues q) (hl : s.Logged q) : s'.Logged q := by
  unfold Logged
  rw [h.boxes, h.history]
  intro mb hmb
  rw [hl mb hmb]
  refine congrArg _ (List.map_congr_left fun b hmem => ?_)
  exact (h.payload_of_mem hb (hq.queued mb hmb b (List.mem_reverse.mp hmem))).symm

end Allocated

/-- A mail has left the registry, and its blocks are free. -/
structure Discarded (s : MailState) (a : Nat) (s' : MailState) : Prop where
  registry : s'.registry = s.registry.erase a
  metaOf : ∀ b ≠ a, s'.metaOf b = s.metaOf b
  links : s'.links = Function.update s.links a ⟨0, 0⟩
  kheap : s'.kheap.live = s.kheap.live.erase a
  uheap : s'.uheap.live = s.uheap.live.erase (s.payload a)
  mail : ∀ x ≠ s.payload a, s'.mail x = s.mail x
  box : s'.box = s.box
  sched : s'.sched = s.sched
  history : s'.history = s.history

/-- `release_mail`: nothing for a mail that is not in the registry; else a reference goes, and with
the last one the mail. -/
theorem releaseMail_cases (hb : s.Blocks) (m : Nat) :
    ¬s.Inflight m ∧ s.releaseMail m = s ∨ ∃ a ∈ s.registry, s.payload a = m ∧
      (1 < (s.metaOf a).refCount ∧ s.releaseMail m =
          s.setMeta a ((s.metaOf a).withRefs ((s.metaOf a).refCount - 1)) ∨
        (s.metaOf a).refCount ≤ 1 ∧ Discarded s a (s.releaseMail m)) := by
  unfold releaseMail
  cases h : s.getMailmeta m with
  | none => exact Or.inl ⟨getMailmeta_eq_none hb h, rfl⟩
  | some a =>
    obtain ⟨-, ha, hpay⟩ := getMailmeta_eq_some h
    refine Or.inr ⟨a, ha, hpay, ?_⟩
    dsimp only
    split_ifs with hr
    · exact Or.inl ⟨by omega, rfl⟩
    · refine Or.inr ⟨by omega, rfl, fun b hne => ?_, rfl, rfl, ?_, fun x hx => ?_, rfl, rfl, rfl⟩
      · simp [discard, setMeta, spinlockRelease, Function.update_of_ne hne]
      · rw [hpay]
        rfl
      · rw [hpay] at hx
        simp [discard, setMeta, spinlockRelease, Function.update_of_ne hx]

/-- A mail with another reference stays. -/
theorem releaseMail_shared (hb : s.Blocks) (ha : a ∈ s.registry)
    (hr : 1 < (s.metaOf a).refCount) : s.releaseMail (s.payload a) =
      s.setMeta a ((s.metaOf a).withRefs ((s.metaOf a).refCount - 1)) := by
  rcases releaseMail_cases hb (s.payload a) with ⟨hno, -⟩ | ⟨b, hmem, hpay, hcase⟩
  · exact absurd ⟨a, ha, rfl⟩ hno
  · grind [hb.inj]

/-- A mail goes with its last reference. -/
theorem releaseMail_last (hb : s.Blocks) (ha : a ∈ s.registry)
    (hr : (s.metaOf a).refCount ≤ 1) : Discarded s a (s.releaseMail (s.payload a)) := by
  rcases releaseMail_cases hb (s.payload a) with ⟨hno, -⟩ | ⟨b, hmem, hpay, hcase⟩
  · exact absurd ⟨a, ha, rfl⟩ hno
  · grind [hb.inj]

namespace Discarded

variable (h : Discarded s a s')
include h

theorem boxes : s'.boxes = s.boxes := congrArg MailHistory.boxes h.history

theorem mem_registry (hb : s.Blocks) {b : Nat} : b ∈ s'.registry ↔ b ≠ a ∧ b ∈ s.registry := by
  rw [h.registry]
  exact hb.registry.mem_erase_iff

theorem payload_of_ne {b : Nat} (hne : b ≠ a) : s'.payload b = s.payload b :=
  congrArg MailMeta.payload (h.metaOf b hne)

theorem blocks (hb : s.Blocks) (ha : a ∈ s.registry) : s'.Blocks := by
  have hmem {b : Nat} := h.mem_registry hb (b := b)
  have hlive {x : Nat} (hx : x ∈ s.kheap.live) (hne : x ≠ a) : x ∈ s'.kheap.live := by
    rw [h.kheap]
    exact hb.kheap.mem_erase_iff.mpr ⟨hne, hx⟩
  refine ⟨?_, fun b hbm => ?_, fun b hbm => ?_, fun b hbm c hcm heq => ?_, ?_, ?_, ?_, ?_, ?_, ?_,
    ?_, ?_⟩
  · rw [h.registry]
    exact hb.registry.erase a
  · obtain ⟨hne, hin⟩ := hmem.mp hbm
    exact hlive (hb.metas b hin) hne
  · grind [h.payload_of_ne, h.uheap, hb.payloads, hb.inj]
  · grind [h.payload_of_ne, hb.inj]
  · rw [h.kheap]
    exact hb.kheap.erase a
  · rw [h.uheap]
    exact hb.uheap.erase _
  · grind [h.boxes, hb.boxes]
  · rw [h.boxes]
    exact hb.boxes_nodup
  · grind [h.boxes, h.box, hb.handlers]
  · rw [h.boxes, h.box]
    exact hb.handlers_nodup
  · rw [h.boxes, h.box]
    exact hb.handlers_apart
  · rw [h.boxes, h.sched]
    exact hb.threads

/-- The queues do not see a mail go that is in none of them. -/
theorem queues (hb : s.Blocks) (ha : a ∈ s.registry) (hq : s.Queues q)
    (hnot : ∀ mb ∈ s.boxes, a ∉ q mb) : s'.Queues q := by
  refine ⟨?_, ?_, ?_⟩
  · rw [h.boxes, h.links]
    intro mb hmb
    refine (hq.ring mb hmb).congr fun x hx => ?_
    have hne : x ≠ a := by
      rintro rfl
      rcases List.mem_cons.mp hx with heq | hx
      · exact (hb.boxes mb hmb).2.2 (heq ▸ ha)
      · exact hnot mb hmb hx
    exact Function.update_of_ne hne _ _
  · grind [h.boxes, h.mem_registry, hq.queued]
  · rw [h.boxes]
    exact hq.apart

theorem single (hb : s.Blocks) (hs : s.Single) : s'.Single := by
  intro b hmem
  obtain ⟨hne, hin⟩ := (h.mem_registry hb).mp hmem
  rw [h.metaOf b hne]
  exact hs b hin

theorem logged (hl : s.Logged q) (hnot : ∀ mb ∈ s.boxes, a ∉ q mb) : s'.Logged q := by
  unfold Logged
  rw [h.boxes, h.history]
  intro mb hmb
  rw [hl mb hmb]
  refine congrArg _ (List.map_congr_left fun b hmem => (h.payload_of_ne ?_).symm)
  rintro rfl
  exact hnot mb hmb (List.mem_reverse.mp hmem)

end Discarded

/-! ## The queues -/

/-- Only the threads' states, links and the record of the past have changed. -/
theorem still_enqueue (s : MailState) (mb a : Nat) : Still s (s.enqueue mb a) :=
  have h := s.sched.sameThreads_wakeOne mb
  ⟨rfl, fun _ => rfl, rfl, rfl, rfl, fun _ => rfl, fun _ => rfl, h.order, h.mailbox⟩

/-- Two rings share no node. -/
theorem Queues.nodes_disjoint (hq : s.Queues q) (hb : s.Blocks) {x : Nat} (hx : x ∈ s.boxes)
    (hmb : mb ∈ s.boxes) (hne : x ≠ mb) : ∀ y ∈ x :: q x, y ∉ mb :: q mb := by
  intro y hy hy'
  rcases List.mem_cons.mp hy with rfl | hyq
  · rcases List.mem_cons.mp hy' with heq | hyq'
    · exact hne heq
    · exact (hb.boxes y hx).2.2 (hq.queued mb hmb y hyq')
  · rcases List.mem_cons.mp hy' with rfl | hyq'
    · exact (hb.boxes y hmb).2.2 (hq.queued x hx y hyq)
    · exact hne (hq.apart x hx mb hmb y hyq hyq')

/-- A mail that is in no queue enters one. -/
theorem Queues.enqueue (hb : s.Blocks) (hq : s.Queues q) (hmb : mb ∈ s.boxes)
    (ha : a ∈ s.registry) (hnot : ∀ mb ∈ s.boxes, a ∉ q mb) :
    (s.enqueue mb a).Queues (Function.update q mb (a :: q mb)) := by
  have hne {x : Nat} (hx : x ∈ s.boxes) : a ≠ x := fun heq => (hb.boxes x hx).2.2 (heq ▸ ha)
  have hfresh {x : Nat} (hx : x ∈ s.boxes) : a ∉ x :: q x := fun hmem => by
    rcases List.mem_cons.mp hmem with heq | hmem
    · exact hne hx heq
    · exact hnot x hx hmem
  refine ⟨fun x hx => ?_, fun x hx b hmem => ?_, fun x hx y hy b hmem hmem' => ?_⟩
  · by_cases hxm : x = mb
    · subst hxm
      rw [Function.update_self]
      exact (hq.ring x hx).add (hfresh hx)
    · rw [Function.update_of_ne hxm]
      exact (hq.ring x hx).add_of_disjoint (hq.ring mb hmb) (hq.nodes_disjoint hb hx hmb hxm)
        (hfresh hx) (hne hmb)
  · by_cases hxm : x = mb
    · subst hxm
      rw [Function.update_self] at hmem
      rcases List.mem_cons.mp hmem with rfl | hmem
      · exact ha
      · exact hq.queued x hx b hmem
    · rw [Function.update_of_ne hxm] at hmem
      exact hq.queued x hx b hmem
  · have hcase {z : Nat} (hz : z ∈ s.boxes) (hzm : b ∈ Function.update q mb (a :: q mb) z) :
        b = a ∧ z = mb ∨ b ∈ q z := by grind
    rcases hcase hx hmem with ⟨rfl, rfl⟩ | h₁ <;> rcases hcase hy hmem' with ⟨h₂, rfl⟩ | h₂
    · rfl
    · exact absurd h₂ (hnot y hy)
    · exact absurd (h₂ ▸ h₁) (hnot x hx)
    · exact hq.apart x hx y hy b h₁ h₂

theorem Logged.enqueue (hl : s.Logged q) :
    (s.enqueue mb a).Logged (Function.update q mb (a :: q mb)) := by
  intro x hx
  by_cases hxm : x = mb
  · subst hxm
    have hx' : x ∈ s.boxes := hx
    rw [Function.update_self]
    change Function.update s.history.enqueued x (s.history.enqueued x ++ [s.payload a]) x =
      s.history.returned x ++ (a :: q x).reverse.map s.payload
    rw [Function.update_self, hl x hx']
    simp
  · rw [Function.update_of_ne hxm]
    change Function.update s.history.enqueued mb _ x = _
    rw [Function.update_of_ne hxm]
    exact hl x hx

/-- `try_get_mail` on a live mailbox: nothing, or the mail that has been queued for longest. -/
theorem tryGetMail_cases (hb : s.Blocks) (hq : s.Queues q) (hmb : mb ∈ s.boxes) :
    q mb = [] ∧ s.tryGetMail mb = (0, s) ∨ ∃ xs a, q mb = xs ++ [a] ∧
      (s.tryGetMail mb).1 = s.payload a ∧ Still s (s.tryGetMail mb).2 ∧
      (s.tryGetMail mb).2.metaOf = s.metaOf ∧ (s.tryGetMail mb).2.links = s.links.del a ∧
      (s.tryGetMail mb).2.history = { s.history with
        returned := Function.update s.history.returned mb
          (s.history.returned mb ++ [s.payload a]) } := by
  have hring := hq.ring mb hmb
  unfold tryGetMail
  rcases List.eq_nil_or_concat (q mb) with hnil | ⟨xs, a, hcons⟩
  · rw [if_pos (Or.inr (hring.empty_iff.mpr hnil))]
    exact Or.inl ⟨hnil, rfl⟩
  · rw [List.concat_eq_append] at hcons
    have hne : ¬(mb = 0 ∨ s.links.Empty mb) := by
      rintro (h | h)
      · exact (hb.boxes mb hmb).1 h
      · rw [hring.empty_iff, hcons] at h
        simp at h
    rw [hcons] at hring
    have hprev := hring.prev_eq
    rw [if_neg hne]
    rw [hprev]
    exact Or.inr ⟨xs, a, hcons, rfl,
      ⟨rfl, fun _ => rfl, rfl, rfl, rfl, fun _ => rfl, fun _ => rfl, rfl, fun _ => rfl⟩, rfl, rfl,
      rfl⟩

/-- A mail leaves a queue. -/
theorem Queues.dequeue (hb : s.Blocks) (hq : s.Queues q) (hmb : mb ∈ s.boxes) {xs ys : List Nat}
    (heq : q mb = xs ++ a :: ys) (hs : Still s s') (hl : s'.links = s.links.del a) :
    s'.Queues (Function.update q mb (xs ++ ys)) := by
  have ha : a ∈ q mb := by simp [heq]
  have hmem {x b : Nat} (h : b ∈ Function.update q mb (xs ++ ys) x) : b ∈ q x := by grind
  refine ⟨?_, ?_, ?_⟩
  · rw [hs.boxes, hl]
    intro x hx
    by_cases hxm : x = mb
    · subst hxm
      rw [Function.update_self]
      have hring := hq.ring x hx
      rw [heq] at hring
      exact hring.del
    · rw [Function.update_of_ne hxm]
      exact (hq.ring x hx).del_of_disjoint (hq.ring mb hmb) (hq.nodes_disjoint hb hx hmb hxm)
        (List.mem_cons_of_mem _ ha)
  · rw [hs.boxes, hs.registry]
    exact fun x hx b h => hq.queued x hx b (hmem h)
  · grind [hs.boxes, hq.apart]

end MailState

end Ukernel.Ipc
