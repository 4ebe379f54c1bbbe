import Ukernel.Ipc.MailboxWf

/-!
# Sending and receiving

What the commands do to the mails as a whole. A send consumes its mail or queues it, and may queue
copies of it; everything else stays where it is.

## Main definitions

* `MailState.Inv`: the invariant between two commands
* `MailState.Moved`: mails other than those of a set are where they were, and new ones are queued

## Main results

* `MailState.broadcast_spec`, `MailState.send_spec`: a send
* `MailState.dispatchUserModeIrq_spec`: a notification of an interrupt
-/

namespace Ukernel.Ipc

open Kernel Lib Machine Mm Sync

namespace MailState

/-- The invariant, the number of references apart. -/
structure Wf (s : MailState) (q : Nat → List Nat) : Prop where
  blocks : s.Blocks
  queues : s.Queues q
  logged : s.Logged q

/-- The invariant between two commands. -/
structure Inv (s : MailState) (q : Nat → List Nat) : Prop extends s.Wf q where
  single : s.Single

/-- The mails outside of `A` are where they were, and mails that have come are in a queue. -/
structure Moved (A : Nat → Prop) (s : MailState) (q : Nat → List Nat) (s' : MailState)
    (q' : Nat → List Nat) : Prop where
  boxes : s'.boxes = s.boxes
  box : s'.box = s.box
  threads : s.sched.SameThreads s'.sched
  others : ∀ b ∈ s.registry, ¬A b → b ∈ s'.registry ∧ s'.payload b = s.payload b ∧
    ∀ mb ∈ s.boxes, b ∈ q' mb ↔ b ∈ q mb
  fresh : ∀ b ∈ s'.registry, b ∉ s.registry →
    s'.payload b ∉ s.uheap.live ∧ ∃ mb ∈ s.boxes, b ∈ q' mb

variable {s s' s'' : MailState} {q q' q'' : Nat → List Nat} {m a mb : Nat} {r : Int}

theorem Moved.refl (A : Nat → Prop) (s : MailState) (q : Nat → List Nat) : Moved A s q s q :=
  ⟨rfl, rfl, Sched.SameThreads.refl _, fun _ hb _ => ⟨hb, rfl, fun _ _ => Iff.rfl⟩,
    fun _ hb hn => absurd hb hn⟩

/-- A change behind the scenes may come before a move. -/
theorem Moved.of_still {A : Nat → Prop} (h : Moved A s' q s'' q'') (hs : Still s s')
    (hbox : s'.box = s.box) (hthreads : s.sched.SameThreads s'.sched) : Moved A s q s'' q'' where
  boxes := h.boxes.trans hs.boxes
  box := h.box.trans hbox
  threads := hthreads.trans h.threads
  others b hmem hne := by
    obtain ⟨h₁, h₂, h₃⟩ := h.others b (hs.registry.symm ▸ hmem) hne
    exact ⟨h₁, h₂.trans (hs.payload b), fun mb hmb => h₃ mb (hs.boxes.symm ▸ hmb)⟩
  fresh b hmem hnot := by
    obtain ⟨h₁, mb, hmb, h₂⟩ := h.fresh b hmem (hs.registry.symm ▸ hnot)
    exact ⟨hs.uheap ▸ h₁, mb, hs.boxes ▸ hmb, h₂⟩

/-- A mail is in no queue. -/
def Unqueued (s : MailState) (q : Nat → List Nat) (a : Nat) : Prop := ∀ mb ∈ s.boxes, a ∉ q mb

theorem Still.single (h : Still s s') (hm : s'.metaOf = s.metaOf) (hs : s.Single) : s'.Single := by
  unfold Single
  rw [h.registry, hm]
  exact hs

/-- A change that keeps records, links and history keeps the invariant. -/
theorem Wf.still (hw : s.Wf q) (h : Still s s') (hl : s'.links = s.links)
    (hh : s'.history = s.history) : s'.Wf q :=
  ⟨hw.blocks.still h, hw.queues.still h hl, hw.logged.still h hh⟩

theorem Allocated.wf (h : Allocated s a m s') (hw : s.Wf q) : s'.Wf q :=
  ⟨h.blocks hw.blocks, h.queues hw.blocks hw.queues, h.logged hw.blocks hw.queues hw.logged⟩

theorem Discarded.wf (h : Discarded s a s') (hw : s.Wf q) (ha : a ∈ s.registry)
    (hnot : s.Unqueued q a) : s'.Wf q :=
  ⟨h.blocks hw.blocks ha, h.queues hw.blocks ha hw.queues hnot, h.logged hw.logged hnot⟩

theorem Wf.enqueue (hw : s.Wf q) (hmb : mb ∈ s.boxes) (ha : a ∈ s.registry)
    (hnot : s.Unqueued q a) : (s.enqueue mb a).Wf (Function.update q mb (a :: q mb)) :=
  ⟨hw.blocks.still (still_enqueue s mb a), hw.queues.enqueue hw.blocks hmb ha hnot,
    hw.logged.enqueue⟩

/-- Changes to the contents of mails do not show. -/
theorem still_setMail (s : MailState) (m : Nat) (v : Mail) : Still s (s.setMail m v) :=
  ⟨rfl, fun _ => rfl, rfl, rfl, rfl, fun _ => rfl, fun _ => rfl, rfl, fun _ => rfl⟩

theorem Wf.setMail (hw : s.Wf q) (m : Nat) (v : Mail) : (s.setMail m v).Wf q :=
  hw.still (still_setMail s m v) rfl rfl

/-- A change to the number of references does not show. -/
theorem still_setRefs (s : MailState) (a : Nat) (r : Int) :
    Still s (s.setMeta a ((s.metaOf a).withRefs r)) := by
  refine ⟨rfl, fun b => ?_, rfl, rfl, rfl, fun _ => rfl, fun _ => rfl, rfl, fun _ => rfl⟩
  unfold payload setMeta
  by_cases h : b = a
  · subst h
    simp [MailMeta.withRefs]
  · simp [Function.update_of_ne h]

/-- A record of the past that keeps the mailboxes and queues does not show. -/
theorem still_invokeHandlers (s : MailState) (mb : Nat) : Still s (s.invokeHandlers mb) :=
  ⟨rfl, fun _ => rfl, rfl, rfl, rfl, fun _ => rfl, fun _ => rfl, rfl, fun _ => rfl⟩

theorem Wf.invokeHandlers (hw : s.Wf q) (mb : Nat) : (s.invokeHandlers mb).Wf q :=
  ⟨hw.blocks.still (still_invokeHandlers s mb), hw.queues.still (still_invokeHandlers s mb) rfl,
    hw.logged⟩

/-! ## Broadcasts -/

/-- The state in the second pass of a broadcast of the mail of `a`: it has `r` references left. -/
structure Passing (s : MailState) (a : Nat) (r : Int) : Prop where
  mem : a ∈ s.registry
  refs : (s.metaOf a).refCount = r
  others : ∀ b ∈ s.registry, b ≠ a → (s.metaOf b).refCount = 1

/-- What a part of the second pass does. -/
structure Spread (s : MailState) (q : Nat → List Nat) (s' : MailState) (q' : Nat → List Nat) :
    Prop extends Moved (fun _ => False) s q s' q' where
  wf : s'.Wf q'
  uheap : s.uheap.live ⊆ s'.uheap.live
  mail : ∀ x ∈ s.uheap.live, s'.mail x = s.mail x

theorem Spread.refl (hw : s.Wf q) : Spread s q s q :=
  ⟨Moved.refl _ s q, hw, List.Subset.refl _, fun _ _ => rfl⟩

theorem Spread.trans (h : Spread s q s' q') (h' : Spread s' q' s'' q'') :
    Spread s q s'' q'' where
  boxes := h'.boxes.trans h.boxes
  box := h'.box.trans h.box
  threads := h.threads.trans h'.threads
  others b hmem _ := by
    obtain ⟨h₁, h₂, h₃⟩ := h.others b hmem not_false
    obtain ⟨h₁', h₂', h₃'⟩ := h'.others b h₁ not_false
    refine ⟨h₁', h₂'.trans h₂, fun mb hmb => ?_⟩
    exact (h₃' mb (h.boxes.symm ▸ hmb)).trans (h₃ mb hmb)
  fresh b hmem hnot := by
    by_cases hin : b ∈ s'.registry
    · grind [h.fresh, h'.others, h.boxes]
    · grind [h'.fresh, h.uheap, h.boxes]
  wf := h'.wf
  uheap := List.Subset.trans h.uheap h'.uheap
  mail x hx := (h'.mail x (h.uheap hx)).trans (h.mail x hx)

/-- A new mail that is queued at once. -/
theorem Allocated.spread_enqueue (h : Allocated s a m s') (hw : s.Wf q) (hmb : mb ∈ s.boxes)
    (v : Mail) : Spread s q ((s'.setMail m v).enqueue mb a) (Function.update q mb (a :: q mb)) ∧
      ((s'.setMail m v).enqueue mb a).metaOf = s'.metaOf := by
  have hw' : (s'.setMail m v).Wf q := (h.wf hw).setMail m v
  have hboxes : s'.boxes = s.boxes := h.boxes
  have hreg : ((s'.setMail m v).enqueue mb a).registry = a :: s.registry := h.registry
  have hpay (b : Nat) : ((s'.setMail m v).enqueue mb a).payload b = s'.payload b := rfl
  have hst := (s'.setMail m v).sched.sameThreads_wakeOne mb
  refine ⟨⟨⟨hboxes, h.box, ?_, fun b hmem _ => ?_, fun b hmem hnot => ?_⟩, ?_, ?_, ?_⟩, rfl⟩
  · have heq : (s'.setMail m v).sched = s.sched := h.sched
    rw [← heq]
    exact hst
  · grind [h.payload_of_mem, hw.blocks, h.ne_of_mem]
  · grind [h.metaOf_self, h.mail_new]
  · refine hw'.enqueue (hboxes.symm ▸ hmb) (h.registry ▸ List.mem_cons_self) fun x hx => ?_
    exact h.not_queued hw.blocks hw.queues (hboxes ▸ hx)
  · have hu : ((s'.setMail m v).enqueue mb a).uheap.live = m :: s.uheap.live := h.uheap
    rw [hu]
    exact List.subset_cons_self _ _
  · intro x hx
    have hne : x ≠ m := fun heq => h.mail_new.2 (heq ▸ hx)
    exact (Function.update_of_ne hne _ _).trans (h.mail x hx)

theorem Refused.spread (h : Refused s s') (hw : s.Wf q) : Spread s q s' q where
  boxes := h.still.boxes
  box := h.box
  threads := by
    rw [h.sched]
    exact Sched.SameThreads.refl _
  others b hmem _ := ⟨h.still.registry.symm ▸ hmem, h.still.payload b, fun _ _ => Iff.rfl⟩
  fresh b hmem hnot := absurd (h.still.registry ▸ hmem) hnot
  wf := hw.still h.still h.links h.history
  uheap := by
    rw [h.still.uheap]
    exact List.Subset.refl _
  mail := h.mail

theorem Refused.passing (h : Refused s s') (hp : s.Passing a r) : s'.Passing a r := by
  refine ⟨?_, ?_, ?_⟩
  · rw [h.still.registry]
    exact hp.mem
  · rw [h.metaOf]
    exact hp.refs
  · rw [h.still.registry, h.metaOf]
    exact hp.others

theorem Allocated.passing {c : Nat} (h : Allocated s c m s') (hb : s.Blocks) (hp : s.Passing a r)
    (hmeta : s''.metaOf = s'.metaOf) (hreg : s''.registry = s'.registry) : s''.Passing a r := by
  refine ⟨?_, ?_, fun b hmem hne => ?_⟩
  · rw [hreg, h.registry]
    exact List.mem_cons_of_mem _ hp.mem
  · rw [hmeta, h.metaOf_of_ne (h.ne_of_mem hb hp.mem)]
    exact hp.refs
  · rw [hmeta]
    rw [hreg, h.registry] at hmem
    rcases List.mem_cons.mp hmem with rfl | hmem
    · exact h.metaOf_self.1
    · rw [h.metaOf_of_ne (h.ne_of_mem hb hmem)]
      exact hp.others b hmem hne

/-- The handlers of a mailbox run on a broadcast. -/
def Handles (s : MailState) (m mb : Nat) : Prop :=
  s.Subscribed mb (s.mail m).magic ∧ (s.box mb).handlers ≠ []

instance (s : MailState) (m mb : Nat) : Decidable (s.Handles m mb) := by
  unfold Handles
  infer_instance

theorem Spread.handles (h : Spread s q s' q') (hm : m ∈ s.uheap.live) (mb : Nat) :
    s'.Handles m mb ↔ s.Handles m mb := by
  unfold Handles Subscribed
  rw [h.mail m hm, h.box]

/-- Handlers run, and one of the references goes. -/
theorem sendMail_handlers (hw : s.Wf q) (hp : s.Passing a r) (hr : 1 < r)
    (hmb : mb ∈ s.boxes) (hh : (s.box mb).handlers ≠ []) :
    Spread s q (s.sendMail mb (s.payload a)).2 q ∧
      (s.sendMail mb (s.payload a)).2.Passing a (r - 1) := by
  have hm := (hw.blocks.payloads a hp.mem).1
  unfold sendMail
  rw [if_neg (not_or.mpr ⟨(hw.blocks.boxes mb hmb).1, hm⟩), if_pos hh]
  have hw' := hw.invokeHandlers mb
  have hrefs : ((s.invokeHandlers mb).metaOf a).refCount = r := hp.refs
  have heq : (s.invokeHandlers mb).releaseMail (s.payload a) = _ :=
    releaseMail_shared hw'.blocks hp.mem (hrefs.symm ▸ hr)
  rw [hrefs] at heq
  rw [heq]
  have hst := still_setRefs (s.invokeHandlers mb) a (r - 1)
  refine ⟨⟨⟨rfl, rfl, Sched.SameThreads.refl _, fun c hc _ => ⟨hc, hst.payload c,
    fun _ _ => Iff.rfl⟩, fun c hc hn => absurd hc hn⟩, hw'.still hst rfl rfl,
    List.Subset.refl _, fun _ _ => rfl⟩, hp.mem, ?_, fun c hc hne => ?_⟩
  · simp [setMeta, MailMeta.withRefs]
  · simp only [setMeta, Function.update_of_ne hne]
    exact hp.others c hc hne

/-- The second pass at one mailbox. -/
theorem deliver_spec (hw : s.Wf q) (hp : s.Passing a r) (hmb : mb ∈ s.boxes)
    (hr : s.Handles (s.payload a) mb → 1 < r) :
    ∃ q', Spread s q (deliver (s.payload a) s mb) q' ∧ (deliver (s.payload a) s mb).Passing a
      (if s.Handles (s.payload a) mb then r - 1 else r) := by
  unfold deliver
  by_cases hsub : s.Subscribed mb (s.mail (s.payload a)).magic
  · rw [if_pos hsub]
    by_cases hh : (s.box mb).handlers ≠ []
    · have hhandles : s.Handles (s.payload a) mb := ⟨hsub, hh⟩
      rw [if_pos hh, if_pos hhandles]
      exact ⟨q, sendMail_handlers hw hp (hr hhandles) hmb hh⟩
    · rw [if_neg hh, if_neg fun h => hh h.2]
      dsimp only
      rcases s.allocMail_cases with ⟨hz, href⟩ | ⟨c, hc⟩
      · -- no memory for the copy
        rw [if_pos hz]
        exact ⟨q, href.spread hw, href.passing hp⟩
      · rw [if_neg hc.mail_new.1]
        have hw' := (hc.wf hw).blocks
        have hget : s.allocMail.2.getMailmeta s.allocMail.1 = some c := by
          have h := hw'.getMailmeta (hc.registry ▸ List.mem_cons_self)
          rwa [hc.metaOf_self.2] at h
        have hget' (v : Mail) : (s.allocMail.2.setMail s.allocMail.1 v).getMailmeta
            s.allocMail.1 = some c := hget
        rw [hget']
        obtain ⟨hspread, hmeta⟩ := hc.spread_enqueue hw hmb _
        exact ⟨_, hspread, hc.passing hw.blocks hp hmeta rfl⟩
  · rw [if_neg hsub, if_neg fun h => hsub h.1]
    exact ⟨q, Spread.refl hw, hp⟩

/-- The whole second pass leaves the mail with the reference of its sender. -/
theorem foldl_deliver_spec (mbs : List Nat) (hw : s.Wf q) (hmbs : ∀ mb ∈ mbs, mb ∈ s.boxes)
    (hp : s.Passing a (1 + (mbs.countP fun mb => s.Handles (s.payload a) mb : Nat))) :
    ∃ q', Spread s q (mbs.foldl (deliver (s.payload a)) s) q' ∧
      (mbs.foldl (deliver (s.payload a)) s).Passing a 1 := by
  induction mbs generalizing s q with
  | nil => exact ⟨q, Spread.refl hw, hp⟩
  | cons mb mbs ih =>
    rw [List.countP_cons] at hp
    obtain ⟨q₁, hspread, hp₁⟩ := deliver_spec hw hp (hmbs mb List.mem_cons_self) fun h => by
      simp only [h, decide_true, if_true]
      omega
    have hpay := (hspread.others a hp.mem not_false).2.1
    have hlive := (hw.blocks.payloads a hp.mem).2
    -- who runs handlers is decided by what the pass does not touch
    have hcount : (mbs.countP fun x => (deliver (s.payload a) s mb).Handles (s.payload a) x) =
        mbs.countP fun x => s.Handles (s.payload a) x :=
      List.countP_congr fun x _ => by simp only [hspread.handles hlive x]
    have hleft (n : Nat) : (if s.Handles (s.payload a) mb then
        1 + ((n + if decide (s.Handles (s.payload a) mb) = true then 1 else 0 : Nat) : Int) - 1
        else 1 + ((n + if decide (s.Handles (s.payload a) mb) = true then 1 else 0 : Nat) : Int)) =
          1 + (n : Int) := by grind
    obtain ⟨q₂, hspread₂, hp₂⟩ := ih hspread.wf
      (fun x hx => hspread.boxes.symm ▸ hmbs x (List.mem_cons_of_mem _ hx))
      (by rw [hpay, hcount, ← hleft]; exact hp₁)
    rw [hpay] at hspread₂ hp₂
    exact ⟨q₂, hspread.trans hspread₂, hp₂⟩

/-! ## Sends -/

/-- The mail of `a` has gone, and everything else is in order. -/
structure Consumed (s : MailState) (q : Nat → List Nat) (a : Nat) (s' : MailState)
    (q' : Nat → List Nat) : Prop extends Moved (· = a) s q s' q' where
  inv : s'.Inv q'
  gone : a ∉ s'.registry

/-- The mail of `a` is in a queue now, and everything else is in order. -/
structure Posted (s : MailState) (q : Nat → List Nat) (a : Nat) (s' : MailState)
    (q' : Nat → List Nat) : Prop extends Moved (· = a) s q s' q' where
  inv : s'.Inv q'
  mem : a ∈ s'.registry
  payload : s'.payload a = s.payload a
  queued : ∃ mb ∈ s.boxes, a ∈ q' mb

/-- The last reference to a mail goes after its second pass. -/
theorem Spread.consumed (h : Spread s q s' q') (hnot : s.Unqueued q a) (ha : a ∈ s.registry)
    (hp : s'.Passing a 1) (hd : Discarded s' a s'') : Consumed s q a s'' q' := by
  have hnot' : s'.Unqueued q' a := fun mb hmb hmem => by
    rw [h.boxes] at hmb
    exact hnot mb hmb (((h.others a ha not_false).2.2 mb hmb).mp hmem)
  have hreg {b : Nat} := hd.mem_registry h.wf.blocks (b := b)
  refine ⟨⟨hd.boxes.trans h.boxes, hd.box.trans h.box, ?_, fun b hb hne => ?_,
    fun b hb hn => ?_⟩, ⟨hd.wf h.wf hp.mem hnot', fun b hb => ?_⟩, fun hmem => (hreg.mp hmem).1 rfl⟩
  · rw [hd.sched]
    exact h.threads
  · grind [h.others, hd.payload_of_ne]
  · obtain ⟨hne, hin⟩ := hreg.mp hb
    rw [hd.payload_of_ne hne]
    exact h.fresh b hin hn
  · grind [hd.metaOf, hp.others]

/-- `release_mail` for a mail that is in no queue. -/
theorem releaseMail_consumed (hi : s.Inv q) (ha : a ∈ s.registry) (hnot : s.Unqueued q a) :
    Consumed s q a (s.releaseMail (s.payload a)) q := by
  have hd := releaseMail_last hi.blocks ha (hi.single a ha).le
  refine (Spread.refl hi.toWf).consumed hnot ha ⟨ha, hi.single a ha, ?_⟩ hd
  exact fun c hc _ => hi.single c hc

theorem mailboxes_subset (hb : s.Blocks) : ∀ mb ∈ s.mailboxes, mb ∈ s.boxes := by
  intro mb hmb
  unfold mailboxes at hmb
  rw [List.mem_filter, List.mem_map] at hmb
  obtain ⟨⟨t, ht, rfl⟩, hne⟩ := hmb
  exact (hb.threads t ht).resolve_left (of_decide_eq_true hne)

/-- A broadcast consumes its mail. -/
theorem broadcast_spec (hi : s.Inv q) (ha : a ∈ s.registry) (hnot : s.Unqueued q a) :
    ∃ q', Consumed s q a (s.broadcast (s.payload a)).2 q' := by
  unfold broadcast
  split_ifs with hempty
  · exact ⟨q, releaseMail_consumed hi ha hnot⟩
  · rw [hi.blocks.getMailmeta ha]
    dsimp only
    rw [hi.single a ha]
    set n := s.handlerRecipients (s.payload a) with hn
    have hst := still_setRefs s a (1 + n)
    set s₁ := s.setMeta a ((s.metaOf a).withRefs (1 + n)) with hs₁
    have hw₁ : s₁.Wf q := hi.toWf.still hst rfl rfl
    have hpay : s₁.payload a = s.payload a := hst.payload a
    have hp₁ : s₁.Passing a
        (1 + (s.mailboxes.countP fun mb => s₁.Handles (s₁.payload a) mb : Nat)) := by
      refine ⟨ha, ?_, fun b hb hne => ?_⟩
      · have hcount : n = s.mailboxes.countP fun mb => s₁.Handles (s.payload a) mb := by
          refine List.countP_congr fun x _ => ?_
          exact Iff.rfl
        rw [hpay, ← hcount]
        simp [hs₁, setMeta, MailMeta.withRefs]
      · simp only [hs₁, setMeta, Function.update_of_ne hne]
        exact hi.single b hb
    obtain ⟨q', hspread, hp⟩ := foldl_deliver_spec s.mailboxes hw₁ (mailboxes_subset hi.blocks) hp₁
    rw [hpay] at hspread hp
    have hpay' := (hspread.others a ha not_false).2.1.trans hpay
    have hnot₁ : s₁.Unqueued q a := hnot
    have hd := releaseMail_last hspread.wf.blocks hp.mem hp.refs.le
    rw [hpay'] at hd
    have hc := hspread.consumed hnot₁ ha hp hd
    exact ⟨q', hc.toMoved.of_still hst rfl (Sched.SameThreads.refl _), hc.inv, hc.gone⟩

/-- Nothing has happened to any mail. -/
structure Quiet (s : MailState) (q : Nat → List Nat) (s' : MailState) : Prop
    extends Moved (fun _ => False) s q s' q where
  inv : s'.Inv q
  registry : s'.registry = s.registry

/-- A change that keeps records, links, history and the numbers of references. -/
theorem Still.quiet (h : Still s s') (hbox : s'.box = s.box)
    (hthreads : s.sched.SameThreads s'.sched) (hw : s'.Wf q) (hm : s'.metaOf = s.metaOf)
    (hs : s.Single) : Quiet s q s' where
  boxes := h.boxes
  box := hbox
  threads := hthreads
  others b hmem _ := ⟨h.registry.symm ▸ hmem, h.payload b, fun _ _ => Iff.rfl⟩
  fresh _ hmem hnot := absurd (h.registry ▸ hmem) hnot
  inv := ⟨hw, h.single hm hs⟩
  registry := h.registry

theorem Inv.invokeHandlers (hi : s.Inv q) (mb : Nat) : Quiet s q (s.invokeHandlers mb) :=
  (still_invokeHandlers s mb).quiet rfl (Sched.SameThreads.refl _) (hi.toWf.invokeHandlers mb) rfl
    hi.single

theorem Inv.quiet (hi : s.Inv q) : Quiet s q s :=
  ⟨Moved.refl _ s q, hi, rfl⟩

/-- `release_mail` for a mail that is not in the registry. -/
theorem releaseMail_of_not_inflight (hb : s.Blocks) (hm : ¬s.Inflight m) : s.releaseMail m = s := by
  rcases releaseMail_cases hb m with ⟨-, heq⟩ | ⟨a, ha, hpay, -⟩
  · exact heq
  · exact absurd ⟨a, ha, hpay⟩ hm

/-- `send_mail` to a mailbox with handlers consumes the mail, to another one queues it. -/
theorem sendMail_spec (hi : s.Inv q) (hmb : mb ∈ s.boxes) (ha : a ∈ s.registry)
    (hnot : s.Unqueued q a) :
    (s.box mb).handlers ≠ [] ∧ Consumed s q a (s.sendMail mb (s.payload a)).2 q ∨
      (s.box mb).handlers = [] ∧ Posted s q a (s.sendMail mb (s.payload a)).2
        (Function.update q mb (a :: q mb)) ∧
        (s.sendMail mb (s.payload a)).2 = s.enqueue mb a := by
  unfold sendMail
  rw [if_neg (not_or.mpr ⟨(hi.blocks.boxes mb hmb).1, (hi.blocks.payloads a ha).1⟩)]
  by_cases hh : (s.box mb).handlers ≠ []
  · rw [if_pos hh]
    have hquiet := hi.invokeHandlers mb
    have hc : Consumed (s.invokeHandlers mb) q a
        ((s.invokeHandlers mb).releaseMail (s.payload a)) q :=
      releaseMail_consumed hquiet.inv ha hnot
    exact Or.inl ⟨hh, hc.toMoved.of_still (still_invokeHandlers s mb) rfl
      (Sched.SameThreads.refl _), hc.inv, hc.gone⟩
  · rw [if_neg hh, hi.blocks.getMailmeta ha]
    refine Or.inr ⟨not_not.mp hh, ⟨⟨rfl, rfl, s.sched.sameThreads_wakeOne mb, fun b hb hne => ?_,
      fun b hb hn => absurd hb hn⟩, ⟨hi.toWf.enqueue hmb ha hnot, hi.single⟩, ha, rfl,
      mb, hmb, by simp⟩, rfl⟩
    refine ⟨hb, rfl, fun x _ => ?_⟩
    by_cases hxm : x = mb
    · subst hxm
      simp [hne]
    · rw [Function.update_of_ne hxm]

/-- `send_mail` for a mail that is not in the registry. -/
theorem sendMail_of_not_inflight (hi : s.Inv q) (hm : ¬s.Inflight m) (mb : Nat) :
    Quiet s q (s.sendMail mb m).2 := by
  unfold sendMail
  split_ifs
  · exact hi.quiet
  · have hquiet := hi.invokeHandlers mb
    have hm' : ¬(s.invokeHandlers mb).Inflight m := hm
    rw [releaseMail_of_not_inflight hquiet.inv.blocks hm']
    exact hquiet
  · cases h : s.getMailmeta m with
    | none =>
      rw [releaseMail_of_not_inflight hi.blocks hm]
      exact hi.quiet
    | some a =>
      obtain ⟨-, ha, hpay⟩ := getMailmeta_eq_some h
      exact absurd ⟨a, ha, hpay⟩ hm

/-- A send of a mail does not end in a queue: it goes to everybody, or its receiver does not exist,
or has handlers. -/
def Consumes (s : MailState) (m : Nat) : Prop :=
  (s.mail m).receiverTid = mailAnyTid ∨
    ∀ t, s.threadGetByTid (s.mail m).receiverTid = some t →
      (s.sched.thread t).mailbox = 0 ∨ (s.box (s.sched.thread t).mailbox).handlers ≠ []

/-- `send` of a mail that is in no queue: it is consumed or queued. -/
theorem send_spec (hi : s.Inv q) (ha : a ∈ s.registry) (hnot : s.Unqueued q a) :
    s.Consumes (s.payload a) ∧ (∃ q', Consumed s q a (s.send (s.payload a)).2 q') ∨
      ¬s.Consumes (s.payload a) ∧ ∃ q', Posted s q a (s.send (s.payload a)).2 q' := by
  unfold send
  rw [if_neg (hi.blocks.payloads a ha).1]
  split_ifs with hany
  · exact Or.inl ⟨Or.inl hany, broadcast_spec hi ha hnot⟩
  · cases ht : s.threadGetByTid (s.mail (s.payload a)).receiverTid with
    | none =>
      refine Or.inl ⟨Or.inr fun t h => ?_, q, releaseMail_consumed hi ha hnot⟩
      rw [ht] at h
      cases h
    | some t =>
      dsimp only
      have hmem : t ∈ s.sched.order := List.mem_of_find?_eq_some ht
      by_cases hz : (s.sched.thread t).mailbox = 0
      · rw [if_pos hz]
        refine Or.inl ⟨Or.inr fun t' h => ?_, q, releaseMail_consumed hi ha hnot⟩
        rw [ht] at h
        cases h
        exact Or.inl hz
      · rw [if_neg hz]
        have hmb := (hi.blocks.threads t hmem).resolve_left hz
        rcases sendMail_spec hi hmb ha hnot with ⟨hh, hc⟩ | ⟨hh, hp, -⟩
        · refine Or.inl ⟨Or.inr fun t' h => ?_, q, hc⟩
          rw [ht] at h
          cases h
          exact Or.inr hh
        · refine Or.inr ⟨?_, _, hp⟩
          rintro (h | h)
          · exact hany h
          · grind

/-- `send` of a mail that is not in the registry. -/
theorem send_of_not_inflight (hi : s.Inv q) (hm : ¬s.Inflight m) : Quiet s q (s.send m).2 := by
  have hrel := releaseMail_of_not_inflight hi.blocks hm
  unfold send
  split_ifs
  · exact hi.quiet
  · unfold broadcast
    split_ifs
    · rw [hrel]
      exact hi.quiet
    · cases h : s.getMailmeta m with
      | none => exact hi.quiet
      | some a =>
        obtain ⟨-, ha, hpay⟩ := getMailmeta_eq_some h
        exact absurd ⟨a, ha, hpay⟩ hm
  · grind [hi.quiet, sendMail_of_not_inflight]

/-! ## Interrupts -/

/-- A notification of an interrupt is a new mail in the queue of the thread, or nothing. -/
theorem dispatchUserModeIrq_spec (hi : s.Inv q) {owner : Nat} (ho : owner ∈ s.sched.order)
    (tid : Int) : ∃ q', (s.dispatchUserModeIrq owner tid).Inv q' ∧
      Moved (fun _ => False) s q (s.dispatchUserModeIrq owner tid) q' := by
  unfold dispatchUserModeIrq
  dsimp only
  split_ifs with hz hm
  · exact ⟨q, hi, Moved.refl _ s q⟩
  · rcases s.allocMail_cases with ⟨-, href⟩ | ⟨c, hc⟩
    · have h := href.spread hi.toWf
      exact ⟨q, ⟨h.wf, href.still.single href.metaOf hi.single⟩, h.toMoved⟩
    · exact absurd hm hc.mail_new.1
  · rcases s.allocMail_cases with ⟨hz', -⟩ | ⟨c, hc⟩
    · exact absurd hz' hm
    · have hmb := (hi.blocks.threads owner ho).resolve_left hz
      set mb := (s.sched.thread owner).mailbox with hmbdef
      set v : Mail := { s.allocMail.2.mail s.allocMail.1 with
        magic := mailMagicIrq, receiverTid := tid } with hv
      obtain ⟨hspread, hmeta⟩ := hc.spread_enqueue hi.toWf hmb v
      have hi' : (s.allocMail.2.setMail s.allocMail.1 v).Inv q :=
        ⟨(hc.wf hi.toWf).setMail _ v, hc.single hi.blocks hi.single⟩
      have hcmem : c ∈ (s.allocMail.2.setMail s.allocMail.1 v).registry :=
        hc.registry ▸ List.mem_cons_self
      have hpay : (s.allocMail.2.setMail s.allocMail.1 v).payload c = s.allocMail.1 :=
        hc.metaOf_self.2
      have hboxes : (s.allocMail.2.setMail s.allocMail.1 v).boxes = s.boxes := hc.boxes
      have hnot : (s.allocMail.2.setMail s.allocMail.1 v).Unqueued q c := fun x hx =>
        hc.not_queued hi.blocks hi.queues (hboxes ▸ hx)
      have hcase := sendMail_spec hi' (hboxes.symm ▸ hmb) hcmem hnot
      rw [hpay] at hcase
      rcases hcase with ⟨-, hcons⟩ | ⟨-, hpost, heq⟩
      · -- the new mail is consumed by handlers
        refine ⟨q, hcons.inv, hcons.boxes.trans hboxes, hcons.box.trans hc.box, ?_,
          fun b hb _ => ?_, fun b hb hn => ?_⟩
        · have hsch : (s.allocMail.2.setMail s.allocMail.1 v).sched = s.sched := hc.sched
          rw [← hsch]
          exact hcons.threads
        · have hne := hc.ne_of_mem hi.blocks hb
          obtain ⟨h₁, h₂, h₃⟩ := hcons.others b (hc.registry ▸ List.mem_cons_of_mem _ hb) hne
          refine ⟨h₁, h₂.trans (hc.payload_of_mem hi.blocks hb), fun x hx => ?_⟩
          exact h₃ x (hboxes.symm ▸ hx)
        · exfalso
          by_cases hbc : b = c
          · exact hcons.gone (hbc ▸ hb)
          · have hin : b ∉ (s.allocMail.2.setMail s.allocMail.1 v).registry := fun hin => by
              have hin' : b ∈ c :: s.registry := hc.registry ▸ hin
              exact ((List.mem_cons.mp hin').elim hbc hn)
            obtain ⟨-, x, hx, hxq⟩ := hcons.fresh b hb hin
            exact hin (hi'.queues.queued x hx b hxq)
      · rw [heq]
        exact ⟨_, ⟨hspread.wf, heq ▸ hpost.inv.single⟩, hspread.toMoved⟩

end MailState

end Ukernel.Ipc
