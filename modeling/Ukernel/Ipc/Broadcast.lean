import Ukernel.Ipc.MailboxSystem

/-!
# Who gets a broadcast

A broadcast is two passes over the threads: the first counts the mailboxes whose handlers will run,
and adds their number to the references of the mail; the second puts a copy into each subscribed
mailbox without handlers, and runs the handlers of the others. The two passes agree about who is
who, so that the mail has references left at every call of a handler, and one at the end.

## Why a reference of its own matters

At the end the sender's reference goes. A mail that is queued has been sent before, and the
reference of its sender went with it to the queue: if it is broadcast from there, it is freed while
it is queued. Nothing else can go wrong, so the mailboxes are served as they should be exactly if
the mail is in no queue, or has a second reference.

## Main definitions

* `HandlerCall`, `MailState.broadcastCalls`: the calls of handlers, with what they are called on
* `MailState.Settled`: the mailboxes between two commands, with any number of references
* `MailState.Reached`: subscribers have copies, handlers have run, nothing else has changed

## Main results

* `MailState.deliver_pass`, `MailState.foldl_deliver_pass`: one mailbox, and the second pass
* `broadcast_reaches_subscribers`: when a broadcast reaches its subscribers and nobody else
-/

namespace Ukernel.Ipc

open Kernel Lib Machine Mm Sync

/-- A call of a handler for a mail. -/
structure HandlerCall where
  mb : Nat
  handler : Nat
  /-- The mail is in the registry during the call. -/
  live : Bool
  /-- What the handler finds in the mail. -/
  mail : Mail

namespace MailState

/-- A copy of a broadcast goes to a mailbox. -/
def Copies (s : MailState) (m mb : Nat) : Prop :=
  s.Subscribed mb (s.mail m).magic ∧ (s.box mb).handlers = []

/-- The functions that `send_mail` calls for a mailbox, in order. -/
def called (s : MailState) (mb : Nat) : List Nat :=
  ((s.box mb).handlers.map MailHandler.handler).filter (· ≠ 0)

/-- The calls for one mailbox in the second pass of a broadcast. -/
def callsAt (s : MailState) (m mb : Nat) : List HandlerCall :=
  if s.Handles m mb then
    (s.called mb).map fun handler => ⟨mb, handler, (s.getMailmeta m).isSome, s.mail m⟩
  else []

/-- The calls of the second pass. -/
def passCalls (m : Nat) : List Nat → MailState → List HandlerCall
  | [], _ => []
  | mb :: mbs, s => s.callsAt m mb ++ passCalls m mbs (deliver m s mb)

/-- The state in which the second pass begins: the mail has a reference for each mailbox with
handlers. -/
def secondPass (s : MailState) (m : Nat) : MailState :=
  match s.getMailmeta m with
  | none => s
  | some a =>
    s.setMeta a ((s.metaOf a).withRefs ((s.metaOf a).refCount + s.handlerRecipients m))

/-- The calls of a broadcast. -/
def broadcastCalls (s : MailState) (m : Nat) : List HandlerCall :=
  passCalls m s.mailboxes (s.secondPass m)

/-- There is memory for every copy. -/
def AllocsSucceed (m : Nat) : List Nat → MailState → Prop
  | [], _ => True
  | mb :: mbs, s => (s.Copies m mb → s.allocMail.1 ≠ 0) ∧ AllocsSucceed m mbs (deliver m s mb)

/-- The mailboxes between two commands: a mail may have any number of references, but has one. -/
structure Settled (s : MailState) (q : Nat → List Nat) : Prop where
  blocks : s.Blocks
  queues : s.Queues q
  owned : s.Owned
  refs : ∀ a ∈ s.registry, 1 ≤ (s.metaOf a).refCount

/-- A mail of `s'` is a copy of a mail of `s`, and is new. -/
structure Copied (s : MailState) (m : Nat) (s' : MailState) (c : Nat) : Prop where
  fresh : c ∉ s.registry
  tracked : c ∈ s'.registry
  payload : s'.payload c ∉ s.uheap.live
  refs : (s'.metaOf c).refCount = 1
  mail : s'.mail (s'.payload c) = s.mail m

variable {s s' s'' : MailState} {q q' q'' : Nat → List Nat} {m a mb : Nat} {mbs : List Nat}

/-- Every mailbox is the mailbox of one thread. -/
theorem Owned.mailboxes_nodup (h : s.Owned) : s.mailboxes.Nodup := by
  unfold mailboxes
  rw [List.filter_map]
  refine (h.nodup.filter _).map_on fun t ht t' ht' heq => ?_
  rw [List.mem_filter] at ht ht'
  exact h.apart t ht.1 t' ht'.1 (of_decide_eq_true ht.2) heq

/-! ## One mailbox -/

/-- What the second pass of a broadcast of the mail of `a` has done at the mailboxes `mbs`. -/
structure Pass (s : MailState) (q : Nat → List Nat) (a : Nat) (mbs : List Nat) (s' : MailState)
    (q' : Nat → List Nat) : Prop where
  blocks : s'.Blocks
  queues : s'.Queues q'
  boxes : s'.boxes = s.boxes
  box : s'.box = s.box
  registry : s.registry ⊆ s'.registry
  uheap : s.uheap.live ⊆ s'.uheap.live
  mail : ∀ x ∈ s.uheap.live, s'.mail x = s.mail x
  metaOf : ∀ b ∈ s.registry, b ≠ a → s'.metaOf b = s.metaOf b
  refs : s'.metaOf a = (s.metaOf a).withRefs
    ((s.metaOf a).refCount - (mbs.countP fun mb => s.Handles (s.payload a) mb : Nat))
  copied : ∀ mb ∈ mbs, s.Copies (s.payload a) mb →
    ∃ c, q' mb = c :: q mb ∧ s.Copied (s.payload a) s' c
  untouched : ∀ mb, ¬(mb ∈ mbs ∧ s.Copies (s.payload a) mb) →
    q' mb = q mb ∧ s'.sched.waiters mb = s.sched.waiters mb

theorem Pass.payload (h : Pass s q a mbs s' q') {b : Nat} (hb : b ∈ s.registry) :
    s'.payload b = s.payload b := by
  unfold MailState.payload
  by_cases hba : b = a
  · rw [hba, h.refs]
    rfl
  · rw [h.metaOf b hb hba]

/-- Who takes part is decided by what the pass does not touch. -/
theorem Pass.handles (h : Pass s q a mbs s' q') (hm : m ∈ s.uheap.live) (mb : Nat) :
    s'.Handles m mb ↔ s.Handles m mb := by
  unfold Handles Subscribed
  rw [h.mail m hm, h.box]

theorem Pass.copies (h : Pass s q a mbs s' q') (hm : m ∈ s.uheap.live) (mb : Nat) :
    s'.Copies m mb ↔ s.Copies m mb := by
  unfold Copies Subscribed
  rw [h.mail m hm, h.box]

theorem not_handles_of_copies (h : s.Copies m mb) : ¬s.Handles m mb := fun hh => hh.2 h.2

/-- Nothing happens at a mailbox that has no part in the broadcast. -/
theorem Pass.refl (hb : s.Blocks) (hq : s.Queues q)
    (hmbs : ∀ mb ∈ mbs, ¬s.Handles (s.payload a) mb ∧ ¬s.Copies (s.payload a) mb) :
    Pass s q a mbs s q where
  blocks := hb
  queues := hq
  boxes := rfl
  box := rfl
  registry := List.Subset.refl _
  uheap := List.Subset.refl _
  mail _ _ := rfl
  metaOf _ _ _ := rfl
  refs := by
    have hcount : (mbs.countP fun mb => s.Handles (s.payload a) mb) = 0 :=
      List.countP_eq_zero.mpr fun mb hmb => by simpa using (hmbs mb hmb).1
    rw [hcount]
    simp [MailMeta.withRefs]
  copied mb hmb hc := absurd hc (hmbs mb hmb).2
  untouched _ _ := ⟨rfl, rfl⟩

/-- Handlers run, and one of the references goes. -/
theorem sendMail_pass (hb : s.Blocks) (hq : s.Queues q) (ha : a ∈ s.registry)
    (hr : 1 < (s.metaOf a).refCount) (hmb : mb ∈ s.boxes) (hh : s.Handles (s.payload a) mb) :
    Pass s q a [mb] (s.sendMail mb (s.payload a)).2 q := by
  have hm := (hb.payloads a ha).1
  unfold sendMail
  rw [if_neg (not_or.mpr ⟨(hb.boxes mb hmb).1, hm⟩), if_pos hh.2]
  have hcalls := still_invokeHandlers s mb
  have hb' := hb.still hcalls
  have heq : (s.invokeHandlers mb).releaseMail (s.payload a) = _ := releaseMail_shared hb' ha hr
  rw [heq]
  have hst := still_setRefs (s.invokeHandlers mb) a (((s.invokeHandlers mb).metaOf a).refCount - 1)
  refine ⟨hb'.still hst, (hq.still hcalls rfl).still hst rfl, rfl, rfl, List.Subset.refl _,
    List.Subset.refl _, fun _ _ => rfl, fun c _ hne => Function.update_of_ne hne _ _, ?_,
    fun x hx hc => ?_, fun _ _ => ⟨rfl, rfl⟩⟩
  · have hcount : ([mb].countP fun mb => s.Handles (s.payload a) mb) = 1 := by simp [hh]
    rw [hcount]
    exact Function.update_self _ _ _
  · rw [List.mem_singleton.mp hx] at hc
    exact absurd hh (not_handles_of_copies hc)

theorem wakeOne_waiters_of_ne (sched : Sched) {wq x : Nat} (hne : x ≠ wq) :
    (sched.waitQueueWakeOne wq).waiters x = sched.waiters x := by
  unfold Sched.waitQueueWakeOne
  split
  · rw [(Sched.sameWaits_threadUnblock _ _).waiters, Sched.delist_waiters, if_neg hne]
  · rfl

/-- A copy enters the queue of a mailbox. -/
theorem Allocated.pass {c n : Nat} (h : Allocated s c n s') (hb : s.Blocks) (hq : s.Queues q)
    (ha : a ∈ s.registry) (hmb : mb ∈ s.boxes) (hc : s.Copies (s.payload a) mb) :
    Pass s q a [mb] ((s'.setMail n (s.mail (s.payload a))).enqueue mb c)
      (Function.update q mb (c :: q mb)) := by
  have hb' := (h.blocks hb).still (still_setMail s' n (s.mail (s.payload a)))
  have hq' := (h.queues hb hq).still (still_setMail s' n (s.mail (s.payload a))) rfl
  have hboxes : s'.boxes = s.boxes := h.boxes
  have hmem : c ∈ s'.registry := h.registry ▸ List.mem_cons_self
  refine ⟨hb'.still (still_enqueue _ mb c), ?_, hboxes, h.box, ?_, ?_, fun x hx => ?_,
    fun b hbmem _ => h.metaOf_of_ne (h.ne_of_mem hb hbmem), ?_, fun x hx _ => ?_, fun x hx => ?_⟩
  · refine hq'.enqueue hb' (hboxes.symm ▸ hmb) hmem fun x hx => ?_
    exact h.not_queued hb hq (hboxes ▸ hx)
  · change s.registry ⊆ s'.registry
    rw [h.registry]
    exact List.subset_cons_self _ _
  · change s.uheap.live ⊆ s'.uheap.live
    rw [h.uheap]
    exact List.subset_cons_self _ _
  · have hne : x ≠ n := fun heq => h.mail_new.2 (heq ▸ hx)
    exact (Function.update_of_ne hne _ _).trans (h.mail x hx)
  · have hcount : ([mb].countP fun mb => s.Handles (s.payload a) mb) = 0 := by
      simp [not_handles_of_copies hc]
    rw [hcount]
    change s'.metaOf a = _
    rw [h.metaOf_of_ne (h.ne_of_mem hb ha)]
    simp [MailMeta.withRefs]
  · rw [List.mem_singleton.mp hx]
    have hpay : s'.payload c = n := h.metaOf_self.2
    refine ⟨c, Function.update_self _ _ _, h.not_mem_registry hb, hmem, ?_, h.metaOf_self.1, ?_⟩
    · change s'.payload c ∉ s.uheap.live
      rw [hpay]
      exact h.mail_new.2
    · change Function.update s'.mail n _ (s'.payload c) = _
      rw [hpay, Function.update_self]
  · have hne : x ≠ mb := fun heq => hx ⟨heq ▸ List.mem_singleton_self mb, heq ▸ hc⟩
    refine ⟨Function.update_of_ne hne _ _, (wakeOne_waiters_of_ne _ hne).trans ?_⟩
    exact congrArg (fun sched => sched.waiters x) h.sched

/-- The second pass at one mailbox. -/
theorem deliver_pass (hb : s.Blocks) (hq : s.Queues q) (ha : a ∈ s.registry) (hmb : mb ∈ s.boxes)
    (hr : s.Handles (s.payload a) mb → 1 < (s.metaOf a).refCount)
    (halloc : s.Copies (s.payload a) mb → s.allocMail.1 ≠ 0) :
    ∃ q', Pass s q a [mb] (deliver (s.payload a) s mb) q' := by
  unfold deliver
  split_ifs with hsub hh
  · exact ⟨q, sendMail_pass hb hq ha (hr ⟨hsub, hh⟩) hmb ⟨hsub, hh⟩⟩
  · have hcopies : s.Copies (s.payload a) mb := ⟨hsub, not_not.mp hh⟩
    dsimp only
    rcases s.allocMail_cases with ⟨hz, -⟩ | ⟨c, hc⟩
    · exact absurd hz (halloc hcopies)
    rw [if_neg hc.mail_new.1]
    have hget (v : Mail) : (s.allocMail.2.setMail s.allocMail.1 v).getMailmeta s.allocMail.1 =
        some c := by
      have h := (hc.blocks hb).getMailmeta (hc.registry ▸ List.mem_cons_self)
      rwa [hc.metaOf_self.2] at h
    rw [hget]
    -- all five fields are copied, so the copy is the mail itself
    rw [hc.mail _ (hb.payloads a ha).2]
    exact ⟨_, hc.pass hb hq ha hmb hcopies⟩
  · refine ⟨q, Pass.refl hb hq fun x hx => ?_⟩
    rw [List.mem_singleton.mp hx]
    exact ⟨fun h => hsub h.1, fun h => hsub h.1⟩

/-! ## The second pass -/

/-- A copy stays what it is while the pass goes on. -/
theorem Copied.trans {c : Nat} (h : s.Copied m s' c) (hp : Pass s' q' a mbs s'' q'')
    (hb : s'.Blocks) (hne : c ≠ a) : s.Copied m s'' c where
  fresh := h.fresh
  tracked := hp.registry h.tracked
  payload := by
    rw [hp.payload h.tracked]
    exact h.payload
  refs := by
    rw [hp.metaOf c h.tracked hne]
    exact h.refs
  mail := by
    rw [hp.payload h.tracked, hp.mail _ (hb.payloads c h.tracked).2]
    exact h.mail

/-- A copy that comes later is new for the first state as well. -/
theorem Copied.of_pass {c : Nat} (h : s'.Copied m s'' c) (hp : Pass s q a mbs s' q')
    (hm : m ∈ s.uheap.live) : s.Copied m s'' c where
  fresh hmem := h.fresh (hp.registry hmem)
  tracked := h.tracked
  payload hlive := h.payload (hp.uheap hlive)
  refs := h.refs
  mail := h.mail.trans (hp.mail m hm)

/-- The pass at one mailbox, and then at others. -/
theorem Pass.cons (h : Pass s q a [mb] s' q') (h' : Pass s' q' a mbs s'' q'')
    (hb : s.Blocks) (ha : a ∈ s.registry) (hnew : mb ∉ mbs) :
    Pass s q a (mb :: mbs) s'' q'' := by
  have hlive := (hb.payloads a ha).2
  have hpay := h.payload ha
  have hcopies (x : Nat) : s'.Copies (s'.payload a) x ↔ s.Copies (s.payload a) x := by
    rw [hpay]
    exact h.copies hlive x
  refine ⟨h'.blocks, h'.queues, h'.boxes.trans h.boxes, h'.box.trans h.box,
    List.Subset.trans h.registry h'.registry, List.Subset.trans h.uheap h'.uheap,
    fun x hx => (h'.mail x (h.uheap hx)).trans (h.mail x hx),
    fun b hmem hne => (h'.metaOf b (h.registry hmem) hne).trans (h.metaOf b hmem hne), ?_,
    fun x hx hc => ?_, fun x hx => ?_⟩
  · grind [h.handles, h'.refs, h.refs, MailMeta.withRefs]
  · rcases List.mem_cons.mp hx with rfl | hx
    · -- the copy of the first mailbox, which the rest of the pass does not visit
      obtain ⟨c, hq, hcopied⟩ := h.copied x (List.mem_singleton_self x) hc
      refine ⟨c, ?_, hcopied.trans h' h.blocks fun heq => hcopied.fresh (heq ▸ ha)⟩
      rw [(h'.untouched x fun hmem => hnew hmem.1).1, hq]
    · obtain ⟨c, hq, hcopied⟩ := h'.copied x hx ((hcopies x).mpr hc)
      have hne : x ≠ mb := fun heq => hnew (heq ▸ hx)
      have hfirst := h.untouched x fun hmem => hne (List.mem_singleton.mp hmem.1)
      rw [hpay] at hcopied
      exact ⟨c, by rw [hq, hfirst.1], hcopied.of_pass h hlive⟩
  · grind [h.untouched, h'.untouched]

/-- The calls at a mailbox depend on what the pass does not touch. -/
theorem Pass.callsAt (h : Pass s q a mbs s' q') (hb : s.Blocks) (ha : a ∈ s.registry) (mb : Nat) :
    s'.callsAt (s.payload a) mb = s.callsAt (s.payload a) mb := by
  have hlive := (hb.payloads a ha).2
  have hget : s'.getMailmeta (s.payload a) = s.getMailmeta (s.payload a) := by
    rw [hb.getMailmeta ha, ← h.payload ha, h.blocks.getMailmeta (h.registry ha)]
  unfold MailState.callsAt called
  simp only [h.handles hlive mb, hget, h.box, h.mail _ hlive]

/-- The whole second pass, if there is a reference for every mailbox with handlers. -/
theorem foldl_deliver_pass (hb : s.Blocks) (hq : s.Queues q) (ha : a ∈ s.registry)
    (hmbs : ∀ mb ∈ mbs, mb ∈ s.boxes) (hnodup : mbs.Nodup)
    (hr : (mbs.countP fun mb => s.Handles (s.payload a) mb : Nat) < (s.metaOf a).refCount)
    (halloc : AllocsSucceed (s.payload a) mbs s) :
    (∃ q', Pass s q a mbs (mbs.foldl (deliver (s.payload a)) s) q') ∧
      passCalls (s.payload a) mbs s = mbs.flatMap (s.callsAt (s.payload a)) := by
  -- the induction is on the mailboxes that are left; the references that are left cover them
  induction mbs generalizing s q with
  | nil => exact ⟨⟨q, Pass.refl hb hq fun mb hmb => absurd hmb List.not_mem_nil⟩, rfl⟩
  | cons mb mbs ih =>
    obtain ⟨hnew, hnodup⟩ := List.nodup_cons.mp hnodup
    obtain ⟨hfirst, hrest⟩ := halloc
    have hlive := (hb.payloads a ha).2
    rw [List.countP_cons] at hr
    obtain ⟨q₁, hp₁⟩ := deliver_pass hb hq ha (hmbs mb List.mem_cons_self) (fun hh => by
      simp only [hh, decide_true, if_true] at hr
      omega) hfirst
    have hpay := hp₁.payload ha
    set s₁ := deliver (s.payload a) s mb with hs₁
    have hcount : (mbs.countP fun x => s₁.Handles (s₁.payload a) x) =
        mbs.countP fun x => s.Handles (s.payload a) x :=
      List.countP_congr fun x _ => by simp only [hpay, hp₁.handles hlive x]
    have hleft : (mbs.countP fun x => s₁.Handles (s₁.payload a) x : Nat) <
        (s₁.metaOf a).refCount := by grind [hp₁.refs, MailMeta.withRefs]
    obtain ⟨⟨q₂, hp₂⟩, hcalls⟩ := ih hp₁.blocks hp₁.queues (hp₁.registry ha)
      (fun x hx => hp₁.boxes.symm ▸ hmbs x (List.mem_cons_of_mem _ hx)) hnodup hleft
      (hpay.symm ▸ hrest)
    rw [hpay] at hp₂ hcalls
    refine ⟨⟨q₂, hp₁.cons hp₂ hb ha hnew⟩, ?_⟩
    have hsame : s₁.callsAt (s.payload a) = s.callsAt (s.payload a) :=
      funext fun x => hp₁.callsAt hb ha x
    rw [passCalls, ← hs₁, hcalls, hsame, List.flatMap_cons]

/-! ## The record of the calls -/

theorem allocMail_history (s : MailState) : s.allocMail.2.history = s.history := by
  rcases s.allocMail_cases with ⟨-, h⟩ | ⟨c, h⟩
  · exact h.history
  · exact h.history

theorem releaseMail_history (s : MailState) (m : Nat) :
    (s.releaseMail m).history = s.history := by
  unfold releaseMail
  split
  · rfl
  · dsimp only
    split_ifs <;> rfl

theorem callsAt_handler (s : MailState) (m mb : Nat) :
    (s.callsAt m mb).map HandlerCall.handler = if s.Handles m mb then s.called mb else [] := by
  unfold callsAt
  split_ifs
  · rw [List.map_map]
    exact List.map_id _
  · rfl

/-- The record grows by the calls. -/
theorem deliver_invoked (hmb : mb ≠ 0) (hm : m ≠ 0) :
    (deliver m s mb).history.invoked =
      ((s.callsAt m mb).map HandlerCall.handler).reverse ++ s.history.invoked := by
  rw [callsAt_handler]
  unfold deliver
  by_cases hsub : s.Subscribed mb (s.mail m).magic
  · by_cases hh : (s.box mb).handlers ≠ []
    · have hhandles : s.Handles m mb := ⟨hsub, hh⟩
      unfold sendMail
      rw [if_pos hsub, if_pos hh, if_pos hhandles, if_neg (not_or.mpr ⟨hmb, hm⟩), if_pos hh,
        releaseMail_history]
      rfl
    · rw [if_pos hsub, if_neg hh, if_neg fun h : s.Handles m mb => hh h.2]
      have hinv : s.allocMail.2.history.invoked = s.history.invoked := by rw [allocMail_history]
      dsimp only
      split_ifs
      · exact hinv
      · split
        · exact hinv
        · exact hinv
  · rw [if_neg hsub, if_neg fun h : s.Handles m mb => hsub h.1]
    rfl

theorem foldl_deliver_invoked (hm : m ≠ 0) (hmbs : ∀ mb ∈ mbs, mb ≠ 0) :
    (mbs.foldl (deliver m) s).history.invoked =
      ((passCalls m mbs s).map HandlerCall.handler).reverse ++ s.history.invoked := by
  induction mbs generalizing s with
  | nil => rfl
  | cons mb mbs ih =>
    rw [List.foldl_cons, ih fun x hx => hmbs x (List.mem_cons_of_mem _ hx),
      deliver_invoked (hmbs mb List.mem_cons_self) hm, passCalls]
    simp

/-! ## The broadcast -/

/-- Subscribers have a broadcast of the mail of `a`, nothing else has changed, and the reference of
the sender is gone. -/
structure Reached (s : MailState) (q : Nat → List Nat) (a : Nat) (s' : MailState)
    (q' : Nat → List Nat) : Prop where
  queues : s'.Queues q'
  boxes : s'.boxes = s.boxes
  box : s'.box = s.box
  copied : ∀ mb ∈ s.mailboxes, s.Copies (s.payload a) mb →
    ∃ c, q' mb = c :: q mb ∧ s.Copied (s.payload a) s' c
  untouched : ∀ mb, ¬(mb ∈ s.mailboxes ∧ s.Copies (s.payload a) mb) →
    q' mb = q mb ∧ s'.sched.waiters mb = s.sched.waiters mb
  mails : ∀ b ∈ s.registry, b ≠ a → b ∈ s'.registry ∧ s'.metaOf b = s.metaOf b ∧
    s'.mail (s.payload b) = s.mail (s.payload b)
  /-- Every handler of every subscribed mailbox is called once, with the mail in the registry. -/
  calls : s.broadcastCalls (s.payload a) = s.mailboxes.flatMap fun mb =>
    if s.Handles (s.payload a) mb then
      (s.called mb).map fun handler => ⟨mb, handler, true, s.mail (s.payload a)⟩
    else []
  invoked : s'.history.invoked =
    ((s.broadcastCalls (s.payload a)).map HandlerCall.handler).reverse ++ s.history.invoked
  /-- With the last reference the mail goes. -/
  last : (s.metaOf a).refCount = 1 → a ∉ s'.registry ∧ s.payload a ∉ s'.uheap.live
  /-- Another reference keeps it as it is. -/
  other : 1 < (s.metaOf a).refCount → a ∈ s'.registry ∧
    s'.metaOf a = (s.metaOf a).withRefs ((s.metaOf a).refCount - 1) ∧
    s'.mail (s.payload a) = s.mail (s.payload a)

/-- What is still queued has not gone. -/
theorem Reached.refs (h : Reached s q a s' q') (hs : s.Settled q) (ha : a ∈ s.registry)
    (hmb : mb ∈ s.boxes) (hmem : a ∈ q mb) : 2 ≤ (s.metaOf a).refCount := by
  have hpos := hs.refs a ha
  by_contra hlt
  have hone : (s.metaOf a).refCount = 1 := by omega
  have hmem' : a ∈ q' mb := by
    by_cases hc : mb ∈ s.mailboxes ∧ s.Copies (s.payload a) mb
    · grind [h.copied]
    · exact (h.untouched mb hc).1 ▸ hmem
  exact (h.last hone).1 (h.queues.queued mb (h.boxes.symm ▸ hmb) a hmem')

theorem secondPass_eq (hget : s.getMailmeta m = some a) : s.secondPass m =
    s.setMeta a ((s.metaOf a).withRefs ((s.metaOf a).refCount + s.handlerRecipients m)) := by
  unfold secondPass
  rw [hget]

/-- A broadcast of a mail of the registry is its second pass with the release of the mail; there is
nothing to do in the pass if there are no mailboxes. -/
theorem broadcast_eq (hget : s.getMailmeta m = some a) : s.broadcast m =
    (0, (s.mailboxes.foldl (deliver m) (s.secondPass m)).releaseMail m) := by
  rw [secondPass_eq hget]
  unfold broadcast
  split_ifs with hnil
  · have hnone : s.handlerRecipients m = 0 := by simp [handlerRecipients, hnil]
    have hsame : s.setMeta a ((s.metaOf a).withRefs ((s.metaOf a).refCount + (0 : Nat))) = s := by
      simp [setMeta, MailMeta.withRefs]
    rw [hnil, hnone, hsame]
    rfl
  · rw [hget]

/-- The state after both passes: what the first one has added to the references of the mail, the
second one has used up. -/
structure Served (s : MailState) (q : Nat → List Nat) (m : Nat) (s' : MailState)
    (q' : Nat → List Nat) : Prop where
  blocks : s'.Blocks
  queues : s'.Queues q'
  boxes : s'.boxes = s.boxes
  box : s'.box = s.box
  registry : s.registry ⊆ s'.registry
  metaOf : ∀ b ∈ s.registry, s'.metaOf b = s.metaOf b
  mail : ∀ x ∈ s.uheap.live, s'.mail x = s.mail x
  copied : ∀ mb ∈ s.mailboxes, s.Copies m mb → ∃ c, q' mb = c :: q mb ∧ s.Copied m s' c
  untouched : ∀ mb, ¬(mb ∈ s.mailboxes ∧ s.Copies m mb) →
    q' mb = q mb ∧ s'.sched.waiters mb = s.sched.waiters mb
  calls : s.broadcastCalls m = s.mailboxes.flatMap (s.callsAt m)
  invoked : s'.history.invoked =
    ((s.broadcastCalls m).map HandlerCall.handler).reverse ++ s.history.invoked

/-- Both passes. -/
theorem Settled.served (hs : s.Settled q) (hget : s.getMailmeta m = some a)
    (halloc : AllocsSucceed m s.mailboxes (s.secondPass m)) :
    ∃ q', Served s q m (s.mailboxes.foldl (deliver m) (s.secondPass m)) q' := by
  obtain ⟨hm, ha, rfl⟩ := getMailmeta_eq_some hget
  have hpos := hs.refs a ha
  have hboxes := mailboxes_subset hs.blocks
  have hst : Still s (s.secondPass (s.payload a)) := by
    rw [secondPass_eq hget]
    exact still_setRefs s a _
  have hmeta {b : Nat} (hne : b ≠ a) : (s.secondPass (s.payload a)).metaOf b = s.metaOf b := by
    rw [secondPass_eq hget]
    exact Function.update_of_ne hne _ _
  have hself : (s.secondPass (s.payload a)).metaOf a = (s.metaOf a).withRefs
      ((s.metaOf a).refCount + s.handlerRecipients (s.payload a)) := by
    rw [secondPass_eq hget]
    exact Function.update_self _ _ _
  have hframe : (s.secondPass (s.payload a)).box = s.box ∧
      (s.secondPass (s.payload a)).mail = s.mail ∧
      (s.secondPass (s.payload a)).links = s.links ∧
      (s.secondPass (s.payload a)).sched = s.sched ∧
      (s.secondPass (s.payload a)).history = s.history := by
    rw [secondPass_eq hget]
    exact ⟨rfl, rfl, rfl, rfl, rfl⟩
  obtain ⟨hbox, hmail, hlinks, hsched, hhistory⟩ := hframe
  set s₁ := s.secondPass (s.payload a) with hs₁
  have hpay : s₁.payload a = s.payload a := hst.payload a
  have hhandles : s₁.Handles (s.payload a) = s.Handles (s.payload a) := by
    unfold Handles Subscribed
    rw [hbox, hmail]
  have hcopies : s₁.Copies (s.payload a) = s.Copies (s.payload a) := by
    unfold Copies Subscribed
    rw [hbox, hmail]
  -- the first pass has counted what the second one will find
  have hcount : (s.mailboxes.countP fun mb => s₁.Handles (s₁.payload a) mb) =
      s.handlerRecipients (s.payload a) := by
    rw [hpay]
    refine List.countP_congr fun x _ => ?_
    rw [decide_eq_true_iff, decide_eq_true_iff, hhandles]
    exact Iff.rfl
  have hb₁ := hs.blocks.still hst
  have ha₁ : a ∈ s₁.registry := hst.registry.symm ▸ ha
  obtain ⟨⟨q', hp⟩, hcalls⟩ := foldl_deliver_pass hb₁ (hs.queues.still hst hlinks) ha₁
    (fun mb hmb => hst.boxes.symm ▸ hboxes mb hmb) hs.owned.mailboxes_nodup
    (by
      rw [hcount, hself]
      simp only [MailMeta.withRefs]
      omega) (hpay.symm ▸ halloc)
  rw [hpay] at hp hcalls
  have hcallsAt : s₁.callsAt (s.payload a) = s.callsAt (s.payload a) := by
    have hget₁ : s₁.getMailmeta (s.payload a) = s.getMailmeta (s.payload a) := by
      rw [hget, ← hpay, hb₁.getMailmeta ha₁]
    funext mb
    unfold MailState.callsAt called
    simp only [hhandles, hget₁, hbox, hmail]
  refine ⟨q', hp.blocks, hp.queues, hp.boxes.trans hst.boxes, hp.box.trans hbox,
    hst.registry ▸ hp.registry, fun b hb => ?_, fun x hx => ?_, fun mb hmb hc => ?_,
    fun mb hmb => ?_, ?_, ?_⟩
  · by_cases hba : b = a
    · rw [hba, hp.refs, hcount, hself]
      simp [MailMeta.withRefs]
    · rw [hp.metaOf b (hst.registry.symm ▸ hb) hba, hmeta hba]
  · rw [hp.mail x (hst.uheap.symm ▸ hx), hmail]
  · obtain ⟨c, hq, hcop⟩ := hp.copied mb hmb (by rwa [hpay, hcopies])
    rw [hpay] at hcop
    refine ⟨c, hq, hst.registry ▸ hcop.fresh, hcop.tracked, hst.uheap ▸ hcop.payload, hcop.refs, ?_⟩
    rw [hcop.mail, hmail]
  · rw [← hsched]
    exact hp.untouched mb (by rwa [hpay, hcopies])
  · rw [broadcastCalls, ← hs₁, hcalls, hcallsAt]
  · rw [foldl_deliver_invoked hm fun mb hmb => (hs.blocks.boxes mb (hboxes mb hmb)).1, hhistory]
    rfl

/-- One reference to the mail of `a` has gone, and the mail with it if it was the last one. -/
structure Dropped (s : MailState) (a : Nat) (s' : MailState) : Prop where
  registry : ∀ b ∈ s.registry, b ≠ a → b ∈ s'.registry
  metaOf : ∀ b ≠ a, s'.metaOf b = s.metaOf b
  mail : ∀ x ≠ s.payload a, s'.mail x = s.mail x
  box : s'.box = s.box
  sched : s'.sched = s.sched
  history : s'.history = s.history

theorem releaseMail_dropped (hb : s.Blocks) (ha : a ∈ s.registry) :
    Dropped s a (s.releaseMail (s.payload a)) := by
  by_cases hr : 1 < (s.metaOf a).refCount
  · rw [releaseMail_shared hb ha hr]
    exact ⟨fun b h _ => h, fun b hne => Function.update_of_ne hne _ _, fun _ _ => rfl, rfl,
      rfl, rfl⟩
  · have hd := releaseMail_last hb ha (not_lt.mp hr)
    exact ⟨fun b h hne => (hd.mem_registry hb).mpr ⟨hne, h⟩, hd.metaOf, hd.mail, hd.box, hd.sched,
      hd.history⟩

/-- A copy does not go with the mail it is a copy of. -/
theorem Copied.dropped {c : Nat} (h : s.Copied m s' c) (hd : Dropped s' a s'') (hb : s'.Blocks)
    (ha : a ∈ s'.registry) (hne : c ≠ a) : s.Copied m s'' c := by
  have hpay : s''.payload c = s'.payload c := congrArg MailMeta.payload (hd.metaOf c hne)
  refine ⟨h.fresh, hd.registry c h.tracked hne, hpay ▸ h.payload, ?_, ?_⟩
  · rw [hd.metaOf c hne]
    exact h.refs
  · rw [hpay, hd.mail _ fun heq => hne (hb.inj c h.tracked a ha heq)]
    exact h.mail

/-- The end of a broadcast: the reference of the sender goes. -/
theorem Served.reached (h : Served s q (s.payload a) s' q') (hs : s.Settled q)
    (ha : a ∈ s.registry) (hrefs : ∀ mb ∈ s.boxes, a ∈ q mb → 2 ≤ (s.metaOf a).refCount) :
    Reached s q a (s'.releaseMail (s.payload a)) q' := by
  have hpos := hs.refs a ha
  have ha' := h.registry ha
  have hmeta : s'.metaOf a = s.metaOf a := h.metaOf a ha
  have hpay : s'.payload a = s.payload a := congrArg MailMeta.payload hmeta
  have hdrop : Dropped s' a (s'.releaseMail (s.payload a)) :=
    hpay ▸ releaseMail_dropped h.blocks ha'
  have hshared (hr : 1 < (s.metaOf a).refCount) : s'.releaseMail (s.payload a) =
      s'.setMeta a ((s'.metaOf a).withRefs ((s'.metaOf a).refCount - 1)) :=
    hpay ▸ releaseMail_shared h.blocks ha' (hmeta.symm ▸ hr)
  have hlast (hr : (s.metaOf a).refCount = 1) : Discarded s' a (s'.releaseMail (s.payload a)) :=
    hpay ▸ releaseMail_last h.blocks ha' (hmeta.symm ▸ hr.le)
  have hother {c : Nat} (hc : c ∈ s.registry) (hne : c ≠ a) : s.payload c ≠ s'.payload a :=
    fun heq => hne (hs.blocks.inj c hc a ha (heq.trans hpay))
  refine ⟨?_, ?_, hdrop.box.trans h.box, fun mb hmb hc => ?_, fun mb hmb => ?_, fun b hb hne => ?_,
    ?_, ?_, fun hr => ?_, fun hr => ?_⟩
  · by_cases hr : 1 < (s.metaOf a).refCount
    · rw [hshared hr]
      exact h.queues.still (still_setRefs s' a _) rfl
    · -- the last reference: the mail is in no queue
      refine (hlast (by omega)).queues h.blocks ha' h.queues fun mb hmb hmem => hr ?_
      rw [h.boxes] at hmb
      by_cases hc : mb ∈ s.mailboxes ∧ s.Copies (s.payload a) mb
      · obtain ⟨c, hq, hcop⟩ := h.copied mb hc.1 hc.2
        rw [hq] at hmem
        rcases List.mem_cons.mp hmem with heq | hmem
        · exact absurd ha (heq ▸ hcop.fresh)
        · exact hrefs mb hmb hmem
      · rw [(h.untouched mb hc).1] at hmem
        exact hrefs mb hmb hmem
  · exact (congrArg MailHistory.boxes hdrop.history).trans h.boxes
  · obtain ⟨c, hq, hcop⟩ := h.copied mb hmb hc
    exact ⟨c, hq, hcop.dropped hdrop h.blocks ha' fun heq => hcop.fresh (heq ▸ ha)⟩
  · rw [hdrop.sched]
    exact h.untouched mb hmb
  · refine ⟨hdrop.registry b (h.registry hb) hne, (hdrop.metaOf b hne).trans (h.metaOf b hb), ?_⟩
    rw [hdrop.mail _ (hother hb hne), h.mail _ (hs.blocks.payloads b hb).2]
  · rw [h.calls]
    unfold MailState.callsAt
    rw [hs.blocks.getMailmeta ha]
    rfl
  · rw [hdrop.history]
    exact h.invoked
  · have hd := hlast hr
    refine ⟨fun hmem => ((hd.mem_registry h.blocks).mp hmem).1 rfl, ?_⟩
    rw [hd.uheap, hpay]
    exact h.blocks.uheap.not_mem_erase
  · rw [hshared hr]
    refine ⟨ha', ?_, h.mail _ (hs.blocks.payloads a ha).2⟩
    rw [← hmeta]
    exact Function.update_self _ _ _

end MailState

/-- A broadcast of a mail of the registry returns 0, puts one new copy of the mail into each
subscribed mailbox without handlers, calls each handler of the other subscribed mailboxes once with
the mail in the registry, changes no other mailbox, and uses up the reference of the sender, exactly
if the mail is in no queue or has another reference. -/
theorem broadcast_reaches_subscribers {s : MailState} {q : Nat → List Nat} {m a : Nat}
    (hs : s.Settled q) (hget : s.getMailmeta m = some a)
    (hany : (s.mail m).receiverTid = mailAnyTid)
    (halloc : MailState.AllocsSucceed m s.mailboxes (s.secondPass m)) :
    ((s.send m).1 = 0 ∧ ∃ q', s.Reached q a (s.send m).2 q') ↔
      ∀ mb ∈ s.boxes, a ∈ q mb → 2 ≤ (s.metaOf a).refCount := by
  obtain ⟨hm, ha, rfl⟩ := MailState.getMailmeta_eq_some hget
  constructor
  · rintro ⟨-, q', h⟩ mb hmb hmem
    exact h.refs hs ha hmb hmem
  · intro hrefs
    obtain ⟨q', h⟩ := hs.served hget halloc
    have hsend : s.send (s.payload a) = s.broadcast (s.payload a) := by
      unfold MailState.send
      rw [if_neg hm, if_pos hany]
    rw [hsend, MailState.broadcast_eq hget]
    exact ⟨rfl, q', h.reached hs ha hrefs⟩

/-- Three threads: the first one waits for mails with the magic 7, the second one has handlers for
them, and the third one has not subscribed. The first thread has a mail, which may be queued. -/
def audience (queued : Bool) : MailState where
  kheap := ⟨fun n => 100 + n, 3, [8, 16, 24, 32, 33, 90]⟩
  uheap := ⟨fun n => 200 + n, 0, [190]⟩
  locks := fun _ => false
  uniqueId := 1
  registry := [90]
  metaOf := fun _ => ⟨0, 1, 190, 0⟩
  mail := fun _ => { Mail.zero with magic := 7, senderTid := 1, receiverTid := mailAnyTid }
  links := if queued then fun n => if n = 24 then ⟨90, 90⟩ else if n = 90 then ⟨24, 24⟩ else ⟨n, n⟩
    else fun n => ⟨n, n⟩
  box := fun n => if n = 8 then ⟨1, 1, [7], 0, []⟩
    else if n = 16 then ⟨1, 2, [5, 7], 0, [⟨32, 1000⟩, ⟨33, 1001⟩]⟩ else ⟨1, 3, [5], 0, []⟩
  sched := ⟨[1, 2, 3], fun t => ⟨1, .ready, false, 8 * t, 0⟩, some 1, fun _ => []⟩
  history := ⟨[8, 16, 24], [], fun _ => [], fun _ => []⟩

theorem audience_settled (queued : Bool) :
    (audience queued).Settled fun n => if queued ∧ n = 24 then [90] else [] where
  blocks := by
    constructor <;> simp [audience, MailState.boxes, MailState.payload]
  queues := by
    constructor
    · intro mb hmb
      cases queued <;> simp [audience, MailState.boxes] at hmb <;>
        rcases hmb with rfl | rfl | rfl <;> constructor <;> simp [audience, Chain]
    · cases queued <;> simp [audience, MailState.boxes]
    · cases queued <;> simp [audience, MailState.boxes]
  owned := by
    constructor <;> simp [audience]
  refs := by simp [audience]

theorem audience_allocs (queued : Bool) : MailState.AllocsSucceed 190 (audience queued).mailboxes
    ((audience queued).secondPass 190) := by
  refine ⟨fun _ => ?_, fun _ => ?_, fun _ => ?_, trivial⟩ <;> cases queued <;> decide

theorem broadcast_reaches_subscribers_three :
    ((audience false).send 190).1 = 0 ∧
      ∃ q', (audience false).Reached (fun _ => []) 90 ((audience false).send 190).2 q' := by
  have hs := audience_settled false
  have hq : (fun n => if false = true ∧ n = 24 then [90] else []) =
    fun _ : Nat => ([] : List Nat) := by
    simp
  exact (broadcast_reaches_subscribers hs (by decide) rfl (audience_allocs false)).mpr
    fun mb _ hmem => absurd hmem List.not_mem_nil

/-- The third thread has the mail in its queue, and the first one broadcasts it: the mail is freed,
and the queue still leads to it. -/
theorem broadcast_frees_queued_mail :
    ¬∀ (s : MailState) (q : Nat → List Nat) (m a : Nat), s.Settled q → s.getMailmeta m = some a →
      (s.mail m).receiverTid = mailAnyTid →
      MailState.AllocsSucceed m s.mailboxes (s.secondPass m) →
      (s.send m).1 = 0 ∧ ∃ q', s.Reached q a (s.send m).2 q' := by
  intro h
  obtain ⟨-, q', hr⟩ := h (audience true) _ 190 90 (audience_settled true) (by decide) rfl
    (audience_allocs true)
  have hbox : 24 ∈ (audience true).boxes := by decide
  have hrefs := hr.refs (audience_settled true) (by decide) hbox (by decide)
  exact absurd hrefs (by decide)

end Ukernel.Ipc
