import Ukernel.Sync.Threads

/-!
# Links between threads and wait queues

A thread that sleeps is recorded twice: its `waiting_on` names a wait queue, and its `wait_node` is
linked among the waiters of that queue. The two ends have lifetimes of their own, and every
operation that touches one of them has to touch the other. Which wait queues are there is a
parameter of this module, as they are embedded in semaphores and in mailboxes.

## Main definitions

* `Sched.Coherent`: the two ends agree, linked threads are live, and so are the queues
* `Sched.Woven`: the form of it that the operations keep

## Main results

* `Sched.Woven.coherent`
* `Sched.Woven.sleepLocked`, `Sched.Woven.wakeOne`, `Sched.Woven.threadDelete`,
  `Sched.Woven.exitLoop` and the lemmas next to them: one lemma for each operation
-/

namespace Ukernel.Sync

namespace Sched

/-- A thread waits for a queue if and only if it is linked there once; linked threads are live, and
threads wait only for queues that are there. -/
structure Coherent (W : Nat → Prop) (s : Sched) : Prop where
  links : ∀ wq ≠ 0, ∀ t ∈ s.order, (s.thread t).waitingOn = wq ↔ (s.waiters wq).count t = 1
  once : ∀ wq t, (s.waiters wq).count t ≤ 1
  live : ∀ wq, ∀ t ∈ s.waiters wq, t ∈ s.order
  target : ∀ t ∈ s.order, (s.thread t).waitingOn ≠ 0 → W (s.thread t).waitingOn

/-- The lists are tidy, and whoever waits is linked in a queue that is there. -/
structure Woven (W : Nat → Prop) (s : Sched) : Prop extends s.Tidy where
  linked : ∀ t ∈ s.order, (s.thread t).waitingOn ≠ 0 →
    t ∈ s.waiters (s.thread t).waitingOn ∧ W (s.thread t).waitingOn

variable {W W' : Nat → Prop} {s s' : Sched} {t wq : Nat}

/-- The two ends of a link. -/
theorem Tidy.mem_waiters (h : s.Tidy) (ht : t ∈ s.waiters wq) :
    wq ≠ 0 ∧ t ∈ s.order ∧ (s.thread t).waitingOn = wq := by
  refine ⟨?_, h.live wq t ht, h.waits.waitingOn wq t ht⟩
  rintro rfl
  rw [h.waits.none] at ht
  exact List.not_mem_nil ht

namespace Woven

variable (h : s.Woven W)

include h

theorem coherent : s.Coherent W where
  links wq hwq t ht := by
    constructor
    · grind [h.linked, List.count_eq_one_of_mem, h.waits.nodup]
    · grind [List.count_pos_iff, h.waits.waitingOn]
  once wq t := List.nodup_iff_count_le_one.mp (h.waits.nodup wq) t
  live := h.live
  target t ht hon := (h.linked t ht hon).2

/-- Nobody is linked in a queue that is not there. -/
theorem waiters_eq_nil (hwq : ¬W wq) : s.waiters wq = [] := by
  refine List.eq_nil_iff_forall_not_mem.mpr fun t ht => hwq ?_
  obtain ⟨hne, hmem, hon⟩ := h.mem_waiters ht
  exact hon ▸ (h.linked t hmem (hon.symm ▸ hne)).2

theorem mono (hW : ∀ wq, W wq → W' wq) : s.Woven W' :=
  ⟨h.toTidy, fun t ht hon => (h.linked t ht hon).imp_right (hW _)⟩

/-- A queue goes that nobody is linked in. -/
theorem drop (hnil : s.waiters wq = []) : s.Woven fun q => W q ∧ q ≠ wq := by
  refine ⟨h.toTidy, fun t ht hon => ?_⟩
  obtain ⟨hlinked, hW⟩ := h.linked t ht hon
  refine ⟨hlinked, hW, fun heq => ?_⟩
  rw [heq, hnil] at hlinked
  exact List.not_mem_nil hlinked

/-- Only who runs, and who could, has changed. -/
theorem congr (hs : s.SameWaits s') (htidy : s'.Tidy) : s'.Woven W := by
  refine ⟨htidy, fun t ht hon => ?_⟩
  rw [hs.order] at ht
  rw [hs.waitingOn] at hon ⊢
  rw [hs.waiters]
  exact h.linked t ht hon

/-! ## The scheduler -/

theorem schedule : s.scheduleIfNeeded.Woven W :=
  h.congr s.sameWaits_scheduleIfNeeded h.toTidy.schedule

theorem threadBlock (t : Nat) : (s.threadBlock t).Woven W :=
  h.congr (s.sameWaits_threadBlock t) (h.toTidy.threadBlock t)

theorem threadUnblock (t : Nat) : (s.threadUnblock t).Woven W :=
  h.congr (s.sameWaits_threadUnblock t) (h.toTidy.threadUnblock t)

theorem setStates (pid : Nat) (state : ThreadState) :
    (s.setStates pid state).Woven W :=
  h.congr (s.sameWaits_setStates pid state) (h.toTidy.setStates pid state)

theorem switchTo {next : Nat} (hnext : next ∈ s.order) :
    (s.switchTo next).Woven W :=
  h.congr (s.sameWaits_switchTo next) (h.toTidy.switchTo hnext)

/-! ## Wait queues -/

theorem enlist (ht : t ∈ s.order) (hfree : (s.thread t).waitingOn = 0) (hwq : wq ≠ 0) (hW : W wq) :
    (s.enlist t wq).Woven W := by
  refine ⟨h.toTidy.enlist ht hfree hwq, fun u hu hon => ?_⟩
  rw [enlist_waitingOn] at hon ⊢
  rw [enlist_waiters]
  by_cases hut : u = t
  · grind
  · rw [if_neg hut] at hon ⊢
    obtain ⟨hlinked, hthere⟩ := h.linked u hu hon
    refine ⟨?_, hthere⟩
    split_ifs with hq
    · exact List.mem_cons_of_mem _ (hq ▸ hlinked)
    · exact hlinked

theorem delist (ht : t ∈ s.waiters wq) : (s.delist t wq).Woven W := by
  refine ⟨h.toTidy.delist ht, fun u hu hon => ?_⟩
  rw [delist_waitingOn] at hon ⊢
  rw [delist_waiters]
  by_cases hut : u = t
  · rw [if_pos hut] at hon
    exact absurd rfl hon
  · rw [if_neg hut] at hon ⊢
    obtain ⟨hlinked, hthere⟩ := h.linked u hu hon
    refine ⟨?_, hthere⟩
    split_ifs with hq
    · exact (List.mem_erase_of_ne hut).mpr (hq ▸ hlinked)
    · exact hlinked

theorem sleepLocked (hwq : wq ≠ 0) (hW : W wq) :
    (s.waitQueueSleepLocked wq).Woven W := by
  unfold waitQueueSleepLocked
  cases hrun : s.run with
  | none => exact h
  | some curr =>
    dsimp only
    split_ifs with hc
    · exact h
    · rw [not_or, not_not, not_not] at hc
      exact (h.enlist hc.1 hc.2 hwq hW).threadBlock curr

/-- A linked thread is woken. -/
theorem wake (ht : t ∈ s.waiters wq) :
    ((s.delist t wq).threadUnblock t).Woven W := (h.delist ht).threadUnblock t

theorem wakeOne (wq : Nat) : (s.waitQueueWakeOne wq).Woven W := by
  rcases h.waits.wakeOne wq with ⟨-, heq⟩ | ⟨t, ts, hw, heq⟩
  · rw [heq]
    exact h
  · rw [heq]
    exact h.wake (hw ▸ List.mem_cons_self)

theorem wakeByTid (wq t : Nat) : (s.waitQueueWakeByTid wq t).Woven W := by
  unfold waitQueueWakeByTid
  split_ifs with ht
  · exact h.wake ht.1
  · exact h

/-- The loop over the waiters. Who is woken in it leaves the queue, and the others stay. -/
theorem wakeAllLoop (hwq : wq ≠ 0) {ts : List Nat} (hts : ∀ t ∈ ts, t ∈ s.order) :
    (Sched.wakeAllLoop wq ts s).Woven W := by
  induction ts generalizing s with
  | nil => exact h
  | cons t ts ih =>
    unfold Sched.wakeAllLoop
    have hrest : ∀ u ∈ ts, u ∈ s.order := fun u hu => hts u (List.mem_cons_of_mem _ hu)
    split_ifs with hon
    · have hlinked := (h.linked t (hts t List.mem_cons_self) (hon.symm ▸ hwq)).1
      refine ih (h.wake (hon ▸ hlinked)) fun u hu => ?_
      rw [(sameWaits_threadUnblock _ t).order]
      exact hrest u hu
    · exact ih h hrest

theorem wakeAll (wq : Nat) : (s.waitQueueWakeAll wq).Woven W := by
  unfold waitQueueWakeAll
  by_cases hwq : wq = 0
  · rw [hwq, h.waits.none]
    exact h
  · exact h.wakeAllLoop hwq (h.live wq)

/-! ## Threads come and go -/

/-- A new thread waits for nothing. -/
theorem enter (ht : t ∉ s.order) {th : Thread} (hth : th.waitingOn = 0) :
    (s.enter t th).Woven W := by
  refine ⟨h.toTidy.enter ht th, fun u hu hon => ?_⟩
  change (Function.update s.thread t th u).waitingOn ≠ 0 at hon
  change u ∈ s.waiters (Function.update s.thread t th u).waitingOn ∧
    W (Function.update s.thread t th u).waitingOn
  by_cases hut : u = t
  · rw [hut, Function.update_self] at hon
    exact absurd hth hon
  · rw [Function.update_of_ne hut] at hon ⊢
    exact h.linked u ((List.mem_cons.mp hu).resolve_left hut) hon

theorem detachWait (ht : t ∈ s.order) : (s.detachWait t).Woven W := by
  unfold Sched.detachWait
  split_ifs with hon
  · exact h
  · exact h.delist (h.linked t ht hon).1

theorem unlink (ht : t ∈ s.order) (hrun : s.run ≠ some t) :
    (s.unlink t).Woven W := by
  have hdetach := h.detachWait ht
  have horder := (h.toTidy.detachWait t).2.1
  refine ⟨h.toTidy.unlink hrun, fun u hu hon => ?_⟩
  exact hdetach.linked u (horder.symm ▸ List.mem_of_mem_erase hu) hon

/-- The running thread leaves, once another one runs. -/
theorem unlinkRunning (ht : t ∈ s.order) {next : Nat} (hnext : next ∈ s.candidates t) :
    ((s.switchTo next).unlink t).Woven W := by
  refine (h.switchTo (mem_candidates hnext)).unlink ht fun heq => ?_
  have hnt : next = t := Option.some.inj heq
  exact not_mem_candidates h.nodup t (hnt ▸ hnext)

theorem threadDelete (t : Nat) : (s.threadDelete t).Woven W := by
  by_cases ht : t ∈ s.order
  · grind [s.threadDelete_cases, h.unlink, h.unlinkRunning]
  · unfold Sched.threadDelete
    rw [if_pos (Or.inr ht)]
    exact h

theorem exitThread (ht : t ∈ s.order) (hs : s.exitThread t = some s') :
    s'.Woven W := by
  unfold Sched.exitThread at hs
  split_ifs at hs with hrun
  · cases hs
    exact h.unlink ht hrun
  · rcases s.findNextRunnable_cases t with ⟨-, heq⟩ | ⟨next, hnext, -, heq⟩
    · rw [heq] at hs
      cases hs
    · rw [heq] at hs
      cases hs
      exact h.unlinkRunning ht hnext

end Woven

theorem sameThreads_wake (s : Sched) (t wq : Nat) :
    s.SameThreads ((s.delist t wq).threadUnblock t) :=
  (s.sameThreads_delist t wq).trans (sameWaits_threadUnblock _ t).sameThreads

theorem sameThreads_wakeByTid (s : Sched) (wq t : Nat) :
    s.SameThreads (s.waitQueueWakeByTid wq t) := by
  unfold waitQueueWakeByTid
  split_ifs
  · exact s.sameThreads_wake t wq
  · exact SameThreads.refl s

theorem sameThreads_wakeAllLoop (wq : Nat) (ts : List Nat) (s : Sched) :
    s.SameThreads (wakeAllLoop wq ts s) := by
  induction ts generalizing s with
  | nil => exact SameThreads.refl s
  | cons t ts ih =>
    unfold wakeAllLoop
    split_ifs
    · exact (s.sameThreads_wake t wq).trans (ih _)
    · exact ih s

theorem sameThreads_wakeAll (s : Sched) (wq : Nat) : s.SameThreads (s.waitQueueWakeAll wq) :=
  sameThreads_wakeAllLoop wq _ s

/-! ## A process exits -/

/-- Threads have gone; those that are left have their processes and their mailboxes. -/
structure Fewer (s s' : Sched) : Prop where
  order : s'.order.Sublist s.order
  mailbox : ∀ t, (s'.thread t).mailbox = (s.thread t).mailbox

theorem Fewer.refl (s : Sched) : Fewer s s := ⟨List.Sublist.refl _, fun _ => rfl⟩

theorem Fewer.trans {s'' : Sched} (h : Fewer s s') (h' : Fewer s' s'') : Fewer s s'' :=
  ⟨h'.order.trans h.order, fun t => (h'.mailbox t).trans (h.mailbox t)⟩

theorem fewer_unlink (s : Sched) (t : Nat) : Fewer s (s.unlink t) :=
  ⟨List.erase_sublist, (s.sameThreads_detachWait t).mailbox⟩

theorem fewer_switchTo (s : Sched) (next : Nat) : Fewer s (s.switchTo next) :=
  ⟨List.Sublist.refl _, (s.sameWaits_switchTo next).mailbox⟩

theorem fewer_threadDelete (s : Sched) (t : Nat) : Fewer s (s.threadDelete t) := by
  rcases s.threadDelete_cases t with heq | ⟨-, heq⟩ | ⟨next, -, heq⟩
  · rw [heq]
    exact Fewer.refl s
  · rw [heq]
    exact s.fewer_unlink t
  · rw [heq]
    exact (s.fewer_switchTo next).trans ((s.switchTo next).fewer_unlink t)

/-- One thread of the process, and no other one, leaves. -/
theorem exitThread_order (hs : s.exitThread t = some s') :
    s'.order = s.order.erase t ∧ Fewer s s' := by
  unfold exitThread at hs
  split_ifs at hs with hrun
  · cases hs
    exact ⟨rfl, s.fewer_unlink t⟩
  · rcases s.findNextRunnable_cases t with ⟨-, heq⟩ | ⟨next, -, -, heq⟩
    · rw [heq] at hs
      cases hs
    · rw [heq] at hs
      cases hs
      exact ⟨rfl, (s.fewer_switchTo next).trans ((s.switchTo next).fewer_unlink t)⟩

theorem fewer_exitLoop (ts : List Nat) (s : Sched) : Fewer s (exitLoop ts s).2 := by
  induction ts generalizing s with
  | nil => exact Fewer.refl s
  | cons t ts ih =>
    unfold exitLoop
    cases hs : s.exitThread t with
    | none => exact Fewer.refl s
    | some s' => exact (exitThread_order hs).2.trans (ih s')

/-- The threads of other processes stay. -/
theorem mem_exitLoop {ts : List Nat} {u : Nat} (hu : u ∈ s.order) (hnot : u ∉ ts) :
    u ∈ (exitLoop ts s).2.order := by
  induction ts generalizing s with
  | nil => exact hu
  | cons t ts ih =>
    obtain ⟨hne, hnot⟩ := not_or.mp (mt List.mem_cons.mpr hnot)
    unfold exitLoop
    cases hs : s.exitThread t with
    | none => exact hu
    | some s' =>
      refine ih ?_ hnot
      rw [(exitThread_order hs).1]
      exact (List.mem_erase_of_ne hne).mpr hu

/-- The loop of `proc_exit_internal`, over threads that are there. -/
theorem Woven.exitLoop (h : s.Woven W) {ts : List Nat} (hnodup : ts.Nodup)
    (hts : ∀ t ∈ ts, t ∈ s.order) : (Sched.exitLoop ts s).2.Woven W := by
  induction ts generalizing s with
  | nil => exact h
  | cons t ts ih =>
    obtain ⟨ht, hrest⟩ := List.nodup_cons.mp hnodup
    unfold Sched.exitLoop
    cases hs : s.exitThread t with
    | none => exact h
    | some s' =>
      refine ih (h.exitThread (hts t List.mem_cons_self) hs) hrest fun u hu => ?_
      rw [(exitThread_order hs).1]
      refine (List.mem_erase_of_ne ?_).mpr (hts u (List.mem_cons_of_mem _ hu))
      rintro rfl
      exact ht hu

end Sched

end Ukernel.Sync
