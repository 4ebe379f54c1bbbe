import Ukernel.Sync.Semaphore

/-!
# Threads come and go

What creation, deletion and exit in `kernel/process.c` do to the lists of the scheduler. A thread
that goes leaves its wait queue first; if it is the running thread, another one is chosen before,
and where there is none it stays.

## Main definitions

* `Sched.enter`, `Sched.startFirst`, `Sched.threadCreate`: creation
* `Sched.unlink`, `Sched.threadDelete`, `Sched.exitThread`, `Sched.exitLoop`: deletion and exit
* `Sched.Tidy`: threads are listed once, the running thread is listed, and so is every thread in a
  wait queue

## Main results

* `Sched.Tidy.enter`, `Sched.Tidy.unlink`, `Sched.Tidy.exitLoop` and the lemmas next to them: all
  operations keep the lists tidy
-/

namespace Ukernel.Sync

namespace Sched

/-! ## The operations -/

/-- A thread enters `thread_head`. -/
def enter (s : Sched) (t : Nat) (th : Thread) : Sched :=
  { s with order := t :: s.order, thread := Function.update s.thread t th }

/-- The first thread is ready and runs. -/
def startFirst (s : Sched) (t : Nat) : Sched :=
  { s.modify t fun th => { th with state := .ready } with run := some t }

/-- `thread_create_ex_internal`, once there is memory: the first thread is started. -/
def threadCreate (s : Sched) (t pid : Nat) (initial : ThreadState) : Sched :=
  let s := s.enter t ⟨pid, initial, false, 0, 0⟩
  if s.run = none then s.startFirst t else s

/-- A thread leaves its wait queue and `thread_head`. -/
def unlink (s : Sched) (t : Nat) : Sched := { s.detachWait t with order := s.order.erase t }

/-- `thread_delete_internal`. -/
def threadDelete (s : Sched) (t : Nat) : Sched :=
  if s.run = none ∨ t ∉ s.order then s
  else if s.run ≠ some t then s.unlink t
  else
    match s.findNextRunnable t with
    | (none, _) => s
    | (some next, s) => Sched.unlink { s with run := some next } t

/-- The body of the loop of `proc_exit_internal`; there is no result if it halts. -/
def exitThread (s : Sched) (t : Nat) : Option Sched :=
  if s.run ≠ some t then some (s.unlink t)
  else
    match s.findNextRunnable t with
    | (none, _) => none
    | (some next, s) => some (Sched.unlink { s with run := some next } t)

/-- The loop of `proc_exit_internal`: whether it comes to its end, and where it stops. -/
def exitLoop : List Nat → Sched → Bool × Sched
  | [], s => (true, s)
  | t :: ts, s =>
    match s.exitThread t with
    | none => (false, s)
    | some s => exitLoop ts s

/-- `wait_queue_wake_by_tid`. -/
def waitQueueWakeByTid (s : Sched) (wq t : Nat) : Sched :=
  if t ∈ s.waiters wq ∧ (s.thread t).waitingOn = wq then (s.delist t wq).threadUnblock t else s

/-- The loop of `wait_queue_wake_all`. -/
def wakeAllLoop (wq : Nat) : List Nat → Sched → Sched
  | [], s => s
  | t :: ts, s =>
    wakeAllLoop wq ts
      (if (s.thread t).waitingOn = wq then (s.delist t wq).threadUnblock t else s)

/-- `wait_queue_wake_all`. -/
def waitQueueWakeAll (s : Sched) (wq : Nat) : Sched := wakeAllLoop wq (s.waiters wq) s

/-! ## Choosing a thread -/

variable {s s' : Sched} {t wq : Nat}

/-- Nobody is a candidate for taking over from itself. -/
theorem not_mem_candidates (h : s.order.Nodup) (current : Nat) :
    current ∉ s.candidates current := by
  unfold candidates
  generalize s.order = l at h
  induction l with
  | nil => exact List.not_mem_nil
  | cons x l ih => grind [List.dropWhile_cons, List.takeWhile_cons]

/-- Nobody else is ready, or a ready thread is found and its wakeup consumed. -/
theorem findNextRunnable_cases (s : Sched) (current : Nat) :
    (∀ t ∈ s.candidates current, (s.thread t).state ≠ .ready) ∧
        s.findNextRunnable current = (none, s) ∨
      ∃ next ∈ s.candidates current, (s.thread next).state = .ready ∧
        s.findNextRunnable current =
          (some next, s.modify next fun th => { th with wakePending := false }) := by
  unfold findNextRunnable
  cases hfind : (s.candidates current).find? fun t => (s.thread t).state == .ready with
  | none => grind
  | some next => grind

/-- A thread is not deleted, or leaves, with another one running if it did. -/
theorem threadDelete_cases (s : Sched) (t : Nat) :
    s.threadDelete t = s ∨ s.run ≠ some t ∧ s.threadDelete t = s.unlink t ∨
      ∃ next ∈ s.candidates t, s.threadDelete t = (s.switchTo next).unlink t := by
  unfold threadDelete
  split_ifs with hnone hrun
  · exact Or.inl rfl
  · exact Or.inr (Or.inl ⟨hrun, rfl⟩)
  · rcases s.findNextRunnable_cases t with ⟨-, heq⟩ | ⟨next, hnext, -, heq⟩
    · rw [heq]
      exact Or.inl rfl
    · rw [heq]
      exact Or.inr (Or.inr ⟨next, hnext, rfl⟩)

/-- A wait queue that a thread is not in does not notice that it goes. -/
theorem unlink_waiters {q : Nat} (hnot : t ∉ s.waiters q) :
    (s.unlink t).waiters q = s.waiters q := by
  change (s.detachWait t).waiters q = s.waiters q
  unfold detachWait
  split_ifs
  · rfl
  · rw [delist_waiters]
    split_ifs with hq
    · rw [← hq, List.erase_of_not_mem hnot]
    · rfl

theorem threadDelete_waiters {q : Nat} (hnot : t ∉ s.waiters q) :
    (s.threadDelete t).waiters q = s.waiters q := by
  rcases s.threadDelete_cases t with heq | ⟨-, heq⟩ | ⟨next, -, heq⟩
  · rw [heq]
  · rw [heq, unlink_waiters hnot]
  · rw [heq]
    exact unlink_waiters hnot

theorem mem_waiters_of_threadDelete {q u : Nat} (hu : u ∈ (s.threadDelete t).waiters q) :
    u ∈ s.waiters q := by
  have hunlink {s : Sched} (hu : u ∈ (s.unlink t).waiters q) : u ∈ s.waiters q := by
    change u ∈ (s.detachWait t).waiters q at hu
    unfold detachWait at hu
    split_ifs at hu
    · exact hu
    · grind [delist_waiters]
  rcases s.threadDelete_cases t with heq | ⟨-, heq⟩ | ⟨next, -, heq⟩
  · exact heq ▸ hu
  · exact hunlink (heq ▸ hu)
  · rw [heq] at hu
    have hold := hunlink hu
    exact hold

theorem threadCreate_waiters (s : Sched) (t pid : Nat) (initial : ThreadState) :
    (s.threadCreate t pid initial).waiters = s.waiters := by
  unfold threadCreate
  dsimp only
  split_ifs <;> rfl

/-! ## Lists that are tidy -/

/-- Threads are listed once; the running thread and the threads in wait queues are listed. -/
structure Tidy (s : Sched) : Prop where
  nodup : s.order.Nodup
  run : ∀ t, s.run = some t → t ∈ s.order
  waits : s.Waits
  live : ∀ wq, ∀ t ∈ s.waiters wq, t ∈ s.order

namespace Tidy

variable (h : s.Tidy)

include h

theorem congr (hs : s.SameWaits s') (hrun : ∀ t, s'.run = some t → t ∈ s.order) :
    s'.Tidy where
  nodup := hs.order.symm ▸ h.nodup
  run t ht := hs.order.symm ▸ hrun t ht
  waits := h.waits.congr hs
  live wq t ht := by
    rw [hs.waiters] at ht
    rw [hs.order]
    exact h.live wq t ht

/-- A change to a thread that does not concern its wait queue. -/
theorem modify (t : Nat) (f : Thread → Thread) (hwait : ∀ th, (f th).waitingOn = th.waitingOn) :
    (s.modify t f).Tidy := by
  refine ⟨h.nodup, h.run, ⟨fun q u hu => ?_, h.waits.nodup, h.waits.none⟩, h.live⟩
  rw [modify_thread]
  split_ifs with heq
  · rw [hwait, ← heq]
    exact h.waits.waitingOn q u hu
  · exact h.waits.waitingOn q u hu

theorem switchTo {next : Nat} (hnext : next ∈ s.order) : (s.switchTo next).Tidy := by
  refine h.congr (s.sameWaits_switchTo next) fun t ht => ?_
  cases ht
  exact hnext

theorem schedule : s.scheduleIfNeeded.Tidy :=
  h.congr s.sameWaits_scheduleIfNeeded fun _ ht => schedule_run h.run ht

theorem threadBlock (t : Nat) : (s.threadBlock t).Tidy :=
  h.congr (s.sameWaits_threadBlock t) fun _ ht => threadBlock_run h.run ht

theorem threadUnblock (t : Nat) : (s.threadUnblock t).Tidy :=
  h.congr (s.sameWaits_threadUnblock t) fun u hu => h.run u ((s.threadUnblock_run t).symm.trans hu)

theorem enlist (ht : t ∈ s.order) (hfree : (s.thread t).waitingOn = 0) (hwq : wq ≠ 0) :
    (s.enlist t wq).Tidy where
  nodup := h.nodup
  run := h.run
  waits := h.waits.enlist hfree hwq
  live q u hu := by
    rw [enlist_waiters] at hu
    split_ifs at hu with hq
    · rcases List.mem_cons.mp hu with rfl | hu
      · exact ht
      · exact h.live wq u hu
    · exact h.live q u hu

theorem delist (ht : t ∈ s.waiters wq) : (s.delist t wq).Tidy where
  nodup := h.nodup
  run := h.run
  waits := h.waits.delist ht
  live q u hu := by
    rw [delist_waiters] at hu
    split_ifs at hu with hq
    · exact h.live wq u (List.mem_of_mem_erase hu)
    · exact h.live q u hu

theorem sleepLocked (hwq : wq ≠ 0) : (s.waitQueueSleepLocked wq).Tidy := by
  unfold waitQueueSleepLocked
  cases hrun : s.run with
  | none => exact h
  | some curr =>
    dsimp only
    split_ifs with hc
    · exact h
    · rw [not_or, not_not, not_not] at hc
      exact (h.enlist hc.1 hc.2 hwq).threadBlock curr

theorem wakeOne (wq : Nat) : (s.waitQueueWakeOne wq).Tidy := by
  rcases h.waits.wakeOne wq with ⟨-, heq⟩ | ⟨t, ts, hw, heq⟩
  · rw [heq]
    exact h
  · rw [heq]
    exact (h.delist (hw ▸ List.mem_cons_self)).threadUnblock t

/-- A wait queue is cleared. -/
theorem clear (wq : Nat) : (s.setWaiters wq []).Tidy := by
  have hsub {q u : Nat} (hu : u ∈ (s.setWaiters wq []).waiters q) : u ∈ s.waiters q := by
    change u ∈ Function.update s.waiters wq [] q at hu
    by_cases hq : q = wq
    · grind
    · rwa [Function.update_of_ne hq] at hu
  refine ⟨h.nodup, h.run, ⟨fun q u hu => h.waits.waitingOn q u (hsub hu), fun q => ?_, ?_⟩,
    fun q u hu => h.live q u (hsub hu)⟩
  · change (Function.update s.waiters wq [] q).Nodup
    by_cases hq : q = wq
    · rw [hq, Function.update_self]
      exact List.nodup_nil
    · rw [Function.update_of_ne hq]
      exact h.waits.nodup q
  · refine List.eq_nil_iff_forall_not_mem.mpr fun u hu => ?_
    have hzero := hsub hu
    rw [h.waits.none] at hzero
    exact List.not_mem_nil hzero

/-- A new thread waits nowhere. -/
theorem enter (ht : t ∉ s.order) (th : Thread) : (s.enter t th).Tidy := by
  have hne {q u : Nat} (hu : u ∈ s.waiters q) : u ≠ t := fun heq => ht (heq ▸ h.live q u hu)
  refine ⟨List.nodup_cons.mpr ⟨ht, h.nodup⟩, fun u hu => List.mem_cons_of_mem _ (h.run u hu),
    ⟨fun q u hu => ?_, h.waits.nodup, h.waits.none⟩,
    fun q u hu => List.mem_cons_of_mem _ (h.live q u hu)⟩
  change (Function.update s.thread t th u).waitingOn = q
  rw [Function.update_of_ne (hne hu)]
  exact h.waits.waitingOn q u hu

theorem startFirst (ht : t ∈ s.order) : (s.startFirst t).Tidy := by
  have hs : s.SameWaits (s.modify t fun th => { th with state := .ready }) :=
    sameWaits_modify (fun _ => rfl) (fun _ => rfl) fun _ => rfl
  have hstart : s.SameWaits (s.startFirst t) :=
    ⟨hs.order, hs.waiters, hs.pid, hs.mailbox, hs.waitingOn⟩
  refine h.congr hstart fun u hu => ?_
  cases hu
  exact ht

/-- The wait queues that a thread leaves no longer hold it. -/
theorem detachWait (t : Nat) :
    (s.detachWait t).Tidy ∧ (s.detachWait t).order = s.order ∧ (s.detachWait t).run = s.run ∧
      ∀ q, t ∉ (s.detachWait t).waiters q := by
  have hnot {q : Nat} (hq : q ≠ (s.thread t).waitingOn) : t ∉ s.waiters q := fun hmem =>
    hq (h.waits.waitingOn q t hmem).symm
  unfold Sched.detachWait
  split_ifs with hz
  · grind [h.waits.none]
  · by_cases hmem : t ∈ s.waiters (s.thread t).waitingOn
    · refine ⟨h.delist hmem, rfl, rfl, fun q => ?_⟩
      rw [delist_waiters]
      split_ifs with hq
      · exact (h.waits.nodup _).not_mem_erase
      · exact hnot hq
    · -- the queue has been cleared under the thread
      have hall (q : Nat) : t ∉ s.waiters q := by grind
      have hw (q : Nat) : (s.delist t (s.thread t).waitingOn).waiters q = s.waiters q := by
        grind [delist_waiters, List.erase_of_not_mem]
      refine ⟨⟨h.nodup, h.run, ⟨fun q u hu => ?_, fun q => ?_, ?_⟩, fun q u hu => ?_⟩, rfl, rfl,
        fun q => ?_⟩
      · grind [delist_waitingOn, h.waits.waitingOn]
      · rw [hw]
        exact h.waits.nodup q
      · rw [hw]
        exact h.waits.none
      · rw [hw] at hu
        exact h.live q u hu
      · rw [hw]
        exact hall q

/-- A thread that does not run leaves. -/
theorem unlink (hrun : s.run ≠ some t) : (s.unlink t).Tidy := by
  obtain ⟨htidy, horder, hr, hnot⟩ := h.detachWait t
  have hmem {u : Nat} (hu : u ∈ s.order) (hne : u ≠ t) : u ∈ s.order.erase t :=
    h.nodup.mem_erase_iff.mpr ⟨hne, hu⟩
  have hwaits : (s.unlink t).Waits :=
    ⟨htidy.waits.waitingOn, htidy.waits.nodup, htidy.waits.none⟩
  refine ⟨h.nodup.erase t, fun u hu => ?_, hwaits, fun q u hu => ?_⟩
  · have hu' : s.run = some u := hr.symm.trans hu
    exact hmem (h.run u hu') fun heq => hrun (heq ▸ hu')
  · have hold : u ∈ s.order := horder ▸ htidy.live q u hu
    exact hmem hold fun heq => hnot q (heq ▸ hu)

/-- The running thread leaves, once another one runs. -/
theorem unlinkRunning {next : Nat} (hnext : next ∈ s.candidates t) :
    ((s.switchTo next).unlink t).Tidy := by
  refine (h.switchTo (mem_candidates hnext)).unlink fun heq => ?_
  have hnt : next = t := Option.some.inj heq
  exact not_mem_candidates h.nodup t (hnt ▸ hnext)

theorem threadDelete (t : Nat) : (s.threadDelete t).Tidy := by
  rcases s.threadDelete_cases t with heq | ⟨hrun, heq⟩ | ⟨next, hnext, heq⟩
  · rw [heq]
    exact h
  · rw [heq]
    exact h.unlink hrun
  · rw [heq]
    exact h.unlinkRunning hnext

theorem threadCreate (ht : t ∉ s.order) (pid : Nat) (initial : ThreadState) :
    (s.threadCreate t pid initial).Tidy := by
  have henter := h.enter ht ⟨pid, initial, false, 0, 0⟩
  unfold Sched.threadCreate
  dsimp only
  split_ifs
  · exact henter.startFirst List.mem_cons_self
  · exact henter

theorem setStates (pid : Nat) (state : ThreadState) : (s.setStates pid state).Tidy :=
  h.congr (s.sameWaits_setStates pid state) h.run

theorem exitThread (hs : s.exitThread t = some s') : s'.Tidy := by
  unfold Sched.exitThread at hs
  split_ifs at hs with hrun
  · cases hs
    exact h.unlink hrun
  · rcases s.findNextRunnable_cases t with ⟨-, heq⟩ | ⟨next, hnext, -, heq⟩
    · rw [heq] at hs
      cases hs
    · rw [heq] at hs
      cases hs
      exact h.unlinkRunning hnext

theorem exitLoop (ts : List Nat) : (exitLoop ts s).2.Tidy := by
  induction ts generalizing s with
  | nil => exact h
  | cons t ts ih => grind [Sched.exitLoop, h.exitThread]

end Tidy

end Sched

end Ukernel.Sync
