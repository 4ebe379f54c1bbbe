import Mathlib.Data.List.Basic
import Mathlib.Logic.Function.Basic

/-!
# Threads and wait queues

The scheduler of `kernel/process.c` and `kernel/sync/wait_queue.c`. A thread is named by its `tid`,
a wait queue by the address of the record that embeds it, with 0 for none. All of it runs with the
interrupts off, so that each function is one step.

## Main definitions

* `Thread`, `Sched`: the threads in the order of `thread_head`, and the wait queues
* `Sched.findNextRunnable`, `Sched.threadBlock`, `Sched.threadUnblock`: the scheduler
* `Sched.waitQueueSleepLocked`, `Sched.waitQueueWakeOne`: wait queues

## Main results

* `Sched.waitQueueSleepLocked_cases`, `Sched.waitQueueWakeOne_cases`: what they do to the queues
* `Sched.Waits`: who is linked in a queue knows it
-/

namespace Ukernel.Sync

/-- `thread_state`. -/
inductive ThreadState where
  | null
  | ready
  | pending
  deriving DecidableEq, Repr

/-- `tcb`, as far as scheduling and waiting need it. -/
structure Thread where
  /-- `parent->pid`. -/
  pid : Nat
  state : ThreadState
  wakePending : Bool
  mailbox : Nat
  waitingOn : Nat

/-- The threads in the order of `thread_head`, the running thread, and the wait queues with the
thread that slept last in front. -/
structure Sched where
  order : List Nat
  thread : Nat → Thread
  run : Option Nat
  waiters : Nat → List Nat

namespace Sched

/-- Change a thread. -/
def modify (s : Sched) (tid : Nat) (f : Thread → Thread) : Sched :=
  { s with thread := Function.update s.thread tid (f (s.thread tid)) }

/-- Replace a wait queue. -/
def setWaiters (s : Sched) (wq : Nat) (ts : List Nat) : Sched :=
  { s with waiters := Function.update s.waiters wq ts }

/-- The threads that `find_next_runnable` looks at: those behind the current one, and then those in
front of it. -/
def candidates (s : Sched) (current : Nat) : List Nat :=
  (s.order.dropWhile (· ≠ current)).tail ++ s.order.takeWhile (· ≠ current)

/-- `find_next_runnable`; the thread it finds has its wakeup consumed. -/
def findNextRunnable (s : Sched) (current : Nat) : Option Nat × Sched :=
  match (s.candidates current).find? fun t => (s.thread t).state == .ready with
  | some t => (some t, s.modify t fun th => { th with wakePending := false })
  | none => (none, s)

/-- Look for another thread and, if there is one, run it: `thread_yield_internal` and
`schedule_if_needed`. -/
def scheduleIfNeeded (s : Sched) : Sched :=
  match s.run with
  | none => s
  | some current =>
    match s.findNextRunnable current with
    | (some next, s) => { s with run := some next }
    | (none, s) => s

/-- `thread_block_internal`. -/
def threadBlock (s : Sched) (tid : Nat) : Sched :=
  if s.run = none ∨ tid ∉ s.order then s
  else if (s.thread tid).wakePending then
    s.modify tid fun th => { th with wakePending := false }
  else
    let s := s.modify tid fun th => { th with state := .pending }
    if s.run = some tid then s.scheduleIfNeeded else s

/-- `thread_unblock_internal` and `thread_unblock_locked`. -/
def threadUnblock (s : Sched) (tid : Nat) : Sched :=
  if s.run = none ∨ tid ∉ s.order then s
  else s.modify tid fun th => { th with wakePending := true, state := .ready }

/-- The threads of a process get a state. -/
def setStates (s : Sched) (pid : Nat) (state : ThreadState) : Sched :=
  { s with thread := fun t =>
      if t ∈ s.order ∧ (s.thread t).pid = pid then { s.thread t with state } else s.thread t }

/-- `proc_block_internal`. -/
def procBlock (s : Sched) (pid : Nat) : Sched := s.setStates pid .pending

/-- `proc_unblock_internal`. -/
def procUnblock (s : Sched) (pid : Nat) : Sched := s.setStates pid .ready

/-- A thread enters a wait queue. -/
def enlist (s : Sched) (tid wq : Nat) : Sched :=
  (s.modify tid fun th => { th with waitingOn := wq }).setWaiters wq (tid :: s.waiters wq)

/-- A thread leaves a wait queue. -/
def delist (s : Sched) (tid wq : Nat) : Sched :=
  (s.modify tid fun th => { th with waitingOn := 0 }).setWaiters wq ((s.waiters wq).erase tid)

/-- `wait_queue_sleep_locked`. -/
def waitQueueSleepLocked (s : Sched) (wq : Nat) : Sched :=
  match s.run with
  | none => s
  | some curr =>
    if curr ∉ s.order ∨ (s.thread curr).waitingOn ≠ 0 then s
    else (s.enlist curr wq).threadBlock curr

/-- `wait_queue_wake_one` and `wait_queue_wake_one_locked`. -/
def waitQueueWakeOne (s : Sched) (wq : Nat) : Sched :=
  match (s.waiters wq).find? fun t => (s.thread t).waitingOn == wq with
  | some t => (s.delist t wq).threadUnblock t
  | none => s

/-- `tcb_detach_wait`. -/
def detachWait (s : Sched) (tid : Nat) : Sched :=
  if (s.thread tid).waitingOn = 0 then s else s.delist tid (s.thread tid).waitingOn

/-! ## What the scheduler leaves alone -/

/-- Only who runs, and who could, has changed. -/
structure SameWaits (s s' : Sched) : Prop where
  order : s'.order = s.order
  waiters : s'.waiters = s.waiters
  pid : ∀ t, (s'.thread t).pid = (s.thread t).pid
  mailbox : ∀ t, (s'.thread t).mailbox = (s.thread t).mailbox
  waitingOn : ∀ t, (s'.thread t).waitingOn = (s.thread t).waitingOn

variable {s s' s'' : Sched} {tid wq : Nat}

theorem SameWaits.refl (s : Sched) : SameWaits s s :=
  ⟨rfl, rfl, fun _ => rfl, fun _ => rfl, fun _ => rfl⟩

theorem SameWaits.trans (h : SameWaits s s') (h' : SameWaits s' s'') : SameWaits s s'' :=
  ⟨h'.order.trans h.order, h'.waiters.trans h.waiters, fun t => (h'.pid t).trans (h.pid t),
    fun t => (h'.mailbox t).trans (h.mailbox t), fun t => (h'.waitingOn t).trans (h.waitingOn t)⟩

theorem modify_thread (tid t : Nat) (f : Thread → Thread) :
    (s.modify tid f).thread t = if t = tid then f (s.thread tid) else s.thread t := by
  unfold modify
  by_cases h : t = tid <;> simp [h]

theorem setWaiters_thread (s : Sched) (wq : Nat) (ts : List Nat) :
    (s.setWaiters wq ts).thread = s.thread := rfl

/-- A change to the state of a thread. -/
theorem sameWaits_modify {f : Thread → Thread} (hpid : ∀ th, (f th).pid = th.pid)
    (hbox : ∀ th, (f th).mailbox = th.mailbox) (hwait : ∀ th, (f th).waitingOn = th.waitingOn) :
    SameWaits s (s.modify tid f) := by
  refine ⟨rfl, rfl, fun t => ?_, fun t => ?_, fun t => ?_⟩ <;> rw [modify_thread] <;>
    split_ifs with h
  · rw [h, hpid]
  · rfl
  · rw [h, hbox]
  · rfl
  · rw [h, hwait]
  · rfl

theorem sameWaits_findNextRunnable (s : Sched) (current : Nat) :
    SameWaits s (s.findNextRunnable current).2 := by
  unfold findNextRunnable
  split
  · dsimp only
    exact sameWaits_modify (fun _ => rfl) (fun _ => rfl) fun _ => rfl
  · exact SameWaits.refl s

theorem sameWaits_scheduleIfNeeded (s : Sched) : SameWaits s s.scheduleIfNeeded := by
  unfold scheduleIfNeeded
  cases hr : s.run with
  | none => exact SameWaits.refl s
  | some current =>
    dsimp only
    have h := sameWaits_findNextRunnable s current
    rcases hf : s.findNextRunnable current with ⟨_ | next, s'⟩
    · rw [hf] at h
      exact h
    · rw [hf] at h
      exact ⟨h.order, h.waiters, h.pid, h.mailbox, h.waitingOn⟩

theorem sameWaits_threadBlock (s : Sched) (tid : Nat) : SameWaits s (s.threadBlock tid) := by
  unfold threadBlock
  dsimp only
  have h : SameWaits s (s.modify tid fun th => { th with state := .pending }) :=
    sameWaits_modify (fun _ => rfl) (fun _ => rfl) fun _ => rfl
  split_ifs
  · exact SameWaits.refl s
  · exact sameWaits_modify (fun _ => rfl) (fun _ => rfl) fun _ => rfl
  · exact h.trans (sameWaits_scheduleIfNeeded _)
  · exact h

theorem sameWaits_threadUnblock (s : Sched) (tid : Nat) : SameWaits s (s.threadUnblock tid) := by
  unfold threadUnblock
  split_ifs
  · exact SameWaits.refl s
  · exact sameWaits_modify (fun _ => rfl) (fun _ => rfl) fun _ => rfl

theorem sameWaits_setStates (s : Sched) (pid : Nat) (state : ThreadState) :
    SameWaits s (s.setStates pid state) := by
  refine ⟨rfl, rfl, fun t => ?_, fun t => ?_, fun t => ?_⟩ <;> unfold setStates <;> dsimp only <;>
    split <;> rfl

/-- The threads are those that they were, with their processes and mailboxes. -/
structure SameThreads (s s' : Sched) : Prop where
  order : s'.order = s.order
  pid : ∀ t, (s'.thread t).pid = (s.thread t).pid
  mailbox : ∀ t, (s'.thread t).mailbox = (s.thread t).mailbox

theorem SameThreads.refl (s : Sched) : SameThreads s s := ⟨rfl, fun _ => rfl, fun _ => rfl⟩

theorem SameThreads.trans (h : SameThreads s s') (h' : SameThreads s' s'') : SameThreads s s'' :=
  ⟨h'.order.trans h.order, fun t => (h'.pid t).trans (h.pid t),
    fun t => (h'.mailbox t).trans (h.mailbox t)⟩

theorem SameWaits.sameThreads (h : SameWaits s s') : SameThreads s s' := ⟨h.order, h.pid, h.mailbox⟩

theorem sameThreads_modify {f : Thread → Thread} (hpid : ∀ th, (f th).pid = th.pid)
    (hbox : ∀ th, (f th).mailbox = th.mailbox) : SameThreads s (s.modify tid f) := by
  refine ⟨rfl, fun t => ?_, fun t => ?_⟩ <;> rw [modify_thread] <;> split_ifs with h
  · rw [h, hpid]
  · rfl
  · rw [h, hbox]
  · rfl

theorem sameThreads_enlist (s : Sched) (tid wq : Nat) : SameThreads s (s.enlist tid wq) := by
  have h : SameThreads s (s.modify tid fun th => { th with waitingOn := wq }) :=
    sameThreads_modify (fun _ => rfl) fun _ => rfl
  exact ⟨h.order, h.pid, h.mailbox⟩

theorem sameThreads_delist (s : Sched) (tid wq : Nat) : SameThreads s (s.delist tid wq) := by
  have h : SameThreads s (s.modify tid fun th => { th with waitingOn := 0 }) :=
    sameThreads_modify (fun _ => rfl) fun _ => rfl
  exact ⟨h.order, h.pid, h.mailbox⟩

theorem sameThreads_detachWait (s : Sched) (t : Nat) : s.SameThreads (s.detachWait t) := by
  unfold detachWait
  split_ifs
  · exact SameThreads.refl s
  · exact s.sameThreads_delist t _

/-! ## Wait queues -/

/-- A thread falls asleep only if it is in no queue yet, and enters this one. -/
theorem waitQueueSleepLocked_cases (s : Sched) (wq : Nat) :
    s.waitQueueSleepLocked wq = s ∨ ∃ curr, s.run = some curr ∧ curr ∈ s.order ∧
      (s.thread curr).waitingOn = 0 ∧ SameWaits (s.enlist curr wq) (s.waitQueueSleepLocked wq) := by
  unfold waitQueueSleepLocked
  cases hr : s.run with
  | none => exact Or.inl rfl
  | some curr => grind [sameWaits_threadBlock]

theorem sameThreads_sleepLocked (s : Sched) (wq : Nat) :
    SameThreads s (s.waitQueueSleepLocked wq) := by
  rcases waitQueueSleepLocked_cases s wq with heq | ⟨curr, -, -, -, hs⟩
  · rw [heq]
    exact SameThreads.refl s
  · exact (sameThreads_enlist s curr wq).trans hs.sameThreads

theorem sameThreads_wakeOne (s : Sched) (wq : Nat) : SameThreads s (s.waitQueueWakeOne wq) := by
  unfold waitQueueWakeOne
  split
  · exact (sameThreads_delist s _ wq).trans (sameWaits_threadUnblock _ _).sameThreads
  · exact SameThreads.refl s

/-- Who is linked in a queue knows it, and is linked once. -/
structure Waits (s : Sched) : Prop where
  waitingOn : ∀ wq, ∀ t ∈ s.waiters wq, (s.thread t).waitingOn = wq
  nodup : ∀ wq, (s.waiters wq).Nodup
  none : s.waiters 0 = []

/-- Waking takes the thread in front out of the queue, if there is one. -/
theorem Waits.wakeOne (h : s.Waits) (wq : Nat) :
    s.waiters wq = [] ∧ s.waitQueueWakeOne wq = s ∨ ∃ t ts, s.waiters wq = t :: ts ∧
      s.waitQueueWakeOne wq = (s.delist t wq).threadUnblock t := by
  unfold waitQueueWakeOne
  cases hw : s.waiters wq with
  | nil => exact Or.inl ⟨rfl, rfl⟩
  | cons t ts => grind [h.waitingOn, List.mem_cons_self]

/-- A thread that waits for nothing is in no queue. -/
theorem Waits.not_mem (h : s.Waits) (hfree : (s.thread tid).waitingOn = 0) (wq : Nat) :
    tid ∉ s.waiters wq := by
  intro hmem
  have hon := h.waitingOn wq tid hmem
  rw [← hon, hfree, h.none] at hmem
  exact List.not_mem_nil hmem

theorem Waits.congr (h : s.Waits) (hs : SameWaits s s') : s'.Waits where
  waitingOn wq t ht := by
    rw [hs.waitingOn]
    exact h.waitingOn wq t (hs.waiters ▸ ht)
  nodup wq := by
    rw [hs.waiters]
    exact h.nodup wq
  none := by
    rw [hs.waiters]
    exact h.none

theorem enlist_waiters (s : Sched) (tid wq q : Nat) :
    (s.enlist tid wq).waiters q = if q = wq then tid :: s.waiters wq else s.waiters q := by
  unfold enlist setWaiters modify
  by_cases h : q = wq <;> simp [h]

theorem delist_waiters (s : Sched) (tid wq q : Nat) :
    (s.delist tid wq).waiters q = if q = wq then (s.waiters wq).erase tid else s.waiters q := by
  unfold delist setWaiters modify
  by_cases h : q = wq <;> simp [h]

theorem enlist_waitingOn (s : Sched) (tid wq t : Nat) :
    ((s.enlist tid wq).thread t).waitingOn = if t = tid then wq else (s.thread t).waitingOn := by
  rw [enlist, setWaiters_thread, modify_thread]
  split_ifs <;> rfl

theorem delist_waitingOn (s : Sched) (tid wq t : Nat) :
    ((s.delist tid wq).thread t).waitingOn = if t = tid then 0 else (s.thread t).waitingOn := by
  rw [delist, setWaiters_thread, modify_thread]
  split_ifs <;> rfl

theorem Waits.enlist (h : s.Waits) (hfree : (s.thread tid).waitingOn = 0) (hwq : wq ≠ 0) :
    (s.enlist tid wq).Waits := by
  have hnot := h.not_mem hfree
  refine ⟨fun q t ht => ?_, fun q => ?_, ?_⟩
  · grind [enlist_waiters, enlist_waitingOn, h.waitingOn]
  · grind [enlist_waiters, h.nodup]
  · rw [enlist_waiters, if_neg hwq.symm, h.none]

theorem Waits.delist (h : s.Waits) (hmem : tid ∈ s.waiters wq) : (s.delist tid wq).Waits := by
  have hon := h.waitingOn wq tid hmem
  refine ⟨fun q t ht => ?_, fun q => ?_, ?_⟩
  · rw [delist_waiters] at ht
    rw [delist_waitingOn]
    by_cases hq : q = wq
    · rw [if_pos hq] at ht
      have hne : t ≠ tid := fun heq => (h.nodup wq).not_mem_erase (heq ▸ ht)
      rw [if_neg hne, hq]
      exact h.waitingOn wq t (List.mem_of_mem_erase ht)
    · grind [h.waitingOn]
  · rw [delist_waiters]
    split_ifs
    · exact (h.nodup wq).erase _
    · exact h.nodup q
  · grind [delist_waiters, h.none]

theorem Waits.sleepLocked (h : s.Waits) (hwq : wq ≠ 0) : (s.waitQueueSleepLocked wq).Waits := by
  rcases waitQueueSleepLocked_cases s wq with heq | ⟨curr, -, -, hfree, hs⟩
  · rw [heq]
    exact h
  · exact (h.enlist hfree hwq).congr hs

theorem Waits.wake (h : s.Waits) (wq : Nat) : (s.waitQueueWakeOne wq).Waits := by
  rcases h.wakeOne wq with ⟨-, heq⟩ | ⟨t, ts, hw, heq⟩
  · rw [heq]
    exact h
  · rw [heq]
    exact (h.delist (hw ▸ List.mem_cons_self)).congr (sameWaits_threadUnblock _ _)

/-- A thread that is in no queue enters the one where it falls asleep. -/
theorem sleepLocked_waiters (hrun : s.run = some tid) (hmem : tid ∈ s.order)
    (hfree : (s.thread tid).waitingOn = 0) (wq q : Nat) :
    (s.waitQueueSleepLocked wq).waiters q =
      if q = wq then tid :: s.waiters wq else s.waiters q := by
  have hsleep : s.waitQueueSleepLocked wq = (s.enlist tid wq).threadBlock tid := by
    grind [waitQueueSleepLocked]
  rw [hsleep, (sameWaits_threadBlock _ tid).waiters, enlist_waiters]

/-- The thread in front of a queue leaves it. -/
theorem Waits.wake_waiters (h : s.Waits) (wq q : Nat) :
    (s.waitQueueWakeOne wq).waiters q = if q = wq then (s.waiters wq).tail else s.waiters q := by
  rcases h.wakeOne wq with ⟨hnil, heq⟩ | ⟨t, ts, hw, heq⟩
  · grind
  · rw [heq, (sameWaits_threadUnblock _ t).waiters, delist_waiters, hw]
    simp

theorem threadUnblock_run (s : Sched) (tid : Nat) : (s.threadUnblock tid).run = s.run := by
  unfold threadUnblock
  split_ifs <;> rfl

theorem wakeOne_run (s : Sched) (wq : Nat) : (s.waitQueueWakeOne wq).run = s.run := by
  unfold waitQueueWakeOne
  split
  · rw [threadUnblock_run]
    rfl
  · rfl

end Sched

end Ukernel.Sync
