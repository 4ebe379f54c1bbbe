import Ukernel.Machine.System
import Ukernel.Sync.Threads

/-!
# What a semaphore counts

`semaphore_wait` takes one from the value before it puts the caller to sleep, `semaphore_signal`
adds one before it wakes somebody. A value below 0 is then meant to be the number of threads in the
wait queue, and `semaphore_signal` relies on it: it looks for a thread exactly if the new value is
at most 0. Semaphores, the scheduler and the threads that come and go run together here.

## Why it can go wrong

The value and the queue change in different places. `wait_queue_sleep_locked` does not enter a
thread that still has a `waiting_on`, although its caller has counted it: that happens to a thread
that waits while nobody else can run, since it goes on running with its link in the queue, and to a
thread that `thread_unblock` or `proc_unblock` has made ready behind the back of the queue. And
`tcb_detach_wait` takes a thread out of the queue when it is deleted, but leaves the value alone.
Afterwards a signal finds nobody to wake while the value says that there is somebody.

`SemOp.Balanced` rules out these three situations and nothing else; apart from them only the range
of `int` matters, which the values of the model do not have.

## Main definitions

* `SemOp`, `SemOp.exec`: the operations of semaphores, threads and the timer
* `SemOp.Sound`: what callers guarantee
* `SemOp.Balanced`: whoever is put to sleep is in no queue, and whoever is deleted neither

## Main results

* `SemState.Counts.step`: one operation
* `semaphore_accounting`: in every run, a semaphore counts the threads in its queue
-/

namespace Ukernel.Sync

open Machine

/-- What can happen. -/
inductive SemOp where
  | create (value : Int)
  | destroy (a : Nat)
  | wait (id : Nat)
  | signal (id : Nat)
  | threadCreate (t pid : Nat) (initial : ThreadState)
  | threadDelete (t : Nat)
  | threadBlock (t : Nat)
  | threadUnblock (t : Nat)
  | procBlock (pid : Nat)
  | procUnblock (pid : Nat)
  /-- The timer. -/
  | timer

/-- A step. -/
def SemOp.exec (s : SemState) : SemOp → SemState
  | .create value => (s.create value).2
  | .destroy a => (s.destroy a).2
  | .wait id => (s.wait id).2
  | .signal id => (s.signal id).2
  | .threadCreate t pid initial => s.withSched (s.sched.threadCreate t pid initial)
  | .threadDelete t => s.withSched (s.sched.threadDelete t)
  | .threadBlock t => s.withSched (s.sched.threadBlock t)
  | .threadUnblock t => s.withSched (s.sched.threadUnblock t)
  | .procBlock pid => s.withSched (s.sched.procBlock pid)
  | .procUnblock pid => s.withSched (s.sched.procUnblock pid)
  | .timer => s.withSched s.sched.scheduleIfNeeded

/-- A semaphore starts at 0 or above, only semaphores are destroyed, some thread makes the calls,
and a new thread is not listed yet. -/
def SemOp.Sound (s : SemState) : SemOp → Prop
  | .create value => 0 ≤ value
  | .destroy a => a ∈ s.head
  | .wait _ => s.sched.run ≠ none
  | .threadCreate t _ _ => t ∉ s.sched.order
  | _ => True

/-- A thread that a semaphore puts to sleep is in no wait queue, a thread that is deleted is not in
the queue of a semaphore, and no value leaves the range of `int`. -/
def SemOp.Balanced (s : SemState) : SemOp → Prop
  | .create value => value < 2 ^ 31
  | .wait id => ∀ a ∈ s.get id, -2 ^ 31 < (s.sem a).value ∧
      ((s.sem a).value ≤ 0 → s.sched.Unqueued)
  | .signal id => ∀ a ∈ s.get id, (s.sem a).value + 1 < 2 ^ 31
  | .threadDelete t => ∀ a ∈ s.head, t ∉ s.sched.waiters a
  | _ => True

instance (s : SemState) : (op : SemOp) → Decidable (op.Sound s)
  | .create value => inferInstanceAs (Decidable (0 ≤ value))
  | .destroy a => inferInstanceAs (Decidable (a ∈ s.head))
  | .wait _ => inferInstanceAs (Decidable (s.sched.run ≠ none))
  | .threadCreate t _ _ => inferInstanceAs (Decidable (t ∉ s.sched.order))
  | .signal _ | .threadDelete _ | .threadBlock _ | .threadUnblock _ | .procBlock _
  | .procUnblock _ | .timer => .isTrue trivial

instance (s : SemState) : (op : SemOp) → Decidable (op.Balanced s)
  | .create value => inferInstanceAs (Decidable (value < 2 ^ 31))
  | .wait id => inferInstanceAs (Decidable (∀ a ∈ s.get id, -2 ^ 31 < (s.sem a).value ∧
      ((s.sem a).value ≤ 0 → s.sched.Unqueued)))
  | .signal id => inferInstanceAs (Decidable (∀ a ∈ s.get id, (s.sem a).value + 1 < 2 ^ 31))
  | .threadDelete t => inferInstanceAs (Decidable (∀ a ∈ s.head, t ∉ s.sched.waiters a))
  | .destroy _ | .threadCreate _ _ _ | .threadBlock _ | .threadUnblock _ | .procBlock _
  | .procUnblock _ | .timer => .isTrue trivial

/-- The runs of all that callers may do. -/
def semSystem : System SemState SemOp := ⟨SemOp.exec, fun s op => op.Sound s⟩

/-- The runs that keep the balance. -/
def balancedSystem : System SemState SemOp := ⟨SemOp.exec, fun s op => op.Sound s ∧ op.Balanced s⟩

instance (s : SemState) (op : SemOp) : Decidable (semSystem.enabled s op) :=
  inferInstanceAs (Decidable (op.Sound s))

instance (s : SemState) (op : SemOp) : Decidable (balancedSystem.enabled s op) :=
  inferInstanceAs (Decidable (op.Sound s ∧ op.Balanced s))

namespace SemState

/-- There are no semaphores yet, and nobody waits. -/
structure Start (s : SemState) : Prop where
  nodup : s.sched.order.Nodup
  run : ∀ t, s.sched.run = some t → t ∈ s.sched.order
  waiters : ∀ wq, s.sched.waiters wq = []
  heap : s.kheap.live.Nodup
  head : s.head = []

variable {s : SemState} {id t : Nat}

theorem Start.tidy (h : s.Start) : s.sched.Tidy where
  nodup := h.nodup
  run := h.run
  waits := ⟨fun wq _ ht => absurd (h.waiters wq ▸ ht) List.not_mem_nil,
    fun wq => h.waiters wq ▸ List.nodup_nil, h.waiters 0⟩
  live wq _ ht := absurd (h.waiters wq ▸ ht) List.not_mem_nil

theorem Start.counts (h : s.Start) : s.Counts where
  head := h.head ▸ List.nodup_nil
  live _ ha := absurd (h.head ▸ ha) List.not_mem_nil
  heap := h.heap
  count _ ha := absurd (h.head ▸ ha) List.not_mem_nil
  idle a _ := h.waiters a

/-! ## One step -/

variable (h : s.Counts)

include h

theorem Counts.wait (htidy : s.sched.Tidy) (hrun : s.sched.run ≠ none)
    (hb : (SemOp.wait id).Balanced s) : (s.wait id).2.sched.Tidy ∧ (s.wait id).2.Counts := by
  cases hget : s.get id with
  | none =>
    unfold SemState.wait
    rw [hget]
    exact ⟨htidy, h⟩
  | some a =>
    obtain ⟨t, ht⟩ := Option.ne_none_iff_exists'.mp hrun
    have hfree (hv : (s.sem a).value ≤ 0) : (s.sched.thread t).waitingOn = 0 :=
      (hb a hget).2 hv t ht
    refine ⟨?_, (h.wait_shifted hget ht (htidy.run t ht) hfree).2⟩
    rw [wait_eq hget]
    split_ifs
    · exact htidy.sleepLocked (h.live a (get_mem hget)).1
    · exact htidy

theorem Counts.signal (htidy : s.sched.Tidy) (id : Nat) :
    (s.signal id).2.sched.Tidy ∧ (s.signal id).2.Counts := by
  cases hget : s.get id with
  | none =>
    unfold SemState.signal
    rw [hget]
    exact ⟨htidy, h⟩
  | some a =>
    refine ⟨?_, (h.signal_shifted htidy.waits hget).2⟩
    rw [signal_eq hget]
    split_ifs
    · exact htidy.wakeOne a
    · exact htidy

theorem Counts.create (htidy : s.sched.Tidy) {value : Int} (hvalue : 0 ≤ value) :
    (s.create value).2.sched.Tidy ∧ (s.create value).2.Counts := by
  rcases s.create_cases value with ⟨-, hu⟩ | hc
  · exact ⟨hu.sched.symm ▸ htidy, hu.counts h⟩
  · exact ⟨(hc.sched_eq h).symm ▸ htidy, hc.counts h hvalue⟩

theorem Counts.destroy (htidy : s.sched.Tidy) {a : Nat} (ha : a ∈ s.head) :
    (s.destroy a).2.sched.Tidy ∧ (s.destroy a).2.Counts := by
  rcases s.destroy_cases (h.live a ha).1 with ⟨-, heq⟩ | ⟨hw, hd⟩
  · rw [heq]
    exact ⟨htidy, h⟩
  · exact ⟨hd.sched.symm ▸ htidy, hd.counts h hw⟩

/-- A thread goes that no semaphore counts. -/
theorem Counts.threadDelete (hnot : ∀ a ∈ s.head, t ∉ s.sched.waiters a) :
    (s.withSched (s.sched.threadDelete t)).Counts where
  head := h.head
  live := h.live
  heap := h.heap
  count a ha := by
    change ((s.sched.threadDelete t).waiters a).length = _
    rw [Sched.threadDelete_waiters (hnot a ha)]
    exact h.count a ha
  idle a ha := by
    change (s.sched.threadDelete t).waiters a = []
    have hnil := h.idle a ha
    rw [Sched.threadDelete_waiters (hnil ▸ List.not_mem_nil), hnil]

/-- Every operation keeps the counts. -/
theorem Counts.step (htidy : s.sched.Tidy) {op : SemOp} (hs : op.Sound s) (hb : op.Balanced s) :
    (op.exec s).sched.Tidy ∧ (op.exec s).Counts := by
  cases op with
  | create value => exact h.create htidy hs
  | destroy a => exact h.destroy htidy hs
  | wait id => exact h.wait htidy hs hb
  | signal id => exact h.signal htidy id
  | threadCreate t pid initial =>
    exact ⟨htidy.threadCreate hs pid initial,
      h.withSched (s.sched.threadCreate_waiters t pid initial)⟩
  | threadDelete t => exact ⟨htidy.threadDelete t, h.threadDelete hb⟩
  -- the rest of the scheduler does not touch the wait queues
  | threadBlock t =>
    exact ⟨htidy.threadBlock t, h.withSched (s.sched.sameWaits_threadBlock t).waiters⟩
  | threadUnblock t =>
    exact ⟨htidy.threadUnblock t, h.withSched (s.sched.sameWaits_threadUnblock t).waiters⟩
  | procBlock pid =>
    exact ⟨htidy.setStates pid _, h.withSched (s.sched.sameWaits_setStates pid _).waiters⟩
  | procUnblock pid =>
    exact ⟨htidy.setStates pid _, h.withSched (s.sched.sameWaits_setStates pid _).waiters⟩
  | timer => exact ⟨htidy.schedule, h.withSched s.sched.sameWaits_scheduleIfNeeded.waiters⟩

end SemState

/-! ## Runs -/

variable {s : SemState}

/-- In every state of every run that keeps the balance, a semaphore has as many threads in its wait
queue as its value is below 0. -/
theorem semaphore_accounting {ops : List SemOp} (hs : s.Start)
    (hops : balancedSystem.Legal s ops) :
    let s' := balancedSystem.run s ops
    ∀ a ∈ s'.head, ((s'.sched.waiters a).length : Int) = max 0 (-(s'.sem a).value) := by
  intro s' a ha
  have hinv : s'.sched.Tidy ∧ s'.Counts :=
    System.run_invariant (M := balancedSystem) (I := fun s => s.sched.Tidy ∧ s.Counts)
      (fun _ _ h hen => h.2.step h.1 hen.1 hen.2) ⟨hs.tidy, hs.counts⟩ hops
  have hcount := hinv.2.count a ha
  omega

/-- Two threads of one process; the first one runs. -/
def pairState : SemState where
  kheap := ⟨fun n => 8 * (n + 1), 0, []⟩
  locks := fun _ => false
  head := []
  sem := fun _ => ⟨0, 0, 0⟩
  nextId := 0
  sched := {
    order := [1, 2]
    thread := fun _ => ⟨0, .ready, false, 0, 0⟩
    run := some 1
    waiters := fun _ => [] }

theorem pairState_start : pairState.Start :=
  ⟨by decide, by decide, fun _ => rfl, List.nodup_nil, rfl⟩

/-- The first thread waits, the second one takes over, and preemption and a signal follow. -/
def handoverOps : List SemOp :=
  [.create 0, .wait 0, .timer, .threadCreate 3 0 .pending, .signal 0, .timer, .wait 0]

theorem semaphore_accounting_handover :
    let s := balancedSystem.run pairState handoverOps
    s.sched.waiters 8 = [1] ∧ ((s.sched.waiters 8).length : Int) = max 0 (-(s.sem 8).value) := by
  refine ⟨by decide, ?_⟩
  have hops : balancedSystem.Legal pairState handoverOps := by decide
  exact semaphore_accounting pairState_start hops 8 (by decide)

/-- A waiting thread is deleted; a thread waits twice since nobody else can run; a waiting thread is
made ready by `thread_unblock`, or by `proc_unblock`, and waits again: every time the value says
that one thread more waits than there is in the queue. -/
theorem semaphore_accounting_lost :
    (∀ ops ∈ ([[.create 0, .wait 0, .threadDelete 1],
          [.threadBlock 2, .create 0, .wait 0, .wait 0],
          [.create 0, .wait 0, .threadUnblock 1, .timer, .wait 0],
          [.create 0, .wait 0, .procUnblock 0, .timer, .wait 0]] : List (List SemOp)),
        semSystem.Legal pairState ops ∧ 8 ∈ (semSystem.run pairState ops).head ∧
          -((semSystem.run pairState ops).sem 8).value =
            ((semSystem.run pairState ops).sched.waiters 8).length + 1) ∧
      pairState.Start :=
  ⟨by decide, pairState_start⟩

end Ukernel.Sync
