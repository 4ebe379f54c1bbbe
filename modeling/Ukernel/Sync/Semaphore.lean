import Ukernel.Kernel.Errno
import Ukernel.Lib.Pool
import Ukernel.Lib.Slots
import Ukernel.Mm.Resources
import Ukernel.Sync.Sched

/-!
# Semaphores

`kernel/sync/semaphore.c`. A semaphore is named by the address of its block, and so is its wait
queue; callers name it by its `id`, which is looked up in a list with the newest semaphore in front.

## Identifiers run out

The counter behind `id` has 32 bits, and nothing keeps it from handing out an identifier that a live
semaphore still has. A lookup then finds the newer one. `SemState.Ok` therefore asks for distinct
identifiers, and the lemma about creation asks for an identifier that is not in use.

## Main definitions

* `Semaphore`, `SemState`: the semaphores, with the threads that wait at them
* `SemState.create`, `SemState.destroy`, `SemState.wait`, `SemState.signal`: the operations
* `Sched.Parked`: threads that wait do not run
* `SemState.Ok`: a semaphore below 0 counts the threads that wait at it
* `SemState.Steady`: the part of it that does not depend on who runs
* `SemState.Counts`: the part that does not depend on identifiers either

## Main results

* `SemState.Steady.wait`, `SemState.Steady.signal`: the effect of the operations on all semaphores
* `SemState.create_cases`, `SemState.destroy_cases`: semaphores come and go
-/

namespace Ukernel.Sync

open Kernel Lib Mm

/-- `semaphore`, without the links of the list and of its waiters. -/
structure Semaphore where
  id : Nat
  value : Int
  spLock : Nat

/-- The semaphores, the newest one in front, with the heap, the locks and the threads; `nextId` is
the counter of `semaphore_create`. -/
structure SemState where
  kheap : Pool
  locks : Nat → Bool
  head : List Nat
  sem : Nat → Semaphore
  nextId : Nat
  sched : Sched

namespace SemState

/-- Replace the threads. -/
def withSched (s : SemState) (sched : Sched) : SemState := { s with sched }

/-- Change the value of a semaphore. -/
def setValue (s : SemState) (a : Nat) (value : Int) : SemState :=
  { s with sem := Function.update s.sem a ⟨(s.sem a).id, value, (s.sem a).spLock⟩ }

/-- A semaphore enters the list. -/
def link (s : SemState) (a lock : Nat) (value : Int) : SemState where
  kheap := s.kheap
  locks := Function.update s.locks lock true
  head := a :: s.head
  sem := Function.update s.sem a ⟨s.nextId, value, lock⟩
  nextId := (s.nextId + 1) % 2 ^ 32
  sched := s.sched.setWaiters a []

/-- `semaphore_create`: the address of a semaphore, or 0. -/
def create (s : SemState) (initValue : Int) : Nat × SemState :=
  let (a, kheap) := s.kheap.alloc
  let s := { s with kheap }
  if a = 0 then (0, s)
  else
    match firstFree s.locks Resources.spinLockMaxCount 0 with
    | none => (0, { s with kheap := s.kheap.free a })
    | some lock => (a, s.link a lock initValue)

/-- `semaphore_destroy`. -/
def destroy (s : SemState) (a : Nat) : Int × SemState :=
  if a = 0 then (eInval, s)
  else if s.sched.waiters a ≠ [] then (eBusy, s)
  else
    (0, { s with
      head := s.head.erase a
      locks := Function.update s.locks (s.sem a).spLock false
      kheap := s.kheap.free a })

/-- `semaphore_get`. -/
def get (s : SemState) (id : Nat) : Option Nat := s.head.find? fun a => (s.sem a).id == id

/-- `semaphore_wait`. -/
def wait (s : SemState) (id : Nat) : Int × SemState :=
  match s.get id with
  | none => (eInval, s)
  | some a =>
    let value := (s.sem a).value - 1
    let s := s.setValue a value
    (0, if value < 0 then s.withSched (s.sched.waitQueueSleepLocked a) else s)

/-- `semaphore_signal`. -/
def signal (s : SemState) (id : Nat) : Int × SemState :=
  match s.get id with
  | none => (eInval, s)
  | some a =>
    let value := (s.sem a).value + 1
    let s := s.setValue a value
    (0, if value ≤ 0 then s.withSched (s.sched.waitQueueWakeOne a) else s)

/-- `semaphore_has_waiters`. -/
def hasWaiters (s : SemState) (a : Nat) : Bool := decide (a ≠ 0 ∧ s.sched.waiters a ≠ [])

end SemState

/-! ## Threads that wait do not run -/

namespace Sched

/-- Another thread could run. -/
def Relieved (s : Sched) : Prop :=
  ∀ current, s.run = some current →
    ∃ t ∈ s.candidates current, t ≠ current ∧ (s.thread t).state = .ready

/-- The running thread is in no wait queue. -/
def Unqueued (s : Sched) : Prop := ∀ t ∈ s.run, (s.thread t).waitingOn = 0

instance (s : Sched) : Decidable s.Unqueued :=
  inferInstanceAs (Decidable (∀ t ∈ s.run, (s.thread t).waitingOn = 0))

/-- The threads in wait queues are not ready. -/
structure Rests (s : Sched) : Prop where
  waits : s.Waits
  asleep : ∀ t ∈ s.order, (s.thread t).waitingOn ≠ 0 → (s.thread t).state = .pending

/-- The running thread is ready and has no wakeup left over. -/
def Awake (s : Sched) : Prop :=
  ∀ t, s.run = some t → t ∈ s.order ∧ (s.thread t).waitingOn = 0 ∧ (s.thread t).state = .ready ∧
    (s.thread t).wakePending = false

/-- Threads that wait do not run. -/
structure Parked (s : Sched) : Prop extends s.Rests where
  awake : s.Awake

variable {s : Sched} {t wq : Nat}

theorem setWaiters_nil (h : s.waiters wq = []) : s.setWaiters wq [] = s := by
  unfold setWaiters
  rw [← h, Function.update_eq_self]

theorem Parked.unqueued (h : s.Parked) : s.Unqueued := fun t ht => (h.awake t ht).2.1

/-- The running thread is in no wait queue. -/
theorem Parked.not_mem_waiters (h : s.Parked) (hrun : s.run = some t) (wq : Nat) :
    t ∉ s.waiters wq := h.waits.not_mem (h.unqueued t hrun) wq

theorem mem_candidates {current : Nat} (h : t ∈ s.candidates current) : t ∈ s.order := by
  rcases List.mem_append.mp h with h | h
  · exact (List.dropWhile_sublist _).subset (List.mem_of_mem_tail h)
  · exact (List.takeWhile_sublist _).subset h

/-- A thread is chosen to run, and its wakeup is consumed. -/
def switchTo (s : Sched) (next : Nat) : Sched :=
  { s.modify next fun th => { th with wakePending := false } with run := some next }

theorem switchTo_thread (s : Sched) (next x : Nat) : (s.switchTo next).thread x =
    if x = next then { s.thread next with wakePending := false } else s.thread x :=
  modify_thread next x fun th => { th with wakePending := false }

theorem sameWaits_switchTo (s : Sched) (next : Nat) : s.SameWaits (s.switchTo next) := by
  have h : s.SameWaits (s.modify next fun th => { th with wakePending := false }) :=
    sameWaits_modify (fun _ => rfl) (fun _ => rfl) fun _ => rfl
  exact ⟨h.order, h.waiters, h.pid, h.mailbox, h.waitingOn⟩

/-- The scheduler goes on with the running thread, or with a ready one whose wakeup is consumed. -/
theorem scheduleIfNeeded_cases (s : Sched) (current : Nat) (hrun : s.run = some current) :
    (∀ t ∈ s.candidates current, (s.thread t).state ≠ .ready) ∧ s.scheduleIfNeeded = s ∨
      ∃ next ∈ s.order, (s.thread next).state = .ready ∧
        s.scheduleIfNeeded = s.switchTo next := by
  unfold scheduleIfNeeded
  rw [hrun]
  dsimp only
  unfold findNextRunnable
  cases hfind : (s.candidates current).find? fun t => (s.thread t).state == .ready with
  | none => grind
  | some next =>
    have hready := List.find?_some hfind
    exact Or.inr ⟨next, mem_candidates (List.mem_of_find?_eq_some hfind), by simpa using hready,
      rfl⟩

section

variable (h : ∀ t, s.run = some t → t ∈ s.order)

include h

/-- Whoever the scheduler chooses is one of the threads. -/
theorem schedule_run (ht : s.scheduleIfNeeded.run = some t) : t ∈ s.order := by
  cases hrun : s.run with
  | none =>
    unfold scheduleIfNeeded at ht
    rw [hrun] at ht
    exact h t ht
  | some current =>
    rcases s.scheduleIfNeeded_cases current hrun with ⟨-, heq⟩ | ⟨next, hmem, -, heq⟩
    · rw [heq] at ht
      exact h t ht
    · rw [heq] at ht
      cases ht
      exact hmem

theorem threadBlock_run {u : Nat} (ht : (s.threadBlock u).run = some t) : t ∈ s.order := by
  unfold threadBlock at ht
  dsimp only at ht
  split_ifs at ht
  · exact h t ht
  · exact h t ht
  · exact schedule_run (s := s.modify u _) h ht
  · exact h t ht

theorem sleepLocked_run (ht : (s.waitQueueSleepLocked wq).run = some t) : t ∈ s.order := by
  unfold waitQueueSleepLocked at ht
  cases hrun : s.run with
  | none => grind
  | some curr =>
    rw [hrun] at ht
    dsimp only at ht
    split_ifs at ht
    · exact h t ht
    · exact threadBlock_run (s := s.enlist curr wq) h ht

end

/-- Whoever is chosen to run is awake. -/
theorem Rests.choose (h : s.Rests) {next : Nat} (hmem : next ∈ s.order)
    (hready : (s.thread next).state = .ready) : (s.switchTo next).Parked := by
  have hfree : (s.thread next).waitingOn = 0 := by grind [h.asleep]
  have hsame := s.sameWaits_switchTo next
  refine ⟨⟨h.waits.congr hsame, fun t ht hne => ?_⟩, fun t ht => ?_⟩
  · rw [hsame.waitingOn] at hne
    rw [switchTo_thread]
    split_ifs with heq
    · exact h.asleep next hmem (heq ▸ hne)
    · exact h.asleep t ht hne
  · have heq : next = t := Option.some.inj ht
    subst heq
    rw [switchTo_thread, if_pos rfl]
    exact ⟨hmem, hfree, hready, rfl⟩

/-- The timer. -/
theorem Parked.schedule (h : s.Parked) : s.scheduleIfNeeded.Parked := by
  cases hrun : s.run with
  | none =>
    unfold scheduleIfNeeded
    rw [hrun]
    exact h
  | some current => grind [s.scheduleIfNeeded_cases, h.toRests.choose]

/-- The running thread falls asleep while another one could run. -/
theorem Parked.sleep (h : s.Parked) (hrun : s.run = some t) (hrel : s.Relieved) (hwq : wq ≠ 0) :
    (s.waitQueueSleepLocked wq).Parked := by
  obtain ⟨hmem, hfree, -, hwake⟩ := h.awake t hrun
  obtain ⟨t', hcand, hne, hready⟩ := hrel t hrun
  -- the thread is linked and pending …
  set s₁ := (s.enlist t wq).modify t fun th => { th with state := .pending } with hs₁
  have hsame : (s.enlist t wq).SameWaits s₁ :=
    sameWaits_modify (fun _ => rfl) (fun _ => rfl) fun _ => rfl
  have hstate (x : Nat) : (s₁.thread x).state =
      if x = t then .pending else (s.thread x).state := by
    rw [hs₁, modify_thread]
    split_ifs with hx
    · rfl
    · rw [enlist, setWaiters_thread, modify_thread, if_neg hx]
  have hrests : s₁.Rests := by
    refine ⟨(h.waits.enlist hfree hwq).congr hsame, fun x hx hon => ?_⟩
    rw [hstate]
    rw [hsame.waitingOn, enlist_waitingOn] at hon
    split_ifs with hxt
    · rfl
    · rw [if_neg hxt] at hon
      exact h.asleep x hx hon
  have hblock : s.waitQueueSleepLocked wq = s₁.scheduleIfNeeded := by
    unfold waitQueueSleepLocked
    rw [hrun]
    dsimp only
    rw [if_neg (not_or.mpr ⟨not_not.mpr hmem, not_not.mpr hfree⟩)]
    unfold threadBlock
    have hrun' : (s.enlist t wq).run = some t := hrun
    have hmem' : t ∈ (s.enlist t wq).order := hmem
    have hwake' : ((s.enlist t wq).thread t).wakePending = false := by
      rw [enlist, setWaiters_thread, modify_thread, if_pos rfl]
      exact hwake
    rw [if_neg (by simp [hrun', hmem']), if_neg (by simp [hwake'])]
    exact if_pos hrun
  -- … and another one is chosen
  have hcand' : t' ∈ s₁.candidates t := hcand
  rw [hblock]
  rcases s₁.scheduleIfNeeded_cases t hrun with ⟨hno, -⟩ | ⟨next, hnext, hnready, heq⟩
  · grind
  · rw [heq]
    exact hrests.choose hnext hnready

/-- A thread that is woken leaves its queue, so that those in queues still do not run. -/
theorem Parked.wake (h : s.Parked) (wq : Nat) : (s.waitQueueWakeOne wq).Parked := by
  rcases h.waits.wakeOne wq with ⟨-, heq⟩ | ⟨t, ts, hw, heq⟩
  · rw [heq]
    exact h
  have hmem : t ∈ s.waiters wq := hw ▸ List.mem_cons_self
  have hsame := (s.delist t wq).sameWaits_threadUnblock t
  have hnotrun : s.run ≠ some t := fun hrun => h.not_mem_waiters hrun wq hmem
  rw [heq]
  have hothers (x : Nat) (hx : x ≠ t) :
      (((s.delist t wq).threadUnblock t).thread x) = s.thread x := by
    have hdelist : (s.delist t wq).thread x = s.thread x := by
      rw [delist, setWaiters_thread, modify_thread, if_neg hx]
    unfold threadUnblock
    split_ifs
    · exact hdelist
    · rw [modify_thread, if_neg hx]
      exact hdelist
  refine ⟨⟨(h.waits.delist hmem).congr hsame, fun x hx hon => ?_⟩, fun x hx => ?_⟩
  · by_cases hxt : x = t
    · rw [hsame.waitingOn, delist_waitingOn, if_pos hxt] at hon
      exact absurd rfl hon
    · rw [hothers x hxt] at hon ⊢
      rw [hsame.order] at hx
      exact h.asleep x hx hon
  · rw [threadUnblock_run] at hx
    have hxt : x ≠ t := fun heq => hnotrun (heq ▸ hx)
    rw [hothers x hxt, hsame.order]
    exact h.awake x hx

end Sched

/-! ## Semaphores count -/

namespace SemState

/-- Identifiers are distinct, and a value below 0 counts the threads that wait. -/
structure Ok (s : SemState) : Prop where
  parked : s.sched.Parked
  head : s.head.Nodup
  ids : ∀ a ∈ s.head, ∀ b ∈ s.head, (s.sem a).id = (s.sem b).id → a = b
  live : ∀ a ∈ s.head, a ≠ 0 ∧ a ∈ s.kheap.live
  heap : s.kheap.live.Nodup
  count : ∀ a ∈ s.head, (s.sched.waiters a).length = (-(s.sem a).value).toNat
  idle : ∀ a ∉ s.kheap.live, s.sched.waiters a = []

/-- The part of `Ok` that is about the list and the counts. -/
structure Counts (s : SemState) : Prop where
  head : s.head.Nodup
  live : ∀ a ∈ s.head, a ≠ 0 ∧ a ∈ s.kheap.live
  heap : s.kheap.live.Nodup
  count : ∀ a ∈ s.head, (s.sched.waiters a).length = (-(s.sem a).value).toNat
  idle : ∀ a ∉ s.kheap.live, s.sched.waiters a = []

/-- With distinct identifiers, links that agree with the queues, and a running thread that is one of
the threads. -/
structure Steady (s : SemState) : Prop extends s.Counts where
  waits : s.sched.Waits
  run : ∀ t, s.sched.run = some t → t ∈ s.sched.order
  ids : ∀ a ∈ s.head, ∀ b ∈ s.head, (s.sem a).id = (s.sem b).id → a = b

/-- A semaphore has a new value and new waiters, and all others are as before. -/
structure Shifted (s : SemState) (a : Nat) (value : Int) (waiters : List Nat) (s' : SemState) :
    Prop where
  kheap : s'.kheap = s.kheap
  locks : s'.locks = s.locks
  head : s'.head = s.head
  nextId : s'.nextId = s.nextId
  sem_self : s'.sem a = ⟨(s.sem a).id, value, (s.sem a).spLock⟩
  sem_of_ne : ∀ b ≠ a, s'.sem b = s.sem b
  waiters_self : s'.sched.waiters a = waiters
  waiters_of_ne : ∀ b ≠ a, s'.sched.waiters b = s.sched.waiters b
  threads : s.sched.SameThreads s'.sched

variable {s s' : SemState} {a t : Nat} {value : Int} {waiters : List Nat}

theorem Ok.steady (h : s.Ok) : s.Steady :=
  ⟨⟨h.head, h.live, h.heap, h.count, h.idle⟩, h.parked.waits,
    fun t ht => (h.parked.awake t ht).1, h.ids⟩

/-- Only who runs, and who could, changes. -/
theorem Counts.withSched (h : s.Counts) {sched : Sched}
    (hwaiters : sched.waiters = s.sched.waiters) : (s.withSched sched).Counts where
  head := h.head
  live := h.live
  heap := h.heap
  count a ha := by
    change (sched.waiters a).length = _
    rw [hwaiters]
    exact h.count a ha
  idle a ha := by
    change sched.waiters a = []
    rw [hwaiters]
    exact h.idle a ha

/-- A new value, with new waiters at that semaphore only. -/
theorem shifted_setValue {sched : Sched} (a : Nat) (value : Int)
    (hwaiters : ∀ b ≠ a, sched.waiters b = s.sched.waiters b)
    (hthreads : s.sched.SameThreads sched) :
    Shifted s a value (sched.waiters a) ((s.setValue a value).withSched sched) :=
  ⟨rfl, rfl, rfl, rfl, Function.update_self _ _ _, fun _ hb => Function.update_of_ne hb _ _, rfl,
    hwaiters, hthreads⟩

theorem Shifted.id (h : Shifted s a value waiters s') (b : Nat) :
    (s'.sem b).id = (s.sem b).id := by
  by_cases hb : b = a
  · rw [hb, h.sem_self]
  · rw [h.sem_of_ne b hb]

theorem Shifted.counts (h : Shifted s a value waiters s') (hs : s.Counts) (ha : a ∈ s.head)
    (hcount : waiters.length = (-value).toNat) : s'.Counts where
  head := h.head.symm ▸ hs.head
  live := by
    rw [h.head, h.kheap]
    exact hs.live
  heap := h.kheap.symm ▸ hs.heap
  count := by
    rw [h.head]
    intro b hb
    by_cases hba : b = a
    · rw [hba, h.waiters_self, h.sem_self]
      exact hcount
    · rw [h.waiters_of_ne b hba, h.sem_of_ne b hba]
      exact hs.count b hb
  idle b hb := by
    rw [h.kheap] at hb
    rw [h.waiters_of_ne b fun heq => hb (heq ▸ (hs.live a ha).2)]
    exact hs.idle b hb

theorem Shifted.steady (h : Shifted s a value waiters s') (hs : s.Steady) (hcounts : s'.Counts)
    (hwaits : s'.sched.Waits) (hrun : ∀ t, s'.sched.run = some t → t ∈ s.sched.order) :
    s'.Steady := by
  refine ⟨hcounts, hwaits, h.threads.order.symm ▸ hrun, ?_⟩
  simp only [h.head, h.id]
  exact hs.ids

/-- The heap changes, and keeps what the semaphores need. -/
theorem Steady.withHeap (h : s.Steady) {kheap : Pool} (hnodup : kheap.live.Nodup)
    (hlive : ∀ b ∈ s.head, b ∈ kheap.live)
    (hidle : ∀ b ∉ kheap.live, s.sched.waiters b = []) : Steady { s with kheap } :=
  ⟨⟨h.head, fun b hb => ⟨(h.live b hb).1, hlive b hb⟩, hnodup, h.count, hidle⟩, h.waits, h.run,
    h.ids⟩

/-- A block is allocated. -/
theorem Steady.kmalloc (h : s.Steady) {kheap : Pool} {b : Nat} (hb : b ∉ s.kheap.live)
    (hlive : kheap.live = b :: s.kheap.live) : Steady { s with kheap } := by
  refine h.withHeap (hlive ▸ List.nodup_cons.mpr ⟨hb, h.heap⟩) (fun c hc => ?_) fun c hc => ?_
  · rw [hlive]
    exact List.mem_cons_of_mem _ (h.live c hc).2
  · grind [h.idle]

/-- A block is freed that is no semaphore and no other wait queue in use. -/
theorem Steady.kfree (h : s.Steady) {b : Nat} (hb : b ∉ s.head) (hw : s.sched.waiters b = []) :
    Steady { s with kheap := s.kheap.free b } := by
  refine h.withHeap (h.heap.erase b) (fun c hc => ?_) fun c hc => ?_
  · exact h.heap.mem_erase_iff.mpr ⟨fun heq => hb (heq ▸ hc), (h.live c hc).2⟩
  · by_cases hcb : c = b
    · rw [hcb]
      exact hw
    · exact h.idle c fun hin => hc (h.heap.mem_erase_iff.mpr ⟨hcb, hin⟩)

/-- Only who runs, and who could, changes. -/
theorem Steady.withSched (h : s.Steady) {sched : Sched} (hs : s.sched.SameWaits sched)
    (hrun : ∀ t, sched.run = some t → t ∈ s.sched.order) : (s.withSched sched).Steady :=
  ⟨h.toCounts.withSched hs.waiters, h.waits.congr hs, fun t ht => hs.order.symm ▸ hrun t ht, h.ids⟩

/-- The lookup finds the semaphore with an identifier. -/
theorem Steady.get (h : s.Steady) (ha : a ∈ s.head) : s.get (s.sem a).id = some a := by
  unfold SemState.get
  cases hfind : s.head.find? fun b => (s.sem b).id == (s.sem a).id with
  | none =>
    have hno := List.find?_eq_none.mp hfind a ha
    simp at hno
  | some b => grind [h.ids]

theorem get_mem {id : Nat} (h : s.get id = some a) : a ∈ s.head := List.mem_of_find?_eq_some h

/-- `semaphore_wait` takes one, and the caller sleeps if there was none. -/
theorem wait_eq {id : Nat} (hget : s.get id = some a) :
    (s.wait id).2 = (s.setValue a ((s.sem a).value - 1)).withSched
      (if (s.sem a).value ≤ 0 then s.sched.waitQueueSleepLocked a else s.sched) := by
  unfold SemState.wait
  rw [hget]
  dsimp only
  by_cases hv : (s.sem a).value ≤ 0
  · rw [if_pos hv, if_pos (by omega)]
    rfl
  · rw [if_neg hv, if_neg (by omega)]
    rfl

/-- `semaphore_signal` adds one, and wakes if there was less than none. -/
theorem signal_eq {id : Nat} (hget : s.get id = some a) :
    (s.signal id).2 = (s.setValue a ((s.sem a).value + 1)).withSched
      (if (s.sem a).value + 1 ≤ 0 then s.sched.waitQueueWakeOne a else s.sched) := by
  unfold SemState.signal
  rw [hget]
  dsimp only
  split_ifs <;> rfl

theorem wait_kheap (s : SemState) (id : Nat) : (s.wait id).2.kheap = s.kheap := by
  unfold SemState.wait
  split
  · rfl
  · dsimp only
    split_ifs <;> rfl

theorem signal_kheap (s : SemState) (id : Nat) : (s.signal id).2.kheap = s.kheap := by
  unfold SemState.signal
  split
  · rfl
  · dsimp only
    split_ifs <;> rfl

/-- `semaphore_wait` by a thread that is in no queue, if it is to sleep. -/
theorem Counts.wait_shifted (h : s.Counts) {id : Nat} (hget : s.get id = some a)
    (hrun : s.sched.run = some t) (hmem : t ∈ s.sched.order)
    (hfree : (s.sem a).value ≤ 0 → (s.sched.thread t).waitingOn = 0) :
    Shifted s a ((s.sem a).value - 1)
        (if (s.sem a).value ≤ 0 then t :: s.sched.waiters a else s.sched.waiters a) (s.wait id).2 ∧
      (s.wait id).2.Counts := by
  have ha := get_mem hget
  have hcount := h.count a ha
  rw [wait_eq hget]
  by_cases hv : (s.sem a).value ≤ 0
  · rw [if_pos hv, if_pos hv]
    have hlinked := Sched.sleepLocked_waiters hrun hmem (hfree hv) a
    have hshift := shifted_setValue a ((s.sem a).value - 1)
      (fun b hb => (hlinked b).trans (if_neg hb)) (s.sched.sameThreads_sleepLocked a)
    rw [hlinked a, if_pos rfl] at hshift
    refine ⟨hshift, hshift.counts h ha ?_⟩
    rw [List.length_cons]
    omega
  · rw [if_neg hv, if_neg hv]
    have hshift := shifted_setValue (s := s) a ((s.sem a).value - 1) (fun _ _ => rfl)
      (Sched.SameThreads.refl s.sched)
    exact ⟨hshift, hshift.counts h ha (by omega)⟩

/-- `semaphore_signal`: the new value is at most 0 exactly if there is somebody to wake. -/
theorem Counts.signal_shifted (h : s.Counts) (hwaits : s.sched.Waits) {id : Nat}
    (hget : s.get id = some a) :
    Shifted s a ((s.sem a).value + 1) (s.sched.waiters a).tail (s.signal id).2 ∧
      (s.signal id).2.Counts := by
  have ha := get_mem hget
  have hcount := h.count a ha
  have hlen : (s.sched.waiters a).tail.length = (-((s.sem a).value + 1)).toNat := by
    rw [List.length_tail]
    omega
  rw [signal_eq hget]
  by_cases hv : (s.sem a).value + 1 ≤ 0
  · rw [if_pos hv]
    have hleft := hwaits.wake_waiters a
    have hshift := shifted_setValue a ((s.sem a).value + 1)
      (fun b hb => (hleft b).trans (if_neg hb)) (s.sched.sameThreads_wakeOne a)
    rw [hleft a, if_pos rfl] at hshift
    exact ⟨hshift, hshift.counts h ha hlen⟩
  · rw [if_neg hv]
    have hnil : s.sched.waiters a = [] := List.length_eq_zero_iff.mp (by omega)
    have hshift := shifted_setValue (s := s) a ((s.sem a).value + 1) (fun _ _ => rfl)
      (Sched.SameThreads.refl s.sched)
    have htail : (s.sched.waiters a).tail = s.sched.waiters a := by
      rw [hnil]
      rfl
    rw [htail] at hlen ⊢
    exact ⟨hshift, hshift.counts h ha hlen⟩

theorem Steady.wait (h : s.Steady) (ha : a ∈ s.head) (hrun : s.sched.run = some t)
    (hfree : (s.sem a).value ≤ 0 → (s.sched.thread t).waitingOn = 0) :
    (s.wait (s.sem a).id).2.Steady ∧ Shifted s a ((s.sem a).value - 1)
      (if (s.sem a).value ≤ 0 then t :: s.sched.waiters a else s.sched.waiters a)
      (s.wait (s.sem a).id).2 := by
  obtain ⟨hshift, hcounts⟩ := h.wait_shifted (h.get ha) hrun (h.run t hrun) hfree
  refine ⟨hshift.steady h hcounts ?_ ?_, hshift⟩
  · rw [wait_eq (h.get ha)]
    split_ifs
    · exact h.waits.sleepLocked (h.live a ha).1
    · exact h.waits
  · rw [wait_eq (h.get ha)]
    split_ifs
    · exact fun u hu => Sched.sleepLocked_run h.run hu
    · exact h.run

theorem Steady.signal (h : s.Steady) (ha : a ∈ s.head) :
    (s.signal (s.sem a).id).2.Steady ∧
      Shifted s a ((s.sem a).value + 1) (s.sched.waiters a).tail (s.signal (s.sem a).id).2 := by
  obtain ⟨hshift, hcounts⟩ := h.signal_shifted h.waits (h.get ha)
  refine ⟨hshift.steady h hcounts ?_ ?_, hshift⟩
  · rw [signal_eq (h.get ha)]
    split_ifs
    · exact h.waits.wake a
    · exact h.waits
  · rw [signal_eq (h.get ha)]
    change ∀ u, (ite _ _ _ : Sched).run = some u → _
    split_ifs
    · rw [Sched.wakeOne_run]
      exact h.run
    · exact h.run

/-- Threads that wait still do not run if somebody else could whenever the caller is to sleep. -/
theorem wait_parked (h : s.sched.Parked) (hrun : s.sched.run = some t) {id : Nat}
    (hrel : ∀ a, s.get id = some a → (s.sem a).value ≤ 0 → a ≠ 0 ∧ s.sched.Relieved) :
    (s.wait id).2.sched.Parked := by
  cases hget : s.get id with
  | none =>
    unfold SemState.wait
    rw [hget]
    exact h
  | some a =>
    rw [wait_eq hget]
    change (ite _ _ _ : Sched).Parked
    split_ifs with hv
    · grind [h.sleep]
    · exact h

theorem signal_parked (h : s.sched.Parked) (id : Nat) : (s.signal id).2.sched.Parked := by
  cases hget : s.get id with
  | none =>
    unfold SemState.signal
    rw [hget]
    exact h
  | some a =>
    rw [signal_eq hget]
    split_ifs
    · exact h.wake a
    · exact h

/-! ## Semaphores come and go -/

/-- There is a new semaphore. -/
structure Created (s : SemState) (a : Nat) (value : Int) (s' : SemState) : Prop where
  fresh : a ≠ 0 ∧ a ∉ s.kheap.live
  kheap : s'.kheap.live = a :: s.kheap.live
  head : s'.head = a :: s.head
  sem_self : (s'.sem a).id = s.nextId ∧ (s'.sem a).value = value
  sem_of_ne : ∀ b ≠ a, s'.sem b = s.sem b
  nextId : s'.nextId = (s.nextId + 1) % 2 ^ 32
  sched : s'.sched = s.sched.setWaiters a []

/-- There is no memory for a semaphore, or no lock. -/
structure Unmade (s s' : SemState) : Prop where
  kheap : s'.kheap.live = s.kheap.live
  head : s'.head = s.head
  sem : s'.sem = s.sem
  nextId : s'.nextId = s.nextId
  sched : s'.sched = s.sched

theorem create_cases (s : SemState) (value : Int) :
    (s.create value).1 = 0 ∧ Unmade s (s.create value).2 ∨
      Created s (s.create value).1 value (s.create value).2 := by
  unfold create
  dsimp only
  rcases s.kheap.alloc_cases with ⟨hz, hlive⟩ | ⟨hz, hnew, hlive⟩
  · rw [if_pos hz]
    exact Or.inl ⟨rfl, hlive, rfl, rfl, rfl, rfl⟩
  rw [if_neg hz]
  cases hfree : firstFree s.locks Resources.spinLockMaxCount 0 with
  | none =>
    refine Or.inl ⟨rfl, ?_, rfl, rfl, rfl, rfl⟩
    simp [Pool.free, hlive]
  | some lock =>
    refine Or.inr ⟨⟨hz, hnew⟩, hlive, rfl, ?_, fun b hb => Function.update_of_ne hb _ _, rfl, rfl⟩
    simp [link]

theorem Unmade.counts (h : Unmade s s') (hs : s.Counts) : s'.Counts where
  head := h.head.symm ▸ hs.head
  live := by
    rw [h.head, h.kheap]
    exact hs.live
  heap := h.kheap.symm ▸ hs.heap
  count := by
    rw [h.head, h.sem, h.sched]
    exact hs.count
  idle := by
    rw [h.kheap, h.sched]
    exact hs.idle

theorem Unmade.steady (h : Unmade s s') (hs : s.Steady) : s'.Steady := by
  refine ⟨h.counts hs.toCounts, h.sched.symm ▸ hs.waits, h.sched.symm ▸ hs.run, ?_⟩
  rw [h.head, h.sem]
  exact hs.ids

section

variable (h : Created s a value s')

include h

/-- Nobody waits at a new semaphore, so that no wait queue changes. -/
theorem Created.sched_eq (hs : s.Counts) : s'.sched = s.sched := by
  rw [h.sched]
  exact Sched.setWaiters_nil (hs.idle a h.fresh.2)

theorem Created.sem_of_mem (hs : s.Counts) {b : Nat} (hb : b ∈ s.head) :
    s'.sem b = s.sem b :=
  h.sem_of_ne b fun heq => h.fresh.2 (heq ▸ (hs.live b hb).2)

theorem Created.counts (hs : s.Counts) (hvalue : 0 ≤ value) :
    s'.Counts := by
  have hsched := h.sched_eq hs
  refine ⟨?_, ?_, ?_, ?_, ?_⟩
  · rw [h.head]
    exact List.nodup_cons.mpr ⟨fun hmem => h.fresh.2 (hs.live a hmem).2, hs.head⟩
  · grind [h.head, h.kheap, h.fresh, hs.live]
  · rw [h.kheap]
    exact List.nodup_cons.mpr ⟨h.fresh.2, hs.heap⟩
  · grind [h.head, hs.idle, h.fresh, h.sem_self, h.sem_of_mem, hs.count]
  · grind [h.kheap, hs.idle]

/-- A semaphore with an identifier that no other one has. -/
theorem Created.steady (hs : s.Steady) (hvalue : 0 ≤ value)
    (hid : ∀ b ∈ s.head, (s.sem b).id ≠ s.nextId) : s'.Steady := by
  have hsched := h.sched_eq hs.toCounts
  have hsem {b : Nat} (hb : b ∈ s.head) := h.sem_of_mem hs.toCounts hb
  refine ⟨h.counts hs.toCounts hvalue, hsched.symm ▸ hs.waits, hsched.symm ▸ hs.run, ?_⟩
  rw [h.head]
  intro b hb c hc heq
  rcases List.mem_cons.mp hb with h₁ | h₁ <;> rcases List.mem_cons.mp hc with h₂ | h₂
  · rw [h₁, h₂]
  · grind [h.sem_self]
  · rw [h₂, h.sem_self.1, hsem h₁] at heq
    exact absurd heq (hid b h₁)
  · rw [hsem h₁, hsem h₂] at heq
    exact hs.ids b h₁ c h₂ heq

end

/-- A semaphore is gone. -/
structure Destroyed (s : SemState) (a : Nat) (s' : SemState) : Prop where
  kheap : s'.kheap.live = s.kheap.live.erase a
  head : s'.head = s.head.erase a
  sem : s'.sem = s.sem
  nextId : s'.nextId = s.nextId
  sched : s'.sched = s.sched

theorem Destroyed.counts (h : Destroyed s a s') (hs : s.Counts) (hw : s.sched.waiters a = []) :
    s'.Counts := by
  have hmem {b : Nat} (hb : b ∈ s'.head) : b ≠ a ∧ b ∈ s.head :=
    hs.head.mem_erase_iff.mp (h.head ▸ hb)
  refine ⟨h.head.symm ▸ hs.head.erase a, fun b hb => ?_, h.kheap.symm ▸ hs.heap.erase a,
    fun b hb => ?_, fun b hb => ?_⟩
  · grind [h.kheap, hs.live]
  · rw [h.sem, h.sched]
    exact hs.count b (hmem hb).2
  · grind [h.sched, hs.idle, h.kheap]

/-- A semaphore goes, unless somebody waits at it. -/
theorem destroy_cases (s : SemState) (ha : a ≠ 0) :
    s.sched.waiters a ≠ [] ∧ s.destroy a = (eBusy, s) ∨
      s.sched.waiters a = [] ∧ Destroyed s a (s.destroy a).2 := by
  unfold destroy
  rw [if_neg ha]
  by_cases hw : s.sched.waiters a = []
  · rw [if_neg (not_not.mpr hw)]
    exact Or.inr ⟨hw, rfl, rfl, rfl, rfl, rfl⟩
  · rw [if_pos hw]
    exact Or.inl ⟨hw, rfl⟩

theorem destroy_sched (s : SemState) (a : Nat) : (s.destroy a).2.sched = s.sched := by
  unfold destroy
  split_ifs <;> rfl

/-- `semaphore_destroy` where nobody waits. -/
theorem Steady.destroy (h : s.Steady) (ha : a ∈ s.head) (hw : s.sched.waiters a = []) :
    (s.destroy a).2.Steady ∧ Destroyed s a (s.destroy a).2 := by
  rcases s.destroy_cases (h.live a ha).1 with ⟨hbusy, -⟩ | ⟨-, hd⟩
  · exact absurd hw hbusy
  · refine ⟨⟨hd.counts h.toCounts hw, hd.sched.symm ▸ h.waits, hd.sched.symm ▸ h.run,
      fun b hb c hc heq => ?_⟩, hd⟩
    rw [hd.head] at hb hc
    rw [hd.sem] at heq
    exact h.ids b (List.mem_of_mem_erase hb) c (List.mem_of_mem_erase hc) heq

end SemState

end Ukernel.Sync
