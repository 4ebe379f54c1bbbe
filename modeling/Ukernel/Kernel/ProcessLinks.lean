import Ukernel.Kernel.ProcessFrame

/-!
# The lists of processes and threads

Every thread is in `thread_head` and in the list of its process, and every process is in
`proc_head`. The running and the other branches of deletion and exit edit these lists one by one;
between two steps they agree.

## Why identifiers are distinct

Identifiers come from counters, and an answer is told from an error by its sign. As long as fewer
than `2 ^ 31` have been given out, no identifier comes twice and no answer looks like an error, so
that a failure is a failure before anything has been linked.

## Main definitions

* `ProcTable.Linked`: the lists agree
* `ProcOp.Counted`: fewer than `2 ^ 31` threads and processes have been created

## Main results

* `ProcTable.Linked.step`: every step keeps it
-/

namespace Ukernel.Kernel

open Arch Lib Mm Sync

namespace ProcTable

variable {L : Layout} {s s' : ProcTable} {p t : Nat} {priv : Priv}

/-- The lists agree, every record has a name that has been given out, and identifiers are
distinct. -/
structure Linked (s : ProcTable) : Prop where
  sched : s.sched.Tidy
  procs : s.procHead.Nodup
  tcbs : ∀ p ∈ s.procHead, (s.pcb p).tcbs.Nodup
  child : ∀ p ∈ s.procHead, ∀ t ∈ (s.pcb p).tcbs, t ∈ s.sched.order ∧ (s.tcb t).parent = p
  parent : ∀ t ∈ s.sched.order,
    (s.tcb t).parent ∈ s.procHead ∧ t ∈ (s.pcb (s.tcb t).parent).tcbs
  thread : ∀ t ∈ s.sched.order, t ≠ 0 ∧ t ≤ s.mm.kheap.calls
  proc : ∀ p ∈ s.procHead, p ≠ 0 ∧ p ≤ s.mm.kheap.calls
  tids : ∀ t ∈ s.sched.order, ∀ u ∈ s.sched.order, (s.tcb t).tid = (s.tcb u).tid → t = u
  tid_lt : ∀ t ∈ s.sched.order, (s.tcb t).tid < s.nextTid
  pids : ∀ p ∈ s.procHead, ∀ q ∈ s.procHead, (s.pcb p).pid = (s.pcb q).pid → p = q
  pid_lt : ∀ p ∈ s.procHead, (s.pcb p).pid < s.nextPid
  pid : ∀ t ∈ s.sched.order, (s.sched.thread t).pid = (s.pcb (s.tcb t).parent).pid
  cr3 : ∀ p ∈ s.procHead, (s.pcb p).vcb.cr3 ≠ 0

namespace Linked

theorem run (h : s.Linked) (hrun : s.sched.run = some t) : t ∈ s.sched.order := h.sched.run t hrun

theorem mem_of_findThread {tid : Nat} (ht : s.findThread tid = some t) : t ∈ s.sched.order :=
  List.mem_of_find?_eq_some ht

/-! ## Changes that the lists do not see -/

/-- The lists are the same, and so is what they link. -/
structure SameLists (s s' : ProcTable) : Prop where
  tidy : s'.sched.Tidy
  order : s'.sched.order = s.sched.order
  procHead : s'.procHead = s.procHead
  tcb : ∀ t ∈ s.sched.order, s'.tcb t = s.tcb t
  pcb : ∀ p ∈ s.procHead, (s'.pcb p).tcbs = (s.pcb p).tcbs ∧ (s'.pcb p).pid = (s.pcb p).pid ∧
    (s'.pcb p).vcb.cr3 = (s.pcb p).vcb.cr3
  thread : ∀ t ∈ s.sched.order, (s'.sched.thread t).pid = (s.sched.thread t).pid
  calls : s.mm.kheap.calls ≤ s'.mm.kheap.calls
  nextTid : s.nextTid ≤ s'.nextTid
  nextPid : s.nextPid ≤ s'.nextPid

variable (h : s.Linked)

include h

theorem sameLists (hs : SameLists s s') : s'.Linked := by
  cases h
  cases hs
  constructor <;> grind

/-- The resources and address spaces change. -/
theorem same (hs : SameTable s s') : s'.Linked := by
  refine h.sameLists ⟨hs.sched ▸ h.sched, by rw [hs.sched], hs.procHead, fun t _ => by rw [hs.tcb],
    fun p hp => ?_, fun t _ => by rw [hs.sched], hs.calls, hs.nextTid.ge, hs.nextPid.ge⟩
  have hsame := hs.pcb p (h.proc p hp).2
  exact ⟨hsame.tcbs, hsame.pid, hsame.cr3⟩

/-- The states of threads and their wait queues change. -/
theorem resched {sched : Sched} (htidy : sched.Tidy) (hsame : s.sched.SameThreads sched) :
    (s.withSched sched).Linked :=
  h.sameLists ⟨htidy, hsame.order, rfl, fun _ _ => rfl, fun _ _ => ⟨rfl, rfl, rfl⟩,
    fun t _ => hsame.pid t, Nat.le_refl _, Nat.le_refl _, Nat.le_refl _⟩

/-- What is loaded, and what is to be loaded, changes. -/
theorem reload (ctxInfo : SwitchInfo) (cr3 currTaskCtx timeslice : Nat) :
    Linked { s with ctxInfo, cr3, currTaskCtx, timeslice } :=
  h.sameLists ⟨h.sched, rfl, rfl, fun _ _ => rfl, fun _ _ => ⟨rfl, rfl, rfl⟩, fun _ _ => rfl,
    Nat.le_refl _, Nat.le_refl _, Nat.le_refl _⟩

theorem archTaskContextSwitch : s.archTaskContextSwitch.Linked := by
  unfold ProcTable.archTaskContextSwitch
  simp only [vmmSwitch_eq]
  split_ifs
  all_goals exact h.reload _ _ _ _

/-! ## Scheduling -/

/-- Another thread runs. -/
theorem runNext (old : Nat) {next : Nat} (hnext : next ∈ s.sched.order) :
    (s.runNext old next (s.sched.modify next fun th => { th with wakePending := false })).Linked :=
  (h.resched (h.sched.switchTo hnext) (s.sched.sameWaits_switchTo next).sameThreads).reload _ _ _ _

theorem threadYield : s.threadYield.Linked := by
  unfold ProcTable.threadYield
  cases hrun : s.sched.run with
  | none => exact h
  | some old => grind [s.sched.findNextRunnable_cases, h.runNext, Sched.mem_candidates]

theorem scheduleIsr (locked : Bool) : (s.scheduleIsr locked).Linked := by
  unfold ProcTable.scheduleIsr
  dsimp only
  have hslice (timeslice : Nat) : Linked { s with timeslice } :=
    h.reload s.ctxInfo s.cr3 s.currTaskCtx timeslice
  split_ifs
  · exact hslice _
  · exact hslice _
  · exact (hslice 0).threadYield

/-- A change to the state of a thread. -/
theorem modify (t : Nat) (f : Thread → Thread) (hpid : ∀ th, (f th).pid = th.pid)
    (hbox : ∀ th, (f th).mailbox = th.mailbox) (hwait : ∀ th, (f th).waitingOn = th.waitingOn) :
    (s.withSched (s.sched.modify t f)).Linked :=
  h.resched (h.sched.modify t f hwait) (Sched.sameWaits_modify hpid hbox hwait).sameThreads

theorem blockThread (t : Nat) : (s.blockThread t).Linked := by
  unfold ProcTable.blockThread
  dsimp only
  have hpending : (s.withSched (s.sched.modify t fun th => { th with state := .pending })).Linked :=
    h.modify t _ (fun _ => rfl) (fun _ => rfl) fun _ => rfl
  split_ifs
  · exact h.modify t _ (fun _ => rfl) (fun _ => rfl) fun _ => rfl
  · exact hpending.threadYield
  · exact hpending

theorem threadBlock (tid : Nat) : (s.threadBlock tid).Linked := by
  unfold ProcTable.threadBlock
  split_ifs
  · exact h
  · split
    · exact h
    · exact h.blockThread _

theorem threadUnblock (tid : Nat) : (s.threadUnblock tid).Linked := by
  unfold ProcTable.threadUnblock
  split_ifs
  · exact h
  · split
    · exact h
    · exact h.modify _ _ (fun _ => rfl) (fun _ => rfl) fun _ => rfl

theorem waitQueueSleepLocked {wq : Nat} (hwq : wq ≠ 0) :
    (s.waitQueueSleepLocked wq).Linked := by
  unfold ProcTable.waitQueueSleepLocked
  cases s.sched.run with
  | none => exact h
  | some run =>
    dsimp only
    split
    · exact h
    · rename_i curr hcurr
      split_ifs with hfree
      · exact h
      · have htidy := h.sched.enlist (mem_of_findThread hcurr) (not_not.mp hfree) hwq
        exact (h.resched htidy (s.sched.sameThreads_enlist curr wq)).threadBlock _

theorem waitQueueWakeOne (wq : Nat) : (s.waitQueueWakeOne wq).Linked := by
  unfold ProcTable.waitQueueWakeOne
  split
  · exact h
  · rename_i t ht
    have htidy := h.sched.delist (List.mem_of_find?_eq_some ht)
    exact (h.resched htidy (s.sched.sameThreads_delist t wq)).threadUnblock _

theorem setStates (p : Nat) (blocked : Bool) (state : ThreadState) :
    (s.setStates p blocked state).Linked := by
  have hloop (ts : List Nat) (sched : Sched) (htidy : sched.Tidy) :
      let sched' := ts.foldl (fun sched t => sched.modify t fun th => { th with state }) sched
      sched'.Tidy ∧ sched.SameThreads sched' := by
    induction ts generalizing sched with
    | nil => exact ⟨htidy, Sched.SameThreads.refl sched⟩
    | cons t ts ih =>
      have hstep : sched.SameThreads (sched.modify t fun th => { th with state }) :=
        Sched.sameThreads_modify (fun _ => rfl) fun _ => rfl
      obtain ⟨h₁, h₂⟩ := ih _ (htidy.modify t (fun th => { th with state }) fun _ => rfl)
      exact ⟨h₁, hstep.trans h₂⟩
  have hpcb : (s.setPcb p { s.pcb p with blocked }).Linked := by
    refine h.sameLists ⟨h.sched, rfl, rfl, fun _ _ => rfl, fun q _ => ?_, fun _ _ => rfl,
      Nat.le_refl _, Nat.le_refl _, Nat.le_refl _⟩
    change (Function.update s.pcb p _ q).tcbs = _ ∧ (Function.update s.pcb p _ q).pid = _ ∧
      (Function.update s.pcb p _ q).vcb.cr3 = _
    by_cases hq : q = p
    · rw [hq, Function.update_self]
      exact ⟨rfl, rfl, rfl⟩
    · rw [Function.update_of_ne hq]
      exact ⟨rfl, rfl, rfl⟩
  obtain ⟨htidy, hsame⟩ := hloop ((s.setPcb p { s.pcb p with blocked }).pcb p).tcbs _ h.sched
  exact hpcb.resched htidy hsame

/-! ## Creation -/

/-- A process without threads is listed. -/
theorem procListed (hl : ProcListed s p priv s') (hcount : s.nextPid < 2 ^ 31) :
    s'.Linked := by
  -- the name of the process is new
  have hne {q : Nat} (hq : q ∈ s.procHead) : q ≠ p := by
    have hle := (h.proc q hq).2
    have hlt := hl.fresh
    omega
  cases h
  cases hl
  constructor <;> grind

/-- A thread with a new identifier enters the lists. -/
theorem linkThread {f : TcbFields} (ht : t ≠ 0 ∧ t ≤ s.mm.kheap.calls) (hnew : t ∉ s.sched.order)
    (hp : f.parent ∈ s.procHead) (htid : f.tid = s.nextTid) (hcount : s.nextTid < 2 ^ 31)
    (initial : ThreadState) : (s.linkThread t f initial).Linked := by
  have horder : (s.linkThread t f initial).sched.order = t :: s.sched.order := rfl
  have hprocs : (s.linkThread t f initial).procHead = s.procHead := rfl
  have htcb (u : Nat) : (s.linkThread t f initial).tcb u = if u = t then f else s.tcb u :=
    Function.update_apply _ _ _ _
  have hthread (u : Nat) : (s.linkThread t f initial).sched.thread u =
      if u = t then ⟨(s.pcb f.parent).pid, initial, false, 0, 0⟩ else s.sched.thread u :=
    Function.update_apply _ _ _ _
  have hnext : (s.linkThread t f initial).nextTid = s.nextTid + 1 := Nat.mod_eq_of_lt (by omega)
  have hnot (q : Nat) (hq : q ∈ s.procHead) : t ∉ (s.pcb q).tcbs :=
    fun hmem => hnew (h.child q hq t hmem).1
  have htids := h.tids
  have hlt := h.tid_lt
  constructor
  case sched => exact h.sched.enter hnew _
  case procs => exact h.procs
  case proc => exact h.proc
  case tcbs => grind [linkThread_pcb, h.tcbs]
  case child => grind [linkThread_pcb, h.child]
  case parent => grind [linkThread_pcb, h.parent]
  case thread => exact fun u hu => (List.mem_cons.mp hu).elim (fun heq => heq ▸ ht) (h.thread u)
  case tids => grind
  case tid_lt => grind
  case pids => grind [linkThread_pcb, h.pids]
  case pid_lt => exact fun q hq => (linkThread_pcb s t q f initial) ▸ h.pid_lt q hq
  case pid => grind [linkThread_pcb, h.pid]
  case cr3 => grind [linkThread_pcb, h.cr3]

theorem giveMailbox (t : Nat) : (s.giveMailbox t).Linked := by
  have hmade := s.giveMailbox_made t
  have hpid (mb : Nat) (sched : Sched) (u : Nat) :
      ((sched.modify t fun th => { th with mailbox := mb }).thread u).pid =
        (sched.thread u).pid := by
    rw [Sched.modify_thread]
    split_ifs with heq
    · rw [heq]
    · rfl
  rw [hmade.rest]
  obtain ⟨mb, ⟨-, heq⟩ | ⟨-, heq⟩⟩ := hmade.sched
  all_goals
    rw [heq]
    refine h.sameLists ⟨?_, rfl, rfl, fun _ _ => rfl, fun _ _ => ⟨rfl, rfl, rfl⟩,
      fun u _ => hpid _ _ u, hmade.calls, Nat.le_refl _, Nat.le_refl _⟩
  · exact h.sched.modify t (fun th => { th with mailbox := mb }) fun _ => rfl
  · exact (h.sched.clear mb).modify t (fun th => { th with mailbox := mb }) fun _ => rfl

/-- The first thread runs. -/
theorem startFirst (ht : t ∈ s.sched.order) (p : Nat) :
    (s.startFirst t p).Linked := by
  unfold ProcTable.startFirst
  rw [vmmSwitch_eq]
  have hsame : s.sched.SameThreads (s.sched.startFirst t) := by
    have hstate : s.sched.SameThreads (s.sched.modify t fun th => { th with state := .ready }) :=
      Sched.sameThreads_modify (fun _ => rfl) fun _ => rfl
    exact ⟨hstate.order, hstate.pid, hstate.mailbox⟩
  exact (h.resched (h.sched.startFirst ht) hsame).reload _ _ _ _

/-- A new thread is linked, and somebody runs. -/
theorem enroll {f : TcbFields} (ht : t ≠ 0 ∧ t ≤ s.mm.kheap.calls) (hnew : t ∉ s.sched.order)
    (hp : f.parent ∈ s.procHead) (htid : f.tid = s.nextTid) (hcount : s.nextTid < 2 ^ 31)
    (initial : ThreadState) : (s.enroll t f initial).Linked := by
  have hlink := h.linkThread ht hnew hp htid hcount initial
  unfold ProcTable.enroll
  dsimp only
  split_ifs
  · exact (hlink.startFirst List.mem_cons_self _).giveMailbox t
  · exact hlink.giveMailbox t

/-- `thread_create_ex_internal` for a process that is listed. -/
theorem threadCreateEx (hp : p ∈ s.procHead) (ring : Priv) (initial : ThreadState)
    (hcount : s.nextTid < 2 ^ 31) : (s.threadCreateEx L p ring initial).2.Linked := by
  rcases threadCreateEx_cases L s p ring initial with ⟨-, hsame⟩ |
    ⟨-, s₁, t, stack, lock, hsame, hlt, hle, heq⟩
  · exact h.same hsame
  · rw [heq]
    refine (h.same hsame).enroll ⟨by omega, hle⟩ (fun hmem => ?_) (hsame.procHead.symm ▸ hp)
      hsame.nextTid.symm (hsame.nextTid.symm ▸ hcount) initial
    rw [hsame.sched] at hmem
    exact absurd (h.thread t hmem).2 (by omega)

theorem bumpPid (hcount : s.nextPid < 2 ^ 31) : s.bumpPid.Linked := by
  refine h.sameLists ⟨h.sched, rfl, rfl, fun _ _ => rfl, fun _ _ => ⟨rfl, rfl, rfl⟩,
    fun _ _ => rfl, Nat.le_refl _, Nat.le_refl _, ?_⟩
  change s.nextPid ≤ (s.nextPid + 1) % 2 ^ 32
  omega

/-- `p_create_ex`. -/
theorem pCreateEx (priv : Priv) (initial : ThreadState)
    (hcount : s.nextTid < 2 ^ 31 ∧ s.nextPid < 2 ^ 31) :
    (s.pCreateEx L priv initial).2.Linked := by
  rcases pCreateEx_cases L s priv initial hcount.1 with ⟨-, hsame | hsame⟩ |
    ⟨s₁, p, hlisted, -, heq⟩
  · exact h.same hsame
  · exact (h.bumpPid hcount.2).same hsame
  · rw [heq]
    refine (h.procListed hlisted hcount.2).threadCreateEx ?_ priv initial
      (hlisted.nextTid.symm ▸ hcount.1)
    rw [hlisted.procHead]
    exact List.mem_cons_self

/-! ## Deletion and exit -/

/-- A thread that does not run leaves the lists. -/
theorem unlinkThread (hrun : s.sched.run ≠ some t) :
    (s.unlinkThread t).Linked := by
  have hmem {u : Nat} : u ∈ (s.unlinkThread t).sched.order ↔ u ≠ t ∧ u ∈ s.sched.order :=
    h.sched.nodup.mem_erase_iff
  have hprocs : (s.unlinkThread t).procHead = s.procHead := rfl
  have htcb : (s.unlinkThread t).tcb = s.tcb := rfl
  have htcbs (q : Nat) (hq : q ∈ s.procHead) (u : Nat) :
      u ∈ (s.pcb q).tcbs.erase t ↔ u ≠ t ∧ u ∈ (s.pcb q).tcbs := (h.tcbs q hq).mem_erase_iff
  have hparent := h.parent
  constructor
  case sched => exact h.sched.unlink hrun
  case procs => exact h.procs
  case proc => exact h.proc
  case tcbs => grind [unlinkThread_pcb, h.tcbs, List.Nodup.erase]
  case child => grind [unlinkThread_pcb, h.child]
  case parent => grind [unlinkThread_pcb]
  case thread => exact fun u hu => h.thread u (hmem.mp hu).2
  case tids => exact fun u hu w hw => h.tids u (hmem.mp hu).2 w (hmem.mp hw).2
  case tid_lt => exact fun u hu => h.tid_lt u (hmem.mp hu).2
  case pids => grind [unlinkThread_pcb, h.pids]
  case pid_lt => exact fun q hq => unlinkThread_pcb s t q ▸ h.pid_lt q hq
  case pid => grind [unlinkThread_pcb, unlinkThread_thread, h.pid]
  case cr3 => grind [unlinkThread_pcb, h.cr3]

/-- A wait queue is cleared. -/
theorem clearQueue (mb : Nat) : (s.clearQueue mb).Linked := by
  unfold ProcTable.clearQueue
  split_ifs
  · exact h
  · exact h.resched (h.sched.clear mb) ⟨rfl, fun _ => rfl, fun _ => rfl⟩

/-- A process without threads leaves its list. -/
theorem unlist (hp : (s.pcb p).tcbs = []) :
    Linked { s with procHead := s.procHead.erase p } := by
  have hmem {q : Nat} (hq : q ∈ s.procHead.erase p) : q ∈ s.procHead := List.mem_of_mem_erase hq
  refine ⟨h.sched, h.procs.erase p, fun q hq => h.tcbs q (hmem hq),
    fun q hq => h.child q (hmem hq), fun t ht => ?_, h.thread, fun q hq => h.proc q (hmem hq),
    h.tids, h.tid_lt, fun q hq r hr => h.pids q (hmem hq) r (hmem hr),
    fun q hq => h.pid_lt q (hmem hq), h.pid, fun q hq => h.cr3 q (hmem hq)⟩
  obtain ⟨hin, hchild⟩ := h.parent t ht
  refine ⟨h.procs.mem_erase_iff.mpr ⟨fun heq => ?_, hin⟩, hchild⟩
  rw [heq, hp] at hchild
  exact List.not_mem_nil hchild

/-- The process of a thread has a name that has been given out. -/
theorem parent_le (ht : t ∈ s.sched.order) :
    (s.tcb t).parent ≤ s.mm.kheap.calls :=
  (h.proc _ (h.parent t ht).1).2

theorem reapThread (ht : t ∈ s.sched.order) (hrun : s.sched.run ≠ some t) :
    (s.reapThread t).Linked :=
  ((h.unlinkThread hrun).clearQueue _).same (reapThread_same (h.parent_le ht))

/-- The running thread hands over to another one, which is not itself. -/
theorem handOver {next : Nat} (hnext : next ∈ s.sched.candidates t) :
    let s' := s.runNext t next (s.sched.modify next fun th => { th with wakePending := false })
    s'.Linked ∧ s'.sched.run ≠ some t := by
  refine ⟨h.runNext t (Sched.mem_candidates hnext), fun heq => ?_⟩
  have hnt : next = t := Option.some.inj heq
  exact Sched.not_mem_candidates h.sched.nodup t (hnt ▸ hnext)

theorem threadDelete (tid : Nat) : (s.threadDelete tid).Linked := by
  rcases s.threadDelete_cases tid with heq | ⟨t, ht, hgone⟩
  · rw [heq]
    exact h
  have hmem := mem_of_findThread ht
  rcases hgone with ⟨hrun, heq⟩ | ⟨s', ⟨-, next, hnext, -, rfl⟩, heq⟩
  · rw [heq]
    exact h.reapThread hmem hrun
  · rw [heq]
    obtain ⟨hlinked, hother⟩ := h.handOver hnext
    exact hlinked.reapThread hmem hother

/-- One thread of a process that exits goes: the table is that without it, after another thread has
taken over if it was running. -/
theorem exitThread_cases (ht : t ∈ s.sched.order) (hs : s.exitThread t = some s') :
    s.sched.run ≠ some t ∧ SameTable (s.unlinkThread t) s' ∨
      s.sched.run = some t ∧ ∃ next ∈ s.sched.candidates t, (s.sched.thread next).state = .ready ∧
        SameTable ((s.runNext t next (s.sched.modify next fun th =>
          { th with wakePending := false })).unlinkThread t) s' := by
  rcases exitThread_some hs with ⟨hrun, rfl⟩ | ⟨s₁, ⟨hrun, next, hnext, hready, rfl⟩, rfl⟩
  · exact Or.inl ⟨hrun, (dropThread_same (h.parent_le ht)).trans (SameTable.kfree _ _)⟩
  · have hlinked := h.runNext t (Sched.mem_candidates hnext)
    exact Or.inr ⟨hrun, next, hnext, hready,
      (dropThread_same (hlinked.parent_le ht)).trans (SameTable.kfree _ _)⟩

/-- The process whose threads go keeps those that are to come. -/
theorem exitThread (ht : t ∈ s.sched.order) (hs : s.exitThread t = some s') :
    s'.Linked ∧ s'.procHead = s.procHead ∧
      (s'.pcb (s.tcb t).parent).tcbs = (s.pcb (s.tcb t).parent).tcbs.erase t := by
  have hself (s₁ : ProcTable) : ((s₁.unlinkThread t).pcb (s₁.tcb t).parent).tcbs =
      (s₁.pcb (s₁.tcb t).parent).tcbs.erase t := by
    change (Function.update s₁.pcb (s₁.tcb t).parent _ (s₁.tcb t).parent).tcbs = _
    rw [Function.update_self]
  rcases h.exitThread_cases ht hs with ⟨hrun, hsame⟩ | ⟨-, next, hnext, -, hsame⟩
  · exact ⟨(h.unlinkThread hrun).same hsame, hsame.procHead,
      (hsame.pcb _ (h.parent_le ht)).tcbs.trans (hself s)⟩
  · obtain ⟨hlinked, hother⟩ := h.handOver hnext
    exact ⟨(hlinked.unlinkThread hother).same hsame, hsame.procHead,
      (hsame.pcb _ (h.parent_le ht)).tcbs.trans (hself _)⟩

/-- The threads of a process go one after the other; at the end there are none. -/
theorem exitLoop (hp : p ∈ s.procHead) {ts : List Nat} (hts : (s.pcb p).tcbs = ts) :
    (exitLoop ts s).2.Linked ∧
      ((exitLoop ts s).1 = true → ((exitLoop ts s).2.pcb p).tcbs = []) := by
  induction ts generalizing s with
  | nil => exact ⟨h, fun _ => hts⟩
  | cons t ts ih =>
    obtain ⟨hmem, hparent⟩ := h.child p hp t (hts ▸ List.mem_cons_self)
    unfold ProcTable.exitLoop
    cases hs : s.exitThread t with
    | none => exact ⟨h, fun hfalse => nomatch hfalse⟩
    | some s' => grind [h.exitThread]

theorem procExit (L : Layout) (pid : Nat) : (s.procExit L pid).Linked := by
  unfold ProcTable.procExit
  split
  · exact h.archTaskContextSwitch
  · rename_i p hp
    obtain ⟨hlinked, hnone⟩ := h.exitLoop (List.mem_of_find?_eq_some hp) rfl
    generalize ProcTable.exitLoop (s.pcb p).tcbs s = res at hlinked hnone ⊢
    obtain ⟨_ | _, s₁⟩ := res
    · exact hlinked.sameLists ⟨hlinked.sched, rfl, rfl, fun _ _ => rfl,
        fun _ _ => ⟨rfl, rfl, rfl⟩, fun _ _ => rfl, Nat.le_refl _, Nat.le_refl _, Nat.le_refl _⟩
    · exact (hlinked.unlist (hnone rfl)).archTaskContextSwitch.same (reapProc_same L _ p)

end Linked

end ProcTable

/-! ## Every step -/

namespace ProcOp

variable {L : Layout} {s : ProcTable}

/-- Identifiers come from counters that are far from coming round, and nobody sleeps at no wait
queue. -/
def Counted (s : ProcTable) : ProcOp → Prop
  | .procCreate _ => s.nextTid < 2 ^ 31 ∧ s.nextPid < 2 ^ 31
  | .threadCreate _ => s.nextTid < 2 ^ 31
  | .sleep wq => wq ≠ 0
  | _ => True

instance decidableCounted (s : ProcTable) : (op : ProcOp) → Decidable (op.Counted s)
  | .procCreate _ => inferInstanceAs (Decidable (_ ∧ _))
  | .threadCreate _ => inferInstanceAs (Decidable (_ < _))
  | .sleep wq => inferInstanceAs (Decidable (wq ≠ 0))
  | .threadDelete _ | .threadBlock _ | .threadUnblock _ | .threadYield | .procExit _
  | .procBlock _ | .procUnblock _ | .wake _ | .tick _ | .gateExit => isTrue trivial

end ProcOp

theorem ProcTable.Linked.step {L : Layout} {s : ProcTable} (h : s.Linked) {op : ProcOp}
    (hop : op.Counted s) : (op.exec L s).Linked := by
  unfold ProcOp.exec
  split_ifs
  · exact h
  cases op with
  | procCreate priv => exact h.pCreateEx priv .pending hop
  | threadCreate ring =>
    unfold ProcOp.step
    cases hrun : s.sched.run with
    | none => exact h
    | some t => exact h.threadCreateEx (h.parent t (h.run hrun)).1 ring .pending hop
  | threadDelete tid => exact h.threadDelete tid
  | threadBlock tid => exact h.threadBlock tid
  | threadUnblock tid => exact h.threadUnblock tid
  | threadYield => exact h.threadYield
  | procExit pid => exact h.procExit L pid
  | procBlock pid =>
    change (s.procBlock pid).Linked
    unfold ProcTable.procBlock
    split
    · exact h
    · exact h.setStates _ _ _
  | procUnblock pid =>
    change (s.procUnblock pid).Linked
    unfold ProcTable.procUnblock
    split
    · exact h
    · exact h.setStates _ _ _
  | sleep wq => exact h.waitQueueSleepLocked hop
  | wake wq => exact h.waitQueueWakeOne wq
  | tick locked => exact h.scheduleIsr locked
  | gateExit => exact h.archTaskContextSwitch

end Ukernel.Kernel
