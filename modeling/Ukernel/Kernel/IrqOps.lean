import Ukernel.Kernel.Irq

/-!
# What the functions of interrupts do

The invariant of the lines, and that every function keeps it when it is given the address of a
request. Two relations carry the rest: `Core` says that the mailboxes and the threads are as they
were, and `Keeps` that whoever is in a line was there before and still is of the same kind.

## Main definitions

* `Irq.Alike`: the fields of a request that decide what becomes of it
* `IrqState.Tables`: lines hold requests, each in a block of its own, that belong to live threads
* `IrqState.Core`, `IrqState.Keeps`, `IrqState.Adds`

## Main results

* `IrqState.Tables.release`, `IrqState.Tables.setEnabled`, `IrqState.Tables.request`
-/

namespace Ukernel.Kernel

open Arch Ipc Lib Machine Mm Sync

/-! ## Fields -/

namespace Irq

/-- The fields that decide what becomes of a request. -/
structure Alike (m m' : Memory) (p : Nat) : Prop where
  major : major m' p = major m p
  isUserIrq : isUserIrq m' p = isUserIrq m p
  owner : owner m' p = owner m p
  spLock : spLock m' p = spLock m p
  handler : handler m' p = handler m p

variable {m m' m'' : Memory} {p q a v : Nat}

theorem Alike.refl (m : Memory) (p : Nat) : Alike m m p := ⟨rfl, rfl, rfl, rfl, rfl⟩

theorem Alike.trans (h : Alike m m' p) (h' : Alike m' m'' p) : Alike m m'' p :=
  ⟨h'.major.trans h.major, h'.isUserIrq.trans h.isUserIrq, h'.owner.trans h.owner,
    h'.spLock.trans h.spLock, h'.handler.trans h.handler⟩

/-- Memory has changed outside of the request. -/
theorem Alike.of_outside (h : ∀ x, p ≤ x → x < p + size → m' x = m x) : Alike m m' p := by
  have hload {a : Nat} (ha : p ≤ a) (ha' : a + 4 ≤ p + 56) : load32 m' a = load32 m a :=
    load32_congr fun x hx hx' => h x (by omega) (by unfold size; omega)
  exact ⟨hload (by omega) (by omega), hload (by omega) (by omega), hload (by omega) (by omega),
    hload (by omega) (by omega), hload (by omega) (by omega)⟩

theorem Alike.store (h : RangesApart (a, 4) (p, size)) : Alike m (store32 m a v) p :=
  .of_outside fun x hx hx' => store32_apply_of_disjoint m v (by
    unfold RangesApart at h
    dsimp only at h
    omega)

/-- `enabled` decides nothing. -/
theorem Alike.enabled : Alike m (store32 m (p + 16) v) p := by
  constructor <;> exact load32_store32_of_disjoint m v (by omega)

/-- The fields of a new request. -/
theorem initIrq_fields (m : Memory) (p major minor isUserIrq : Nat) (tid : Int)
    (name context handler lock : Nat) :
    let m' := store32 (IrqState.initIrq m p major minor isUserIrq tid name context handler)
      (p + 32) lock
    Irq.major m' p = major % 2 ^ 32 ∧ Irq.isUserIrq m' p = isUserIrq % 2 ^ 32 ∧
      Irq.owner m' p = 0 ∧ Irq.spLock m' p = lock % 2 ^ 32 ∧
      Irq.handler m' p = handler % 2 ^ 32 := by
  -- look behind the stores that came later
  have hskip {m : Memory} {a b v : Nat} (h : a + 4 ≤ b ∨ b + 4 ≤ a) :
      load32 (store32 m b v) a = load32 m a := load32_store32_of_disjoint m v h
  refine ⟨?_, ?_, ?_, ?_, ?_⟩
  · grind [Irq.major, IrqState.initIrq, load32_store32]
  · grind [Irq.isUserIrq, IrqState.initIrq, load32_store32]
  · unfold Irq.owner IrqState.initIrq
    rw [hskip (by omega), load32_store32, Nat.zero_mod]
  · exact load32_store32 _ _ _
  · grind [Irq.handler, IrqState.initIrq, load32_store32]

/-- A new request is written within its block. -/
theorem initIrq_outside (m : Memory) {p x : Nat} (major minor isUserIrq : Nat) (tid : Int)
    (name context handler lock : Nat) (hp : p + size ≤ 2 ^ 32) (hx : x < 2 ^ 32)
    (hout : x < p ∨ p + size ≤ x) :
    store32 (IrqState.initIrq m p major minor isUserIrq tid name context handler) (p + 32) lock x =
      m x := by
  unfold size at *
  have hskip {m : Memory} {b v : Nat} (h : p ≤ b) (h' : b + 4 ≤ p + 56) : store32 m b v x = m x :=
    store32_apply_of_disjoint m v (by omega)
  unfold IrqState.initIrq
  rw [hskip (by omega) (by omega), hskip (by omega) (by omega), hskip (by omega) (by omega),
    hskip (by omega) (by omega), hskip (by omega) (by omega), hskip (by omega) (by omega),
    hskip (by omega) (by omega), hskip (by omega) (by omega), hskip (by omega) (by omega),
    hskip (by omega) (by omega)]
  exact memset_of_forall_ne 0 hx fun i hi => by unfold size at hi; omega

end Irq

namespace IrqState

variable {s s' s'' : IrqState} {L : List Nat} {R : Nat → Prop} {j p q : Nat}

/-! ## What stays -/

/-- The mailboxes and the threads are as they were, and nothing has been called. -/
structure Core (s s' : IrqState) : Prop where
  box : s'.mail.box = s.mail.box
  history : s'.mail.history = s.mail.history
  sched : s'.mail.sched = s.mail.sched
  tcb : s'.tcb = s.tcb
  spinlocks : s'.spinlocks = s.spinlocks
  invoked : s'.invoked = s.invoked
  registered : s'.registered = s.registered
  faulted : s'.faulted = s.faulted

theorem Core.refl (s : IrqState) : Core s s := ⟨rfl, rfl, rfl, rfl, rfl, rfl, rfl, rfl⟩

theorem Core.trans (h : Core s s') (h' : Core s' s'') : Core s s'' :=
  ⟨h'.box.trans h.box, h'.history.trans h.history, h'.sched.trans h.sched, h'.tcb.trans h.tcb,
    h'.spinlocks.trans h.spinlocks, h'.invoked.trans h.invoked,
    h'.registered.trans h.registered, h'.faulted.trans h.faulted⟩

/-- A request is in a line. -/
def Listed (s : IrqState) (p : Nat) : Prop := ∃ j line, s.lines j = some line ∧ p ∈ line.irqs

/-- Whoever is in a line was there before and is of the same kind. -/
def Keeps (s s' : IrqState) : Prop :=
  ∀ p, s'.Listed p → s.Listed p ∧ Irq.Alike s.mem s'.mem p

/-- Whoever is in a line was there before and is of the same kind, or is of a given kind. -/
def Adds (isUserIrq : Nat) (s s' : IrqState) : Prop :=
  ∀ p, s'.Listed p → s.Listed p ∧ Irq.Alike s.mem s'.mem p ∨ Irq.isUserIrq s'.mem p = isUserIrq

/-- Whoever is in a line was there before and is of the same kind, or is new, of a given kind and
with a given owner. -/
def Joins (isUserIrq owner : Nat) (s s' : IrqState) : Prop :=
  ∀ p, s'.Listed p → s.Listed p ∧ Irq.Alike s.mem s'.mem p ∨
    Irq.isUserIrq s'.mem p = isUserIrq ∧ Irq.owner s'.mem p = owner

/-- The address of the thread that a new request gets as its owner, or 0. -/
def ownerOf (s : IrqState) (isUserIrq : Nat) (tid : Int) : Nat :=
  ((if isUserIrq ≠ 0 then s.mail.threadGetByTid tid else none).map s.tcb).getD 0

theorem Keeps.refl (s : IrqState) : Keeps s s := fun p hp => ⟨hp, .refl _ p⟩

theorem Keeps.trans (h : Keeps s s') (h' : Keeps s' s'') : Keeps s s'' := fun p hp =>
  ⟨(h p (h' p hp).1).1, (h p (h' p hp).1).2.trans (h' p hp).2⟩

theorem Keeps.joins (h : Keeps s s') (u o : Nat) : Joins u o s s' := fun p hp => Or.inl (h p hp)

theorem Joins.after {u o : Nat} (h' : Joins u o s' s'') (h : Keeps s s') : Joins u o s s'' := by
  intro p hp
  rcases h' p hp with ⟨hl, ha⟩ | hnew
  · exact Or.inl ⟨(h p hl).1, (h p hl).2.trans ha⟩
  · exact Or.inr hnew

theorem Joins.adds {u o : Nat} (h : Joins u o s s') : Adds u s s' := fun p hp =>
  (h p hp).imp_right And.left

theorem Core.ownerOf (h : Core s s') (u : Nat) (tid : Int) :
    s'.ownerOf u tid = s.ownerOf u tid := by
  unfold IrqState.ownerOf MailState.threadGetByTid
  rw [h.sched, h.tcb]

/-! ## The invariant -/

/-- A request that has been allocated: it has a block and a lock, and its thread knows it. -/
structure Request (L : List Nat) (s : IrqState) (j p : Nat) : Prop where
  block : p ≠ 0 ∧ (p, Irq.size) ∈ s.kheap.live
  major : Irq.major s.mem p = j
  lock : ∃ i < Resources.spinLockMaxCount, Irq.spLock s.mem p = s.spinlocks + 4 * i
  owner : Irq.owner s.mem p ≠ 0 →
    p ∈ s.threadIrqs (Irq.owner s.mem p) ∧ ∃ t ∈ L, s.tcb t = Irq.owner s.mem p

/-- Lines hold requests, each in a block of its own, that belong to the threads of a list; those
that do not belong to a user have been registered. -/
structure Tables (L : List Nat) (R : Nat → Prop) (s : IrqState) : Prop where
  heap : s.kheap.Ok
  below : s.kheap.hi ≤ userHeapBase
  table : 0 < s.spinlocks ∧ s.spinlocks + 4 * Resources.spinLockMaxCount ≤ 2 ^ 32
  lines : ∀ j line, s.lines j = some line → j < idtEntries ∧ line.irqs.Nodup
  requests : ∀ j line, s.lines j = some line → ∀ p ∈ line.irqs, s.Request L j p ∧
    (Irq.isUserIrq s.mem p ≠ 0 ∨ R (Irq.handler s.mem p))
  tcbs : ∀ t ∈ L, s.tcb t ≠ 0 ∧ s.tcb t < 2 ^ 32 ∧ ∀ t' ∈ L, s.tcb t = s.tcb t' → t = t'
  owned : ∀ t ∈ L, (s.threadIrqs (s.tcb t)).Nodup ∧
    ∀ p ∈ s.threadIrqs (s.tcb t), s.Listed p ∧ Irq.owner s.mem p = s.tcb t

/-- A request whose fields and whose thread are as they were. -/
theorem Request.congr (h : s.Request L j p) (hblock : (p, Irq.size) ∈ s'.kheap.live)
    (ha : Irq.Alike s.mem s'.mem p) (hsp : s'.spinlocks = s.spinlocks) (htcb : s'.tcb = s.tcb)
    (hth : p ∈ s.threadIrqs (Irq.owner s.mem p) → p ∈ s'.threadIrqs (Irq.owner s.mem p)) :
    s'.Request L j p where
  block := ⟨h.block.1, hblock⟩
  major := ha.major.trans h.major
  lock := by
    rw [ha.spLock, hsp]
    exact h.lock
  owner hz := by
    rw [ha.owner] at hz ⊢
    rw [htcb]
    exact ⟨hth (h.owner hz).1, (h.owner hz).2⟩

/-- A step that leaves the lines and the fields of their requests as they are. -/
theorem Tables.congr (h : s.Tables L R) (s' : IrqState) (hheap : s'.kheap.Ok)
    (hhi : s'.kheap.hi = s.kheap.hi) (hsp : s'.spinlocks = s.spinlocks) (htcb : s'.tcb = s.tcb)
    (hlines : s'.lines = s.lines) (hth : s'.threadIrqs = s.threadIrqs)
    (hlive : ∀ p, s.Listed p → (p, Irq.size) ∈ s'.kheap.live)
    (ha : ∀ p, s.Listed p → Irq.Alike s.mem s'.mem p) : s'.Tables L R ∧ Keeps s s' := by
  have hlisted (p : Nat) : s'.Listed p ↔ s.Listed p := by
    unfold Listed
    rw [hlines]
  refine ⟨⟨hheap, hhi ▸ h.below, hsp ▸ h.table, hlines ▸ h.lines, fun j line hl p hp => ?_,
    htcb ▸ h.tcbs, fun t ht => ?_⟩, fun p hp => ?_⟩
  · rw [hlines] at hl
    have hp' : s.Listed p := ⟨j, line, hl, hp⟩
    obtain ⟨hr, hkind⟩ := h.requests j line hl p hp
    refine ⟨hr.congr (hlive p hp') (ha p hp') hsp htcb (hth ▸ id), ?_⟩
    rw [(ha p hp').isUserIrq, (ha p hp').handler]
    exact hkind
  · rw [hth, htcb]
    refine ⟨(h.owned t ht).1, fun p hp => ?_⟩
    obtain ⟨hl, ho⟩ := (h.owned t ht).2 p hp
    exact ⟨(hlisted p).mpr hl, (ha p hl).owner.trans ho⟩
  · have hp' := (hlisted p).mp hp
    exact ⟨hp', ha p hp'⟩

theorem Tables.block (h : s.Tables L R) (hp : s.Listed p) :
    p ≠ 0 ∧ (p, Irq.size) ∈ s.kheap.live := by
  obtain ⟨j, line, hl, hp⟩ := hp
  exact (h.requests j line hl p hp).1.block

/-- The lines look neither at mailboxes nor at what has been called. -/
theorem Tables.same (h : s.Tables L R) (s' : IrqState) (hmem : s'.mem = s.mem)
    (hkheap : s'.kheap = s.kheap) (hsp : s'.spinlocks = s.spinlocks) (htcb : s'.tcb = s.tcb)
    (hlines : s'.lines = s.lines) (hth : s'.threadIrqs = s.threadIrqs) :
    s'.Tables L R ∧ Keeps s s' := by
  refine h.congr s' (hkheap ▸ h.heap) (hkheap ▸ rfl) hsp htcb hlines hth
    (fun p hp => hkheap ▸ (h.block hp).2) fun p _ => ?_
  rw [hmem]
  exact .refl _ p

/-- A request in a line lies in the kernel heap. -/
theorem Tables.bounds (h : s.Tables L R) (hp : s.Listed p) : p + Irq.size ≤ userHeapBase :=
  Nat.le_trans (h.heap.bounds _ (h.block hp).2).2 h.below

/-- A request is in one line. -/
theorem Tables.line_eq (h : s.Tables L R) {line : IrqLine} (hl : s.lines j = some line)
    (hp : p ∈ line.irqs) : Irq.major s.mem p = j := (h.requests j line hl p hp).1.major

/-! ## Locks -/

/-- The address of a lock of the table. -/
theorem lockAt_table (s : IrqState) {i : Nat} (hi : i < Resources.spinLockMaxCount) :
    s.lockAt (s.spinlocks + 4 * i) = some i := by
  unfold lockAt
  rw [if_pos (by omega)]
  congr 1
  omega

/-- The state with other locks. -/
def withLocks (s : IrqState) (locks : Nat → Bool) : IrqState :=
  s.withMail { s.mail with locks }

/-- A lock of the table is not memory. -/
theorem setLock_table (s : IrqState) {i : Nat} (hi : i < Resources.spinLockMaxCount) (v : Nat) :
    s.setLock (s.spinlocks + 4 * i) v =
      s.withLocks (Function.update s.mail.locks i (v ≠ 0)) := by
  unfold setLock
  rw [s.lockAt_table hi]
  rfl

theorem Tables.withLocks (h : s.Tables L R) (locks : Nat → Bool) :
    (s.withLocks locks).Tables L R ∧ Keeps s (s.withLocks locks) :=
  h.same _ rfl rfl rfl rfl rfl rfl

theorem spinlockAlloc_cases (s : IrqState) : ∃ locks, s.spinlockAlloc.2 = s.withLocks locks ∧
    (s.spinlockAlloc.1 = 0 ∨
      ∃ i < Resources.spinLockMaxCount, s.spinlockAlloc.1 = s.spinlocks + 4 * i) := by
  unfold spinlockAlloc MailState.spinlockAlloc
  cases h : firstFree s.mail.locks Resources.spinLockMaxCount 0 with
  | none => exact ⟨s.mail.locks, rfl, Or.inl rfl⟩
  | some i =>
    have hi := (firstFree_some h).2.1
    exact ⟨_, rfl, Or.inr ⟨i, by omega, rfl⟩⟩

/-! ## Masks -/

theorem archSetMask_eq (s : IrqState) (major : Nat) (mask : Bool) :
    ∃ masked, s.archSetMask major mask = { s with masked } := by
  unfold archSetMask
  split_ifs
  · exact ⟨s.masked, rfl⟩
  · exact ⟨_, rfl⟩

theorem irqlineMask_eq (s : IrqState) (major : Nat) (line : IrqLine) :
    ∃ masked, s.irqlineMask major line = { s with masked } := by
  unfold irqlineMask
  split_ifs
  · exact ⟨s.masked, rfl⟩
  · exact s.archSetMask_eq major true

theorem irqlineUnmask_eq (s : IrqState) (major : Nat) (line : IrqLine) :
    ∃ masked, s.irqlineUnmask major line = { s with masked } := by
  unfold irqlineUnmask
  split_ifs
  · exact s.archSetMask_eq major false
  · exact ⟨s.masked, rfl⟩

theorem Tables.withMasked (h : s.Tables L R) (masked : Nat → Bool) :
    { s with masked }.Tables L R ∧ Keeps s { s with masked } :=
  h.same _ rfl rfl rfl rfl rfl rfl

/-! ## Masking and unmasking -/

/-- The lock of a request is one of the table, so that only its flag is written. -/
theorem Request.setEnabled (h : s.Request L j p) (hpos : 0 < s.spinlocks) (v : Nat) :
    ∃ locks, s.irqSetEnabled p v = (s.withMem (store32 s.mem (p + 16) v)).withLocks locks := by
  obtain ⟨i, hi, hlock⟩ := h.lock
  have hz : s.spinlocks + 4 * i ≠ 0 := by omega
  refine ⟨Function.update (Function.update s.mail.locks i ((2 : Nat) ≠ 0)) i ((1 : Nat) ≠ 0), ?_⟩
  unfold irqSetEnabled
  dsimp only
  rw [hlock]
  unfold spinlockLock spinlockUnlock
  rw [if_neg hz, s.setLock_table hi]
  set s₁ := (s.withLocks (Function.update s.mail.locks i ((2 : Nat) ≠ 0))).store (p + 16) v
  have ha : Irq.Alike s.mem s₁.mem p := .enabled
  have hlock₁ : Irq.spLock s₁.mem p = s₁.spinlocks + 4 * i := ha.spLock.trans hlock
  have hz₁ : s₁.spinlocks + 4 * i ≠ 0 := hz
  rw [hlock₁, if_neg hz₁]
  exact setLock_table s₁ hi 1

/-- Two requests lie apart. -/
theorem Tables.apart (h : s.Tables L R) (hp : s.Listed p) (hq : s.Listed q) (hne : q ≠ p) :
    RangesApart (p, Irq.size) (q, Irq.size) :=
  h.heap.apart_of_ne (h.block hp).2 (h.block hq).2 fun heq => hne (Prod.mk.inj heq).1.symm

/-- A request is enabled or disabled. -/
theorem Tables.setEnabled (h : s.Tables L R) (hp : s.Listed p) (v : Nat) :
    (s.irqSetEnabled p v).Tables L R ∧ Keeps s (s.irqSetEnabled p v) ∧
      Core s (s.irqSetEnabled p v) := by
  have hp' := hp
  obtain ⟨j, line, hl, hmem⟩ := hp'
  obtain ⟨locks, hexec⟩ := (h.requests j line hl p hmem).1.setEnabled h.table.1 v
  rw [hexec]
  have hstore : (s.withMem (store32 s.mem (p + 16) v)).Tables L R ∧
      Keeps s (s.withMem (store32 s.mem (p + 16) v)) := by
    refine h.congr _ h.heap rfl rfl rfl rfl rfl (fun _ hq => (h.block hq).2) fun q hq => ?_
    by_cases hqp : q = p
    · rw [hqp]
      exact .enabled
    · have hapart := h.apart hp hq hqp
      refine .store ?_
      unfold RangesApart Irq.size at hapart ⊢
      omega
  obtain ⟨htab, hkeeps⟩ := hstore.1.withLocks locks
  exact ⟨htab, hstore.2.trans hkeeps, ⟨rfl, rfl, rfl, rfl, rfl, rfl, rfl, rfl⟩⟩

/-- What a mask or an unmask ends with. -/
theorem Tables.setMasked (h : s.Tables L R) (hp : s.Listed p) {v : Nat}
    (heq : ∃ masked, s' = { s.irqSetEnabled p v with masked }) :
    s'.Tables L R ∧ Keeps s s' ∧ Core s s' := by
  obtain ⟨masked, rfl⟩ := heq
  obtain ⟨htab, hkeeps, hcore⟩ := h.setEnabled hp v
  obtain ⟨htab', hkeeps'⟩ := htab.withMasked masked
  exact ⟨htab', hkeeps.trans hkeeps', hcore.trans ⟨rfl, rfl, rfl, rfl, rfl, rfl, rfl, rfl⟩⟩

theorem Tables.irqMaskInternal (h : s.Tables L R) (hp : p = 0 ∨ s.Listed p) :
    (s.irqMaskInternal p).2.Tables L R ∧ Keeps s (s.irqMaskInternal p).2 ∧
      Core s (s.irqMaskInternal p).2 := by
  unfold IrqState.irqMaskInternal
  split_ifs with hz
  · exact ⟨h, .refl s, .refl s⟩
  refine h.setMasked (v := 0) (hp.resolve_left (not_or.mp hz).1) ?_
  dsimp only
  split
  · exact ⟨_, rfl⟩
  · exact irqlineMask_eq ..

theorem Tables.irqUnmaskInternal (h : s.Tables L R) (hp : p = 0 ∨ s.Listed p) :
    (s.irqUnmaskInternal p).2.Tables L R ∧ Keeps s (s.irqUnmaskInternal p).2 ∧
      Core s (s.irqUnmaskInternal p).2 := by
  unfold IrqState.irqUnmaskInternal
  split_ifs with hz
  · exact ⟨h, .refl s, .refl s⟩
  refine h.setMasked (v := 1) (hp.resolve_left (not_or.mp hz).1) ?_
  dsimp only
  split
  · exact ⟨_, rfl⟩
  · exact irqlineUnmask_eq ..

/-! ## Releasing -/

/-- The state without a request, if nothing but the request is looked at. -/
def without (s : IrqState) (p : Nat) (masked : Nat → Bool) (locks : Nat → Bool) : IrqState :=
  let owner := Irq.owner s.mem p
  { s.withLocks locks with
    kheap := s.kheap.free p
    masked
    lines := fun j => (s.lines j).map fun line =>
      if j = Irq.major s.mem p then { line with irqs := line.irqs.erase p } else line
    threadIrqs := fun t =>
      if owner ≠ 0 ∧ t = owner then (s.threadIrqs t).erase p else s.threadIrqs t }

/-- A request is released. -/
theorem Request.release (h : s.Request L j p) (hj : j < idtEntries) (hpos : 0 < s.spinlocks) :
    ∃ masked locks, s.irqReleaseInternal p = s.without p masked locks := by
  obtain ⟨i, hi, hlock⟩ := h.lock
  have hgood : ¬(p = 0 ∨ Irq.major s.mem p ≥ idtEntries) := by
    rw [h.major]
    exact not_or.mpr ⟨h.block.1, Nat.not_le.mpr hj⟩
  have hleave : ∃ masked, s.leaveLine p = { s with
      masked
      lines := fun j => (s.lines j).map fun line =>
        if j = Irq.major s.mem p then { line with irqs := line.irqs.erase p } else line } := by
    unfold leaveLine
    dsimp only
    cases hl : s.lines (Irq.major s.mem p) with
    | none =>
      refine ⟨s.masked, ?_⟩
      have hsame : (fun j => (s.lines j).map fun line =>
          if j = Irq.major s.mem p then { line with irqs := line.irqs.erase p } else line) =
          s.lines := by
        funext j
        by_cases hj : j = Irq.major s.mem p
        · rw [hj, hl]
          rfl
        · simp [hj]
      rw [hsame]
    | some line =>
      obtain ⟨masked, heq⟩ := irqlineMask_eq
        (s.setLine (Irq.major s.mem p) { line with irqs := line.irqs.erase p })
        (Irq.major s.mem p) { line with irqs := line.irqs.erase p }
      refine ⟨masked, heq.trans ?_⟩
      have hsame : (fun j => (s.lines j).map fun line =>
          if j = Irq.major s.mem p then { line with irqs := line.irqs.erase p } else line) =
          Function.update s.lines (Irq.major s.mem p)
            (some { line with irqs := line.irqs.erase p }) := by
        funext j
        by_cases hj : j = Irq.major s.mem p
        · rw [hj, hl, Function.update_self]
          simp
        · simp [hj]
      rw [hsame]
      rfl
  obtain ⟨masked, hleave⟩ := hleave
  refine ⟨masked, Function.update s.mail.locks i false, ?_⟩
  unfold irqReleaseInternal
  rw [if_neg hgood, hleave]
  have hfree (s₁ : IrqState) (hmem : s₁.mem = s.mem) (hsp : s₁.spinlocks = s.spinlocks) :
      s₁.irqFree p = (s₁.withLocks (Function.update s₁.mail.locks i false)).kfree p := by
    grind [setLock_table, irqFree, spinlockRelease]
  unfold leaveThread
  by_cases ho : Irq.owner s.mem p = 0
  · rw [if_pos ho]
    refine Eq.trans (hfree _ ?_ ?_) ?_
    · rfl
    · rfl
    unfold without
    simp only [ho, ne_eq, not_true_eq_false, false_and, if_false]
    rfl
  · rw [if_neg ho]
    refine Eq.trans (hfree _ ?_ ?_) ?_
    · rfl
    · rfl
    have hth : (fun t => if Irq.owner s.mem p ≠ 0 ∧ t = Irq.owner s.mem p then
        (s.threadIrqs t).erase p else s.threadIrqs t) =
        Function.update s.threadIrqs (Irq.owner s.mem p)
          ((s.threadIrqs (Irq.owner s.mem p)).erase p) := by grind
    unfold without
    dsimp only
    rw [hth]
    rfl

variable {masked locks : Nat → Bool}

theorem core_without (s : IrqState) (p : Nat) (masked locks : Nat → Bool) :
    Core s (s.without p masked locks) := ⟨rfl, rfl, rfl, rfl, rfl, rfl, rfl, rfl⟩

section

variable (h : s.Tables L R)

include h

/-- The lines without a request. -/
theorem Tables.mem_without {line' : IrqLine}
    (hl : (s.without p masked locks).lines j = some line') :
    ∃ line, s.lines j = some line ∧ line'.irqs.Nodup ∧
      ∀ q, q ∈ line'.irqs ↔ q ∈ line.irqs ∧ q ≠ p := by
  obtain ⟨line, hline, heq⟩ := Option.map_eq_some_iff.mp hl
  have hnodup := (h.lines j line hline).2
  refine ⟨line, hline, ?_⟩
  by_cases hj : j = Irq.major s.mem p
  · grind
  · grind [h.line_eq]

theorem Tables.listed_without (q : Nat) :
    (s.without p masked locks).Listed q ↔ s.Listed q ∧ q ≠ p := by
  constructor
  · rintro ⟨j, line', hl, hq⟩
    obtain ⟨line, hline, -, hmem⟩ := h.mem_without hl
    exact ⟨⟨j, line, hline, ((hmem q).mp hq).1⟩, ((hmem q).mp hq).2⟩
  · rintro ⟨⟨j, line, hline, hq⟩, hne⟩
    obtain ⟨line', hl⟩ : ∃ line', (s.without p masked locks).lines j = some line' :=
      ⟨_, Option.map_eq_some_iff.mpr ⟨line, hline, rfl⟩⟩
    obtain ⟨line₁, hline₁, -, hmem⟩ := h.mem_without hl
    cases hline.symm.trans hline₁
    exact ⟨j, line', hl, (hmem q).mpr ⟨hq, hne⟩⟩

theorem Tables.without (masked locks : Nat → Bool) :
    (s.without p masked locks).Tables L R ∧ Keeps s (s.without p masked locks) := by
  have hth {t q : Nat} (hne : q ≠ p) :
      q ∈ (s.without p masked locks).threadIrqs t ↔ q ∈ s.threadIrqs t := by
    grind [IrqState.without]
  refine ⟨⟨h.heap.free p, h.below, h.table, fun j line' hl => ?_, fun j line' hl q hq => ?_, h.tcbs,
    fun t ht => ⟨?_, fun q hq => ?_⟩⟩, fun q hq => ?_⟩
  · obtain ⟨line, hline, hnodup, -⟩ := h.mem_without hl
    exact ⟨(h.lines j line hline).1, hnodup⟩
  · obtain ⟨line, hline, -, hmem⟩ := h.mem_without hl
    obtain ⟨hq, hne⟩ := (hmem q).mp hq
    obtain ⟨hr, hkind⟩ := h.requests j line hline q hq
    exact ⟨hr.congr (BlockPool.mem_free.mpr ⟨hr.block.2, hne⟩) (.refl _ q) rfl rfl (hth hne).mpr,
      hkind⟩
  · unfold IrqState.without
    dsimp only
    split_ifs
    · exact (h.owned t ht).1.erase p
    · exact (h.owned t ht).1
  · -- a request of another thread is another request
    have hne : q ≠ p := by
      rintro rfl
      unfold IrqState.without at hq
      dsimp only at hq
      split_ifs at hq with hown
      · exact (h.owned t ht).1.not_mem_erase hq
      · have howner := ((h.owned t ht).2 q hq).2
        exact hown ⟨howner ▸ (h.tcbs t ht).1, howner.symm⟩
    obtain ⟨hl, ho⟩ := (h.owned t ht).2 q ((hth hne).mp hq)
    exact ⟨h.listed_without q |>.mpr ⟨hl, hne⟩, ho⟩
  · exact ⟨((h.listed_without q).mp hq).1, .refl _ q⟩

/-- `irq_release_internal` of a request in a line. -/
theorem Tables.release (hp : s.Listed p) :
    (s.irqReleaseInternal p).Tables L R ∧ Keeps s (s.irqReleaseInternal p) ∧
      Core s (s.irqReleaseInternal p) ∧
      ∀ q, (s.irqReleaseInternal p).Listed q ↔ s.Listed q ∧ q ≠ p := by
  obtain ⟨j, line, hl, hmem⟩ := hp
  obtain ⟨masked, locks, heq⟩ :=
    (h.requests j line hl p hmem).1.release (h.lines j line hl).1 h.table.1
  rw [heq]
  obtain ⟨htab, hkeeps⟩ := h.without (p := p) masked locks
  exact ⟨htab, hkeeps, core_without s p masked locks, h.listed_without⟩

/-- All requests of a list are released. -/
theorem Tables.releaseAll {ps : List Nat} (hps : ∀ p ∈ ps, s.Listed p) (hnodup : ps.Nodup) :
    (ps.foldl irqReleaseInternal s).Tables L R ∧ Keeps s (ps.foldl irqReleaseInternal s) ∧
      Core s (ps.foldl irqReleaseInternal s) ∧
      ∀ q, (ps.foldl irqReleaseInternal s).Listed q → q ∉ ps := by
  induction ps generalizing s with
  | nil => exact ⟨h, .refl s, .refl s, fun _ _ => List.not_mem_nil⟩
  | cons p ps ih =>
    obtain ⟨hp, hnodup⟩ := List.nodup_cons.mp hnodup
    obtain ⟨htab, hkeeps, hcore, hlisted⟩ := h.release (hps p List.mem_cons_self)
    obtain ⟨htab', hkeeps', hcore', hgone⟩ := ih htab (fun q hq =>
      (hlisted q).mpr ⟨hps q (List.mem_cons_of_mem _ hq), fun heq => hp (heq ▸ hq)⟩) hnodup
    refine ⟨htab', hkeeps.trans hkeeps', hcore.trans hcore', fun q hq hmem => ?_⟩
    rcases List.mem_cons.mp hmem with rfl | hmem
    · exact ((hlisted q).mp (hkeeps' q hq).1).2 rfl
    · exact hgone q hq hmem

/-! ## Requesting -/

/-- A block has been taken, or there was none. -/
theorem Tables.kmalloc (size : Nat) :
    (s.kmalloc size).2.Tables L R ∧ Keeps s (s.kmalloc size).2 ∧ Core s (s.kmalloc size).2 ∧
      (s.kmalloc size).2.mem = s.mem ∧ (s.kmalloc size).2.lines = s.lines ∧
      ((s.kmalloc size).1 = 0 ∨ (s.kmalloc size).1 ≠ 0 ∧
        s.kheap.Taken ((s.kmalloc size).1, size) (s.kmalloc size).2.kheap) := by
  rcases s.kheap.alloc_cases size with ⟨hz, hlive, hlo, hhi⟩ | ⟨hz, ht⟩
  · obtain ⟨htab, hkeeps⟩ := h.congr { s with kheap := (s.kheap.alloc size).2 }
      (h.heap.congr hlo hhi hlive) hhi rfl rfl rfl rfl (fun _ hp => hlive ▸ (h.block hp).2)
      fun p _ => .refl _ p
    exact ⟨htab, hkeeps, ⟨rfl, rfl, rfl, rfl, rfl, rfl, rfl, rfl⟩, rfl, rfl, Or.inl hz⟩
  · obtain ⟨htab, hkeeps⟩ := h.congr { s with kheap := (s.kheap.alloc size).2 }
      (h.heap.alloc ht) ht.bounds.2 rfl rfl rfl rfl
      (fun _ hp => ht.live ▸ List.mem_cons_of_mem _ (h.block hp).2) fun p _ => .refl _ p
    exact ⟨htab, hkeeps, ⟨rfl, rfl, rfl, rfl, rfl, rfl, rfl, rfl⟩, rfl, rfl, Or.inr ⟨hz, ht⟩⟩

/-- A line without requests. -/
theorem Tables.newLine (hj : j < idtEntries) (hnone : s.lines j = none) (addr lock : Nat) :
    (s.setLine j ⟨addr, lock, []⟩).Tables L R ∧
      Keeps s (s.setLine j ⟨addr, lock, []⟩) ∧
      ∀ p, (s.setLine j ⟨addr, lock, []⟩).Listed p ↔ s.Listed p := by
  have hline {i : Nat} {line : IrqLine} (hl : (s.setLine j ⟨addr, lock, []⟩).lines i = some line) :
      i = j ∧ line.irqs = [] ∨ s.lines i = some line := by
    change Function.update s.lines j _ i = some line at hl
    by_cases hij : i = j
    · grind
    · rw [Function.update_of_ne hij] at hl
      exact Or.inr hl
  have hlisted (p : Nat) : (s.setLine j ⟨addr, lock, []⟩).Listed p ↔ s.Listed p := by
    constructor
    · rintro ⟨i, line, hl, hp⟩
      rcases hline hl with ⟨-, hnil⟩ | hl
      · rw [hnil] at hp
        exact nomatch hp
      · exact ⟨i, line, hl, hp⟩
    · rintro ⟨i, line, hl, hp⟩
      have hij : i ≠ j := by
        rintro rfl
        exact nomatch hnone.symm.trans hl
      exact ⟨i, line, (Function.update_of_ne hij _ _).trans hl, hp⟩
  refine ⟨⟨h.heap, h.below, h.table, fun i line hl => ?_, fun i line hl p hp => ?_, h.tcbs,
    fun t ht => ⟨(h.owned t ht).1, fun p hp => ?_⟩⟩, fun p hp => ?_, hlisted⟩
  · rcases hline hl with ⟨rfl, hnil⟩ | hl
    · exact ⟨hj, hnil ▸ List.nodup_nil⟩
    · exact h.lines i line hl
  · rcases hline hl with ⟨-, hnil⟩ | hl
    · rw [hnil] at hp
      exact nomatch hp
    · obtain ⟨hr, hkind⟩ := h.requests i line hl p hp
      exact ⟨hr.congr hr.block.2 (.refl _ p) rfl rfl id, hkind⟩
  · obtain ⟨hl, ho⟩ := (h.owned t ht).2 p hp
    exact ⟨(hlisted p).mpr hl, ho⟩
  · exact ⟨(hlisted p).mp hp, .refl _ p⟩

end

/-- What is known of a request that is in no line yet survives whatever leaves it alone. -/
structure Pending (L : List Nat) (s : IrqState) (j p : Nat) : Prop extends s.Request L j p where
  unlisted : ¬s.Listed p
  unowned : Irq.owner s.mem p = 0

/-- `irqline_init`. -/
theorem Tables.irqlineInit (h : s.Tables L R) (hj : j < idtEntries) (hnone : s.lines j = none) :
    (s.irqlineInit j).2.Tables L R ∧ Keeps s (s.irqlineInit j).2 ∧ Core s (s.irqlineInit j).2 ∧
      (s.irqlineInit j).2.mem = s.mem ∧
      (∀ q, q ∈ s.kheap.live → q ∈ (s.irqlineInit j).2.kheap.live) ∧
      (∀ q, (s.irqlineInit j).2.Listed q ↔ s.Listed q) ∧
      (s.irqlineInit j).2.threadIrqs = s.threadIrqs := by
  unfold IrqState.irqlineInit
  rw [if_neg (Nat.not_le.mpr hj)]
  obtain ⟨htab, hkeeps, hcore, hmem, hlines, hcases⟩ := h.kmalloc 20
  have hlisted (q : Nat) : (s.kmalloc 20).2.Listed q ↔ s.Listed q := by
    unfold Listed
    rw [hlines]
  have hlive : ∀ q ∈ s.kheap.live, q ∈ (s.kmalloc 20).2.kheap.live := by
    intro q hq
    rcases s.kheap.alloc_cases 20 with ⟨-, hlive, -⟩ | ⟨-, ht⟩
    · exact hlive.symm ▸ hq
    · exact ht.live.symm ▸ List.mem_cons_of_mem _ hq
  have hth : (s.kmalloc 20).2.threadIrqs = s.threadIrqs := rfl
  set s₁ := (s.kmalloc 20).2 with hs₁
  dsimp only
  by_cases hz : (s.kmalloc 20).1 = 0
  · grind
  rw [if_neg hz]
  obtain ⟨locks, hstate, -⟩ := s₁.spinlockAlloc_cases
  rw [hstate]
  obtain ⟨htab₁, hkeeps₁⟩ := htab.withLocks locks
  obtain ⟨htab₂, hkeeps₂, hlisted₂⟩ := htab₁.newLine hj (hlines ▸ hnone) (s.kmalloc 20).1
    s₁.spinlockAlloc.1
  exact ⟨htab₂, (hkeeps.trans hkeeps₁).trans hkeeps₂,
    hcore.trans ⟨rfl, rfl, rfl, rfl, rfl, rfl, rfl, rfl⟩, hmem, hlive,
    fun q => (hlisted₂ q).trans (hlisted q), hth⟩

/-- `irq_alloc`: a request that is in no line yet, or nothing that shows. -/
theorem Tables.irqAlloc (h : s.Tables L R) (hj : j < 2 ^ 32) (minor u : Nat) (tid : Int)
    (name context handler : Nat) :
    ∃ ret out s', s.irqAlloc j minor u tid name context handler = (ret, out, s') ∧
      s'.Tables L R ∧ Keeps s s' ∧ Core s s' ∧ s'.lines = s.lines ∧
      s'.threadIrqs = s.threadIrqs ∧
      (ret ≠ 0 ∧ (out = none ∨ out = some 0) ∨ ret = 0 ∧ ∃ p, out = some p ∧ s'.Pending L j p ∧
        Irq.isUserIrq s'.mem p = u % 2 ^ 32 ∧ Irq.handler s'.mem p = handler % 2 ^ 32) := by
  unfold IrqState.irqAlloc
  obtain ⟨htab, hkeeps, hcore, hmem, hlines, hcases⟩ := h.kmalloc Irq.size
  have hth : (s.kmalloc Irq.size).2.threadIrqs = s.threadIrqs := rfl
  set p := (s.kmalloc Irq.size).1 with hp
  set s₁ := (s.kmalloc Irq.size).2 with hs₁
  dsimp only
  rcases hcases with hz | ⟨hz, ht⟩
  · grind [eNomem_ne_zero]
  rw [if_neg hz]
  set m := initIrq s₁.mem p j minor u tid name context handler with hm
  obtain ⟨locks, hstate, hlock⟩ := (s₁.withMem m).spinlockAlloc_cases
  set lock := (s₁.withMem m).spinlockAlloc.1 with hlockdef
  rw [hstate]
  have hp32 : p + Irq.size ≤ 2 ^ 32 := by
    have hhi := ht.fits.2.2.1
    have hbelow := h.below
    unfold userHeapBase at hbelow
    omega
  -- the block is new, so no request of a line lies in it
  have hapart {q : Nat} (hq : s₁.Listed q) : RangesApart (p, Irq.size) (q, Irq.size) :=
    ht.fits.2.2.2 _ (h.block ((hkeeps q hq).1)).2
  have halike {q : Nat} (hq : s₁.Listed q) : Irq.Alike s₁.mem (store32 m (p + 32) lock) q := by
    have hqb := htab.bounds hq
    have hap := hapart hq
    unfold RangesApart at hap
    unfold userHeapBase at hqb
    refine .of_outside fun x hx hx' => ?_
    exact Irq.initIrq_outside s₁.mem j minor u tid name context handler lock hp32 (by omega)
      (by dsimp only at hap; omega)
  have hunlisted : ¬s₁.Listed p := by grind [Irq.size, RangesApart]
  set s₂ := ((s₁.withMem m).withLocks locks).store (p + 32) lock with hs₂
  have hcore₂ : Core s s₂ := hcore.trans ⟨rfl, rfl, rfl, rfl, rfl, rfl, rfl, rfl⟩
  by_cases hlz : lock = 0
  · rw [if_pos hlz]
    obtain ⟨htab₂, hkeeps₂⟩ := htab.congr (s₂.kfree p) (htab.heap.free p) rfl rfl rfl rfl rfl
      (fun q hq => BlockPool.mem_free.mpr ⟨(htab.block hq).2, fun heq => hunlisted (heq ▸ hq)⟩)
      fun q hq => halike hq
    exact ⟨_, _, _, rfl, htab₂, hkeeps.trans hkeeps₂,
      hcore₂.trans ⟨rfl, rfl, rfl, rfl, rfl, rfl, rfl, rfl⟩, hlines, hth,
      Or.inl ⟨eLimit_ne_zero, Or.inr rfl⟩⟩
  · rw [if_neg hlz]
    obtain ⟨htab₂, hkeeps₂⟩ := htab.congr s₂ htab.heap rfl rfl rfl rfl rfl
      (fun q hq => (htab.block hq).2) fun q hq => halike hq
    obtain ⟨i, hi, hlock⟩ := hlock.resolve_left hlz
    have hlock' : lock = s.spinlocks + 4 * i := hlock
    obtain ⟨hmajor, huser, howner, hsp, hhandler⟩ :=
      Irq.initIrq_fields s₁.mem p j minor u tid name context handler lock
    have hzero : Irq.owner s₂.mem p = 0 := howner
    have htable := h.table.2
    refine ⟨_, _, _, rfl, htab₂, hkeeps.trans hkeeps₂, hcore₂, hlines, hth,
      Or.inr ⟨rfl, p, rfl, ⟨⟨⟨hz, ?_⟩, ?_, ⟨i, hi, ?_⟩, fun hne => absurd hzero hne⟩, hunlisted,
        hzero⟩, huser, hhandler⟩⟩
    · change (p, Irq.size) ∈ s₁.kheap.live
      rw [ht.live]
      exact List.mem_cons_self
    · exact hmajor.trans (Nat.mod_eq_of_lt hj)
    · refine hsp.trans ?_
      rw [hlock']
      exact Nat.mod_eq_of_lt (by omega)

/-- A request gets an owner, or has none. -/
def own (s : IrqState) (p : Nat) : Option Nat → IrqState
  | some t => (s.store (p + 28) (s.tcb t)).setThreadIrqs (s.tcb t) (p :: s.threadIrqs (s.tcb t))
  | none => s

/-- What the new owner changes. -/
theorem Tables.own (h : s.Tables L R) (hp : s.Pending L j p) {t : Option Nat}
    (ht : ∀ t', t = some t' → t' ∈ L) :
    (∀ q, s.Listed q → Irq.Alike s.mem (s.own p t).mem q) ∧
      (Irq.isUserIrq (s.own p t).mem p = Irq.isUserIrq s.mem p ∧
        Irq.handler (s.own p t).mem p = Irq.handler s.mem p ∧
        Irq.owner (s.own p t).mem p = (t.map s.tcb).getD 0) ∧
      (s.own p t).Request L j p ∧
      ∀ t' ∈ L, ((s.own p t).threadIrqs (s.tcb t')).Nodup ∧
        ∀ q ∈ (s.own p t).threadIrqs (s.tcb t'), q ∈ s.threadIrqs (s.tcb t') ∨
          q = p ∧ Irq.owner (s.own p t).mem p = s.tcb t' := by
  cases t with
  | none =>
    exact ⟨fun q _ => .refl _ q, ⟨rfl, rfl, hp.unowned⟩, hp.toRequest, fun t' ht' =>
      ⟨(h.owned t' ht').1, fun q hq => Or.inl hq⟩⟩
  | some t =>
    have hmem := ht t rfl
    obtain ⟨hz, h32, hinj⟩ := h.tcbs t hmem
    have howner : Irq.owner (s.own p (some t)).mem p = s.tcb t :=
      (load32_store32 _ _ _).trans (Nat.mod_eq_of_lt h32)
    have hskip {a : Nat} (ha : a + 4 ≤ p + 28 ∨ p + 32 ≤ a) :
        load32 (s.own p (some t)).mem a = load32 s.mem a :=
      load32_store32_of_disjoint _ _ (by omega)
    have hself : (s.own p (some t)).threadIrqs (s.tcb t) = p :: s.threadIrqs (s.tcb t) :=
      Function.update_self _ _ _
    refine ⟨fun q hq => ?_, ⟨hskip (by omega), hskip (by omega), howner⟩,
      ⟨hp.block, ?_, ?_, fun _ => ?_⟩, fun t' ht' => ?_⟩
    · have hne : (p, Irq.size) ≠ (q, Irq.size) := by
        intro heq
        exact hp.unlisted ((Prod.mk.inj heq).1 ▸ hq)
      have hapart := h.heap.apart_of_ne hp.block.2 (h.block hq).2 hne
      refine .store ?_
      unfold RangesApart Irq.size at hapart ⊢
      omega
    · exact (hskip (by omega)).trans hp.major
    · obtain ⟨i, hi, hlock⟩ := hp.lock
      exact ⟨i, hi, (hskip (by omega)).trans hlock⟩
    · rw [howner, hself]
      exact ⟨List.mem_cons_self, t, hmem, rfl⟩
    · by_cases htt : s.tcb t' = s.tcb t
      · grind [h.owned, hp.unlisted]
      · have hothers : (s.own p (some t)).threadIrqs (s.tcb t') = s.threadIrqs (s.tcb t') :=
          Function.update_of_ne htt _ _
        rw [hothers]
        exact ⟨(h.owned t' ht').1, fun q hq => Or.inl hq⟩

theorem enterLine_eq (s : IrqState) (major : Nat) (line : IrqLine) (p u : Nat) (tid : Int) :
    s.enterLine major line p u tid =
      (s.own p (if u ≠ 0 then s.mail.threadGetByTid tid else none)).setLine major
        { line with irqs := p :: line.irqs } := by
  unfold enterLine IrqState.own
  cases (if u ≠ 0 then s.mail.threadGetByTid tid else none) <;> rfl

/-- A request enters its line. -/
theorem Tables.enterLine (h : s.Tables L R) (hp : s.Pending L j p) {line : IrqLine}
    (hline : s.lines j = some line) (u : Nat) (tid : Int)
    (hkind : Irq.isUserIrq s.mem p ≠ 0 ∨ R (Irq.handler s.mem p))
    (hL : ∀ t, s.mail.threadGetByTid tid = some t → t ∈ L) :
    (s.enterLine j line p u tid).Tables L R ∧ Core s (s.enterLine j line p u tid) ∧
      Joins (Irq.isUserIrq s.mem p) (s.ownerOf u tid) s (s.enterLine j line p u tid) := by
  rw [enterLine_eq]
  set t := if u ≠ 0 then s.mail.threadGetByTid tid else none with ht
  have hmem : ∀ t', t = some t' → t' ∈ L := by grind
  obtain ⟨halike, ⟨huser, hhandler, howner⟩, hreq, hth⟩ := h.own hp hmem
  have hkheap : (s.own p t).kheap = s.kheap := by cases t <;> rfl
  have hlines : (s.own p t).lines = s.lines := by cases t <;> rfl
  have htcb : (s.own p t).tcb = s.tcb := by cases t <;> rfl
  have hsp : (s.own p t).spinlocks = s.spinlocks := by cases t <;> rfl
  have hcore : Core s (s.own p t) := by
    cases t <;> exact ⟨rfl, rfl, rfl, rfl, rfl, rfl, rfl, rfl⟩
  set s₁ := s.own p t with hs₁
  set s₂ := s₁.setLine j { line with irqs := p :: line.irqs } with hs₂
  -- the new lines
  have hself : s₂.lines j = some { line with irqs := p :: line.irqs } := Function.update_self _ _ _
  have hothers {i : Nat} (hij : i ≠ j) : s₂.lines i = s.lines i := by
    rw [← hlines]
    exact Function.update_of_ne hij _ _
  have hcases {i : Nat} {line' : IrqLine} {q : Nat} (hl : s₂.lines i = some line')
      (hq : q ∈ line'.irqs) :
      q = p ∧ i = j ∨ ∃ line₀, s.lines i = some line₀ ∧ q ∈ line₀.irqs := by grind
  have hlisted {q : Nat} (hq : s.Listed q) : s₂.Listed q := by
    obtain ⟨i, line', hl, hq⟩ := hq
    by_cases hij : i = j
    · rw [hij] at hl
      cases hline.symm.trans hl
      exact ⟨j, _, hself, List.mem_cons_of_mem _ hq⟩
    · exact ⟨i, line', (hothers hij).trans hl, hq⟩
  -- the requests that were there are still in the lists of their threads
  have hkept {q : Nat} (o : Nat) (hq : q ∈ s.threadIrqs o) : q ∈ s₂.threadIrqs o := by
    change q ∈ s₁.threadIrqs o
    rw [hs₁]
    cases t with
    | none => exact hq
    | some t' =>
      change q ∈ Function.update s.threadIrqs (s.tcb t') _ o
      by_cases ho : o = s.tcb t'
      · grind
      · rw [Function.update_of_ne ho]
        exact hq
  refine ⟨⟨hkheap ▸ h.heap, hkheap ▸ h.below, hsp ▸ h.table, fun i line' hl => ?_,
    fun i line' hl q hq => ?_, htcb ▸ h.tcbs, fun t' ht' => ⟨?_, fun q hq => ?_⟩⟩,
    hcore.trans ⟨rfl, rfl, rfl, rfl, rfl, rfl, rfl, rfl⟩, fun q hq => ?_⟩
  · by_cases hij : i = j
    · rw [hij, hself] at hl
      rw [hij, ← Option.some.inj hl]
      obtain ⟨hj, hnodup⟩ := h.lines j line hline
      exact ⟨hj, List.nodup_cons.mpr ⟨fun hin => hp.unlisted ⟨j, line, hline, hin⟩, hnodup⟩⟩
    · exact h.lines i line' ((hothers hij).symm.trans hl)
  · rcases hcases hl hq with ⟨rfl, rfl⟩ | ⟨line₀, hl₀, hq₀⟩
    · refine ⟨⟨hreq.block, hreq.major, hreq.lock, hreq.owner⟩, ?_⟩
      change Irq.isUserIrq s₁.mem q ≠ 0 ∨ R (Irq.handler s₁.mem q)
      rw [huser, hhandler]
      exact hkind
    · obtain ⟨hr, hk⟩ := h.requests i line₀ hl₀ q hq₀
      have ha := halike q ⟨i, line₀, hl₀, hq₀⟩
      refine ⟨hr.congr (hkheap ▸ hr.block.2) ha hsp htcb (hkept _), ?_⟩
      change Irq.isUserIrq s₁.mem q ≠ 0 ∨ R (Irq.handler s₁.mem q)
      rw [ha.isUserIrq, ha.handler]
      exact hk
  · change (s₁.threadIrqs (s₁.tcb t')).Nodup
    rw [htcb]
    exact (hth t' ht').1
  · change q ∈ s₁.threadIrqs (s₁.tcb t') at hq
    change s₂.Listed q ∧ Irq.owner s₁.mem q = s₁.tcb t'
    rw [htcb] at hq ⊢
    rcases (hth t' ht').2 q hq with hq | ⟨rfl, ho⟩
    · obtain ⟨hl, ho⟩ := (h.owned t' ht').2 q hq
      exact ⟨hlisted hl, (halike q hl).owner.trans ho⟩
    · exact ⟨⟨j, _, hself, List.mem_cons_self⟩, ho⟩
  · obtain ⟨i, line', hl, hq⟩ := hq
    rcases hcases hl hq with ⟨rfl, -⟩ | ⟨line₀, hl₀, hq₀⟩
    · exact Or.inr ⟨huser, howner⟩
    · exact Or.inl ⟨⟨i, line₀, hl₀, hq₀⟩, halike q ⟨i, line₀, hl₀, hq₀⟩⟩

theorem Tables.mono {R' : Nat → Prop} (h : s.Tables L R) (hR : ∀ f, R f → R' f) :
    s.Tables L R' :=
  ⟨h.heap, h.below, h.table, h.lines, fun j line hl p hp =>
    ⟨(h.requests j line hl p hp).1, (h.requests j line hl p hp).2.imp_right (hR _)⟩, h.tcbs,
    h.owned⟩

/-- A request that did not make it into its line is released. -/
theorem Tables.releasePending (h : s.Tables L R) (hp : s.Pending L j p) (hj : j < idtEntries) :
    (s.irqReleaseInternal p).Tables L R ∧ Keeps s (s.irqReleaseInternal p) ∧
      Core s (s.irqReleaseInternal p) := by
  obtain ⟨masked, locks, heq⟩ := hp.toRequest.release hj h.table.1
  rw [heq]
  obtain ⟨htab, hkeeps⟩ := h.without (p := p) masked locks
  exact ⟨htab, hkeeps, core_without s p masked locks⟩

/-- The line of a request is there, or is made, or there is no memory for it. -/
theorem Tables.ensureLine (h : s.Tables L R) (hj : j < idtEntries) :
    let r := if s.lines j = none then s.irqlineInit j else (0, s)
    r.2.Tables L R ∧ Keeps s r.2 ∧ Core s r.2 ∧ ∀ p, s.Pending L j p → r.2.Pending L j p := by
  intro r
  by_cases hnone : s.lines j = none
  · have hr : r = s.irqlineInit j := if_pos hnone
    rw [hr]
    obtain ⟨htab, hkeeps, hcore, hmem, hlive, hlisted, hth⟩ := h.irqlineInit hj hnone
    refine ⟨htab, hkeeps, hcore, fun p hp => ?_⟩
    have halike : Irq.Alike s.mem (s.irqlineInit j).2.mem p := by
      rw [hmem]
      exact .refl _ p
    exact ⟨hp.toRequest.congr (hlive _ hp.block.2) halike hcore.spinlocks hcore.tcb (hth ▸ id),
      fun hl => hp.unlisted ((hlisted p).mp hl), halike.owner.trans hp.unowned⟩
  · have hr : r = (0, s) := if_neg hnone
    rw [hr]
    exact ⟨h, .refl s, .refl s, fun _ hp => hp⟩

/-- The functions that are registered after a request, if it is one of the kernel and succeeds. -/
def Registers (R : Nat → Prop) (ret : Int) (u handler f : Nat) : Prop :=
  R f ∨ ret = 0 ∧ u = 0 ∧ f = handler % 2 ^ 32

/-- The part of `irq_request_internal` that begins with the new request. -/
theorem Tables.irqRequestNew (h : s.Tables L R) (hj : j < idtEntries)
    (out name minor handler context : Nat) {u : Nat} (hu : u = 0 ∨ u = 1) (tid : Int)
    (hL : ∀ t, s.mail.threadGetByTid tid = some t → t ∈ L) :
    let r := s.irqRequestNew out name j minor handler context u tid
    r.2.2.Tables L (Registers R r.1 u handler) ∧ Core s r.2.2 ∧
      Joins u (s.ownerOf u tid) s r.2.2 := by
  have hj32 : j < 2 ^ 32 := by
    unfold idtEntries at hj
    omega
  have hu32 : u % 2 ^ 32 = u := by
    rcases hu with rfl | rfl <;> rfl
  have hmono {R' : Nat → Prop} {ret : Int} (f : Nat) (hf : R' f) : Registers R' ret u handler f :=
    Or.inl hf
  obtain ⟨ret, o, s₁, heq, htab, hkeeps, hcore, hlines, hth, hcases⟩ :=
    h.irqAlloc hj32 minor u tid name context handler
  unfold IrqState.irqRequestNew
  rw [heq]
  rcases hcases with ⟨hret, rfl | rfl⟩ | ⟨rfl, p, rfl, hp, huser, hhandler⟩
  · exact ⟨htab.mono hmono, hcore, hkeeps.joins u _⟩
  · grind [htab.mono, hkeeps.joins]
  dsimp only
  have hgood : ¬((0 : Int) ≠ 0 ∨ p = 0) := not_or.mpr ⟨not_not.mpr rfl, hp.block.1⟩
  rw [if_neg hgood]
  obtain ⟨htab₂, hkeeps₂, hcore₂, hpend⟩ := htab.ensureLine hj
  have hp₂ := hpend p hp
  set r := if s₁.lines j = none then s₁.irqlineInit j else (0, s₁) with hr
  have hmem : r.2.mem = s₁.mem := by grind [htab.irqlineInit]
  by_cases hret : r.1 ≠ 0
  · rw [if_pos hret]
    obtain ⟨htab₃, hkeeps₃, hcore₃⟩ := htab₂.releasePending hp₂ hj
    exact ⟨htab₃.mono hmono, (hcore.trans hcore₂).trans hcore₃,
      ((hkeeps.trans hkeeps₂).trans hkeeps₃).joins u _⟩
  rw [if_neg hret]
  split
  · exact ⟨htab₂.mono hmono, hcore.trans hcore₂, (hkeeps.trans hkeeps₂).joins u _⟩
  · rename_i line hline
    by_cases hused : r.2.minorUsed line minor
    · rw [if_pos hused]
      obtain ⟨htab₃, hkeeps₃, hcore₃⟩ := htab₂.releasePending hp₂ hj
      exact ⟨htab₃.mono hmono, (hcore.trans hcore₂).trans hcore₃,
        ((hkeeps.trans hkeeps₂).trans hkeeps₃).joins u _⟩
    · rw [if_neg hused]
      rw [← hmem, hu32] at huser
      rw [← hmem] at hhandler
      have hkind : Irq.isUserIrq r.2.mem p ≠ 0 ∨
          Registers R 0 u handler (Irq.handler r.2.mem p) := by
        rw [huser, hhandler]
        rcases hu with rfl | rfl
        · exact Or.inr (Or.inr ⟨rfl, rfl, rfl⟩)
        · exact Or.inl Nat.one_ne_zero
      have hsched := (hcore.trans hcore₂).sched
      obtain ⟨htab₃, hcore₃, hjoins⟩ := (htab₂.mono hmono).enterLine hp₂ hline u tid hkind
        fun t ht => hL t (by
          unfold MailState.threadGetByTid at ht ⊢
          rw [hsched] at ht
          exact ht)
      rw [huser, (hcore.trans hcore₂).ownerOf] at hjoins
      exact ⟨htab₃, (hcore.trans hcore₂).trans hcore₃, hjoins.after (hkeeps.trans hkeeps₂)⟩

/-- `irq_request_internal`. -/
theorem Tables.request (h : s.Tables L R) (proc : Option Pcb)
    (out name major minor handler context : Nat) {u : Nat} (hu : u = 0 ∨ u = 1) (tid : Int)
    (hL : ∀ t, s.mail.threadGetByTid tid = some t → t ∈ L) :
    let r := s.irqRequestInternal proc out name major minor handler context u tid
    r.2.2.Tables L (Registers R r.1 u handler) ∧ Core s r.2.2 ∧
      Joins u (s.ownerOf u tid) s r.2.2 := by
  have hmono {ret : Int} (f : Nat) (hf : R f) : Registers R ret u handler f := Or.inl hf
  have hsame (ret : Int) : s.Tables L (Registers R ret u handler) ∧ Core s s ∧
      Joins u (s.ownerOf u tid) s s := ⟨h.mono hmono, .refl s, (Keeps.refl s).joins u _⟩
  unfold IrqState.irqRequestInternal
  by_cases hmajor : major ≥ idtEntries
  · rw [if_pos hmajor]
    exact hsame _
  rw [if_neg hmajor]
  have hj : major < idtEntries := Nat.not_le.mp hmajor
  by_cases hperm : ¬irqPermitted proc major
  · rw [if_pos hperm]
    exact hsame _
  rw [if_neg hperm]
  by_cases hminor : minor ≠ irqAnyMinor
  · grind [h.irqRequestNew]
  obtain ⟨htab, hkeeps, hcore, -⟩ := h.ensureLine hj
  set r := if s.lines major = none then s.irqlineInit major else (0, s) with hr
  have hline (ret : Int) : r.2.Tables L (Registers R ret u handler) ∧ Core s r.2 ∧
      Joins u (s.ownerOf u tid) s r.2 := ⟨htab.mono hmono, hcore, hkeeps.joins u _⟩
  dsimp only
  split_ifs with hret
  · exact hline _
  · split
    · exact hline _
    · split_ifs
      · exact hline _
      · have hL' : ∀ t, r.2.mail.threadGetByTid tid = some t → t ∈ L := by
          intro t ht
          unfold MailState.threadGetByTid at ht
          rw [hcore.sched] at ht
          exact hL t ht
        obtain ⟨h₁, h₂, h₃⟩ := htab.irqRequestNew hj out name
          (r.2.irqlineFindFreeMinor _) handler context hu tid hL'
        rw [hcore.ownerOf] at h₃
        exact ⟨h₁, hcore.trans h₂, h₃.after hkeeps⟩

end IrqState

end Ukernel.Kernel
