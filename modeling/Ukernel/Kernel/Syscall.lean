import Ukernel.Arch.UserRange
import Ukernel.Kernel.Errno
import Ukernel.Lib.Pool

/-!
# The system call gate

`kernel/syscall.c`: a call from user mode is answered by a handler that works on a copy of the
caller's parameters. The copy lies in one buffer that all calls share; only for parameters that are
too large for it a block of the heap is taken.

## What a handler may do

A handler is any function of the state of the kernel and of the bytes it is given. It may change
everything: user memory, the page tables, the heap, and who runs next. So what the gate itself does
to user memory is what differs between the state that the handler leaves and the state after the
call.

User memory is physical memory behind the translation of the active directory, and two user
addresses may be translated to the same byte. The statements about what is written are therefore
about physical bytes: each one that changes is the translation of an address of the caller's range.

## Main definitions

* `GateState`, `Handler`, `Syscall`: the kernel as the gate sees it
* `copyFromUser`, `copyToUser`: validated copies
* `syscallDispatch`: the gate; its result records the run of the handler

## Main results

* `validate_iff`: what the validation of a range means for its bytes
* `storeBytes_apply`, `copyToUser_cases`: what a copy to user memory writes
* `dispatchRing3_cases`: a call from user mode fails before its handler, or runs it once
* `syscallDispatch_confined`: what handlers are run on, and what is written back
-/

namespace Ukernel.Kernel

open Arch Lib Machine

variable {σ : Type*}

/-- The kernel as the gate sees it: physical memory, the page tables with the active directory, the
thread that runs, the heap, and all the rest. -/
structure GateState (σ : Type*) where
  mem : Memory
  paging : Paging
  cr3 : Nat
  /-- `thread_get_tid`. -/
  tid : Int
  kheap : Pool
  rest : σ

/-- A handler, on the state and the bytes of its parameters: the answer, the new state, and the
parameters as it leaves them, by offset. -/
abbrev Handler (σ : Type*) := GateState σ → List Byte → Int × GateState σ × (Nat → Byte)

/-- `syscall`. -/
structure Syscall (σ : Type*) where
  handle : Int
  fn : Handler σ
  maxParamSize : Nat

/-- The state with the bytes of `syscall_kbuf`, and what a new block of the heap happens to hold. -/
structure SyscallState (σ : Type*) where
  gate : GateState σ
  kbuf : Nat → Byte
  junk : Nat → Byte

/-- The run of a handler: the state and the parameters that it was given, its answer, and the state
and the parameters that it left. -/
structure Ran (σ : Type*) where
  before : GateState σ
  params : List Byte
  ret : Int
  after : GateState σ
  out : Nat → Byte

/-- Run a handler. -/
def Syscall.run (sc : Syscall σ) (g : GateState σ) (params : List Byte) : Ran σ :=
  let (ret, after, out) := sc.fn g params
  ⟨g, params, ret, after, out⟩

/-- The answer to a call, the new state and, for the record, the run of the handler. -/
structure Dispatched (σ : Type*) where
  ret : Int
  state : SyscallState σ
  ran : Option (Ran σ)

/-- `SYSCALL_KBUF_MAX`. -/
def syscallKbufMax : Nat := 512

namespace GateState

/-- The physical address of a byte of user memory. -/
def phys (g : GateState σ) (va : Nat) : Nat :=
  match walk g.paging g.cr3 va with
  | some t => t.frame * 4096 + va % 4096
  | none => 0

/-- The byte at an address of user memory. -/
def byteAt (g : GateState σ) (va : Nat) : Byte := g.mem (g.phys va)

/-- Write a byte of user memory. -/
def storeAt (g : GateState σ) (va : Nat) (b : Byte) : GateState σ :=
  { g with mem := Function.update g.mem (g.phys va) b }

/-- Replace the heap. -/
def withKheap (g : GateState σ) (kheap : Pool) : GateState σ := { g with kheap }

/-- `arch_validate_user_range` in the active directory. -/
def validate (g : GateState σ) (va n : Nat) (forWrite : Bool) : Bool :=
  (archValidateUserRange g.paging g.cr3 va n forWrite).getD false

/-- The bytes of a range lie in user space, and user mode may read or write them. -/
def UserRange (g : GateState σ) (forWrite : Bool) (va n : Nat) : Prop :=
  ∀ a, va ≤ a → a < va + n → a < userSpaceTop ∧ UserByte g.paging g.cr3 forWrite a

end GateState

/-- `copy_from_user`, to a buffer. -/
def copyFromUser (g : GateState σ) (dst : Nat → Byte) (userSrc n : Nat) : Int × (Nat → Byte) :=
  if userSrc = 0 then (eFault, dst)
  else if g.validate userSrc n false then
    (0, fun i => if i < n then g.byteAt (userSrc + i) else dst i)
  else (eFault, dst)

/-- `memcpy` to user memory, byte by byte. -/
def storeBytes (g : GateState σ) (userDst : Nat) (src : Nat → Byte) (n : Nat) : GateState σ :=
  (List.range n).foldl (fun g i => g.storeAt (userDst + i) (src i)) g

/-- `copy_to_user`, from a buffer. -/
def copyToUser (g : GateState σ) (userDst : Nat) (src : Nat → Byte) (n : Nat) :
    Int × GateState σ :=
  if userDst = 0 then (eFault, g)
  else if g.validate userDst n true then (0, storeBytes g userDst src n)
  else (eFault, g)

/-- The search of `syscall_dispatch` for a handle. -/
def findSyscall (table : List (Syscall σ)) (handle : Nat) : Option (Syscall σ) :=
  table.find? fun sc => sc.handle % 2 ^ 32 == handle

/-- The part of `syscall_dispatch` after the handler: the answer and the new state. `left` is what
the buffer holds, and `release` frees it. Where the handler has switched the caller away, nothing is
delivered, and a block of the heap is lost. -/
def writeBack (release : GateState σ → GateState σ) (r : Ran σ) (left : Nat → Byte) (arg n : Nat) :
    Int × GateState σ :=
  if r.after.tid = r.before.tid ∧ r.after.cr3 = r.before.cr3 then
    let (err, g) := copyToUser r.after arg left n
    (if err ≠ 0 ∧ r.ret = 0 then eFault else r.ret, release g)
  else (r.ret, r.after)

/-- The part of `syscall_dispatch` from the copy of the parameters on, with a buffer of zeros: the
answer, the new state, what the buffer holds, and the run of the handler. -/
def dispatchBuffer (sc : Syscall σ) (release : GateState σ → GateState σ) (g : GateState σ)
    (zeroed : Nat → Byte) (arg n : Nat) : Int × GateState σ × (Nat → Byte) × Option (Ran σ) :=
  let (err, buf) := copyFromUser g zeroed arg n
  if err ≠ 0 then (eFault, release g, buf, none)
  else
    let r := sc.run g ((List.range sc.maxParamSize).map buf)
    let left := fun i => if i < sc.maxParamSize then r.out i else buf i
    let (ret, g) := writeBack release r left arg n
    (ret, g, left, some r)

/-- `memset` on a buffer, with zeros. -/
def zeroBuffer (bufSize : Nat) (old : Nat → Byte) (i : Nat) : Byte :=
  if i < bufSize then 0 else old i

/-- The part of `syscall_dispatch` for callers in user mode. -/
def dispatchRing3 (sc : Syscall σ) (s : SyscallState σ) (arg size : Nat) : Dispatched σ :=
  let n := if size < sc.maxParamSize then size else sc.maxParamSize
  let bufSize := if sc.maxParamSize ≠ 0 then sc.maxParamSize else 1
  if syscallKbufMax < bufSize then
    let (a, kheap) := s.gate.kheap.alloc
    let g := s.gate.withKheap kheap
    if a = 0 then ⟨eNomem, { s with gate := g }, none⟩
    else
      let (ret, g, _, ran) := dispatchBuffer sc (fun g => g.withKheap (g.kheap.free a)) g
        (zeroBuffer bufSize s.junk) arg n
      ⟨ret, { s with gate := g }, ran⟩
  else
    let (ret, gate, kbuf, ran) :=
      dispatchBuffer sc id s.gate (zeroBuffer bufSize s.kbuf) arg n
    ⟨ret, { s with gate, kbuf }, ran⟩

/-- `syscall_dispatch`; callers in the kernel have their handlers work on their own memory. -/
def syscallDispatch (ring3 : Bool) (table : List (Syscall σ)) (s : SyscallState σ)
    (handle arg size : Nat) : Dispatched σ :=
  match findSyscall table handle with
  | none => ⟨eNotfound, s, none⟩
  | some sc =>
    if ring3 then dispatchRing3 sc s arg size
    else
      let params := (List.range sc.maxParamSize).map fun i => s.gate.mem ((arg + i) % 2 ^ 32)
      let r := sc.run s.gate params
      let g := { r.after with mem := memcpy r.after.mem arg r.out sc.maxParamSize }
      ⟨r.ret, { s with gate := g }, some r⟩

/-! ## Copies -/

/-- What the validation of a range means for its bytes. -/
theorem validate_iff (g : GateState σ) (forWrite : Bool) {va n : Nat} (hva : va < 2 ^ 32)
    (hn : n < 2 ^ 32) : g.validate va n forWrite = true ↔ g.UserRange forWrite va n := by
  unfold GateState.validate
  rcases Nat.eq_zero_or_pos n with rfl | hpos
  · exact ⟨fun _ a h₁ h₂ => by omega, fun _ => rfl⟩
  · obtain ⟨ok, heq, hok⟩ := archValidateUserRange_spec g.paging g.cr3 forWrite hpos hva hn
    rw [heq, Option.getD_some, hok]
    constructor
    · exact fun h a h₁ h₂ => ⟨by omega, h.2 a h₁ h₂⟩
    · -- the last byte lies below the top, and so does the range
      intro h
      have hlast := (h (va + n - 1) (by omega) (by omega)).1
      exact ⟨by omega, fun a h₁ h₂ => (h a h₁ h₂).2⟩

theorem storeBytes_succ (g : GateState σ) (userDst n : Nat) (src : Nat → Byte) :
    storeBytes g userDst src (n + 1) =
      (storeBytes g userDst src n).storeAt (userDst + n) (src n) := by
  unfold storeBytes
  rw [List.range_succ, List.foldl_append]
  rfl

theorem phys_storeBytes (g : GateState σ) (userDst n va : Nat) (src : Nat → Byte) :
    (storeBytes g userDst src n).phys va = g.phys va := by
  induction n with
  | zero => rfl
  | succ n ih =>
    rw [storeBytes_succ]
    exact ih

/-- A byte is the one that it was, or a byte that was copied to its address. -/
theorem storeBytes_apply (g : GateState σ) (userDst n : Nat) (src : Nat → Byte) (x : Nat) :
    ((∀ i < n, g.phys (userDst + i) ≠ x) ∧ (storeBytes g userDst src n).mem x = g.mem x) ∨
      ∃ i < n, g.phys (userDst + i) = x ∧ (storeBytes g userDst src n).mem x = src i := by
  induction n with
  | zero => exact Or.inl ⟨fun i hi => absurd hi (Nat.not_lt_zero i), rfl⟩
  | succ n ih =>
    rw [storeBytes_succ]
    unfold GateState.storeAt
    rw [phys_storeBytes]
    by_cases hx : g.phys (userDst + n) = x
    · grind
    · grind

/-- A copy to user memory fails and does nothing, or the range is writable and the bytes of the
range are replaced. -/
theorem copyToUser_cases (g : GateState σ) {userDst n : Nat} (src : Nat → Byte)
    (hdst : userDst < 2 ^ 32) (hn : n < 2 ^ 32) :
    ((userDst = 0 ∨ ¬g.UserRange true userDst n) ∧ (copyToUser g userDst src n).2 = g) ∨
      userDst ≠ 0 ∧ g.UserRange true userDst n ∧
        (copyToUser g userDst src n).2 = storeBytes g userDst src n := by
  unfold copyToUser
  split_ifs with hnull hvalid
  · exact Or.inl ⟨Or.inl hnull, rfl⟩
  · exact Or.inr ⟨hnull, (validate_iff g true hdst hn).mp hvalid, rfl⟩
  · grind [validate_iff]

/-- A copy from user memory fails, or the range is readable and the buffer holds its bytes. -/
theorem copyFromUser_cases (g : GateState σ) {userSrc n : Nat} (dst : Nat → Byte)
    (hsrc : userSrc < 2 ^ 32) (hn : n < 2 ^ 32) :
    ((userSrc = 0 ∨ ¬g.UserRange false userSrc n) ∧
        copyFromUser g dst userSrc n = (eFault, dst)) ∨
      (userSrc ≠ 0 ∧ g.UserRange false userSrc n) ∧ copyFromUser g dst userSrc n =
        (0, fun i => if i < n then g.byteAt (userSrc + i) else dst i) := by
  unfold copyFromUser
  split_ifs with hnull hvalid
  · exact Or.inl ⟨Or.inl hnull, rfl⟩
  · exact Or.inr ⟨⟨hnull, (validate_iff g false hsrc hn).mp hvalid⟩, rfl⟩
  · grind [validate_iff]

/-! ## A call from user mode -/

/-- The parameters that a handler gets: the first bytes of the caller, and then zeros. -/
def paramsOf (g : GateState σ) (arg n maxParamSize : Nat) : List Byte :=
  (List.range n).map (fun i => g.byteAt (arg + i)) ++ List.replicate (maxParamSize - n) 0

theorem map_paramsOf (g : GateState σ) (arg : Nat) {n maxParamSize : Nat} (hn : n ≤ maxParamSize)
    (buf : Nat → Byte) (hbuf : ∀ i < maxParamSize,
      buf i = if i < n then g.byteAt (arg + i) else 0) :
    (List.range maxParamSize).map buf = paramsOf g arg n maxParamSize := by
  obtain ⟨k, rfl⟩ := Nat.exists_eq_add_of_le hn
  unfold paramsOf
  rw [List.range_add, List.map_append, List.map_map, Nat.add_sub_cancel_left]
  congr 1
  · grind [List.map_congr_left]
  · rw [List.eq_replicate_iff]
    refine ⟨by simp, fun b hb => ?_⟩
    obtain ⟨i, hi, rfl⟩ := List.mem_map.mp hb
    have hlt := List.mem_range.mp hi
    exact (hbuf (n + i) (by omega)).trans (if_neg (by omega))

/-- The state in which a handler runs is that of the call, but for the heap. -/
structure SameGate (g g' : GateState σ) : Prop where
  mem : g'.mem = g.mem
  paging : g'.paging = g.paging
  cr3 : g'.cr3 = g.cr3
  tid : g'.tid = g.tid
  rest : g'.rest = g.rest

theorem SameGate.userRange {g g' : GateState σ} (h : SameGate g g') {forWrite : Bool} {va n : Nat} :
    g'.UserRange forWrite va n ↔ g.UserRange forWrite va n := by
  unfold GateState.UserRange
  rw [h.paging, h.cr3]

/-- What the gate does to physical memory after the run of a handler. -/
structure Delivers (r : Ran σ) (arg n : Nat) (mem : Memory) : Prop where
  changed : ∀ x, mem x ≠ r.after.mem x →
    r.after.tid = r.before.tid ∧ r.after.cr3 = r.before.cr3 ∧ r.after.UserRange true arg n ∧
      ∃ i < n, r.after.phys (arg + i) = x ∧ mem x = r.out i
  delivered : arg ≠ 0 → r.after.tid = r.before.tid → r.after.cr3 = r.before.cr3 →
    r.after.UserRange true arg n → ∀ i < n,
      (∀ j < n, r.after.phys (arg + j) = r.after.phys (arg + i) → j = i) →
        mem (r.after.phys (arg + i)) = r.out i

theorem writeBack_delivers {release : GateState σ → GateState σ}
    (hrelease : ∀ g, (release g).mem = g.mem) (r : Ran σ) {left : Nat → Byte} {arg n : Nat}
    (harg : arg < 2 ^ 32) (hn : n < 2 ^ 32) (hleft : ∀ i < n, left i = r.out i) :
    Delivers r arg n (writeBack release r left arg n).2.mem := by
  unfold writeBack
  split_ifs with hstay
  · rw [hrelease]
    rcases copyToUser_cases r.after left harg hn with ⟨hfail, hmem⟩ | ⟨hnull, hrange, hmem⟩
    · rw [hmem]
      refine ⟨fun x hx => absurd rfl hx, fun hnull _ _ hrange => ?_⟩
      exact absurd hrange (hfail.resolve_left hnull)
    · constructor
      · grind [storeBytes_apply]
      · grind [storeBytes_apply]
  · refine ⟨fun x hx => absurd rfl hx, fun _ htid hcr3 => ?_⟩
    exact absurd ⟨htid, hcr3⟩ hstay

/-- What is written back are the first bytes of the buffer. -/
theorem writeBack_congr (release : GateState σ → GateState σ) (r : Ran σ) {left : Nat → Byte}
    (left' : Nat → Byte) (arg : Nat) {n : Nat} (h : ∀ i < n, left i = left' i) :
    writeBack release r left arg n = writeBack release r left' arg n := by
  have hbytes : storeBytes r.after arg left n = storeBytes r.after arg left' n := by
    refine List.foldl_ext _ _ _ fun g i hi => ?_
    rw [h i (List.mem_range.mp hi)]
  have hcopy : copyToUser r.after arg left n = copyToUser r.after arg left' n := by
    unfold copyToUser
    rw [hbytes]
  unfold writeBack
  rw [hcopy]

/-- From the copy on, a call fails and leaves memory alone, or runs the handler once, on the first
bytes of the caller and zeros, and writes back what it leaves. What happens does not depend on the
bytes of the buffer after the parameters. -/
theorem dispatchBuffer_cases (sc : Syscall σ) (release : GateState σ → GateState σ)
    (hrelease : ∀ g, (release g).mem = g.mem) (g : GateState σ) {arg n : Nat}
    (harg : arg < 2 ^ 32) (hn : n < 2 ^ 32) (hle : n ≤ sc.maxParamSize) :
    ((arg = 0 ∨ ¬g.UserRange false arg n) ∧ ∀ zeroed : Nat → Byte, ∃ buf,
        dispatchBuffer sc release g zeroed arg n = (eFault, release g, buf, none)) ∨
      (arg ≠ 0 ∧ g.UserRange false arg n) ∧ ∃ ret g',
        Delivers (sc.run g (paramsOf g arg n sc.maxParamSize)) arg n g'.mem ∧
        ∀ zeroed : Nat → Byte, (∀ i < sc.maxParamSize, zeroed i = 0) → ∃ buf,
          dispatchBuffer sc release g zeroed arg n =
            (ret, g', buf, some (sc.run g (paramsOf g arg n sc.maxParamSize))) := by
  by_cases hrange : arg ≠ 0 ∧ g.UserRange false arg n
  · set r := sc.run g (paramsOf g arg n sc.maxParamSize) with hr
    refine Or.inr ⟨hrange, (writeBack release r r.out arg n).1, (writeBack release r r.out arg n).2,
      writeBack_delivers hrelease r harg hn fun _ _ => rfl, fun zeroed hzero => ?_⟩
    rcases copyFromUser_cases g zeroed harg hn with ⟨hfail, -⟩ | ⟨-, hcopy⟩
    · exact absurd hrange (by tauto)
    -- the buffer holds the parameters, and after the handler what it has left
    have hparams := map_paramsOf g arg hle
      (fun i => if i < n then g.byteAt (arg + i) else zeroed i) fun i hi => by
        rw [hzero i hi]
    unfold dispatchBuffer
    rw [hcopy]
    dsimp only
    rw [if_neg (by decide), hparams, ← hr]
    exact ⟨_, by rw [writeBack_congr release r r.out arg fun i hi => if_pos (by omega)]⟩
  · refine Or.inl ⟨by tauto, fun zeroed => ?_⟩
    rcases copyFromUser_cases g zeroed harg hn with ⟨-, hcopy⟩ | ⟨hok, -⟩
    · unfold dispatchBuffer
      rw [hcopy]
      exact ⟨_, if_pos eFault_ne_zero⟩
    · exact absurd hok hrange

/-- Why a call from user mode fails before its handler runs. -/
def Refused (sc : Syscall σ) (g : GateState σ) (arg n : Nat) : Prop :=
  arg = 0 ∨ ¬g.UserRange false arg n ∨
    (syscallKbufMax < sc.maxParamSize ∧ g.kheap.alloc.1 = 0)

theorem copySize_eq (sc : Syscall σ) (size : Nat) :
    (if size < sc.maxParamSize then size else sc.maxParamSize) = min size sc.maxParamSize := by
  split_ifs <;> omega

/-- The parameters are zeroed. -/
theorem zeroBuffer_params (sc : Syscall σ) (old : Nat → Byte) (i : Nat)
    (hi : i < sc.maxParamSize) :
    zeroBuffer (if sc.maxParamSize ≠ 0 then sc.maxParamSize else 1) old i = 0 :=
  if_pos (by split_ifs <;> omega)

/-- A call with small parameters uses the buffer that all calls share. -/
theorem dispatchRing3_small {sc : Syscall σ} (h : ¬syscallKbufMax < sc.maxParamSize)
    (s : SyscallState σ) (arg size : Nat) : ∃ zeroed : Nat → Byte,
      (∀ i < sc.maxParamSize, zeroed i = 0) ∧
      ∀ d, dispatchBuffer sc id s.gate zeroed arg (min size sc.maxParamSize) = d →
        dispatchRing3 sc s arg size = ⟨d.1, ⟨d.2.1, d.2.2.1, s.junk⟩, d.2.2.2⟩ := by
  refine ⟨zeroBuffer _ s.kbuf, zeroBuffer_params sc s.kbuf, ?_⟩
  rintro d rfl
  have hsmall : ¬syscallKbufMax < if sc.maxParamSize ≠ 0 then sc.maxParamSize else 1 := by
    unfold syscallKbufMax at h ⊢
    split_ifs <;> omega
  unfold dispatchRing3
  rw [if_neg hsmall, copySize_eq]

/-- A call with large parameters takes a block of the heap. -/
theorem dispatchRing3_large {sc : Syscall σ} (h : syscallKbufMax < sc.maxParamSize)
    (s : SyscallState σ) (arg size : Nat) {a : Nat} {kheap : Pool}
    (halloc : s.gate.kheap.alloc = (a, kheap)) : ∃ zeroed : Nat → Byte,
      (∀ i < sc.maxParamSize, zeroed i = 0) ∧
      ∀ d, dispatchBuffer sc (fun g => g.withKheap (g.kheap.free a)) (s.gate.withKheap kheap)
          zeroed arg (min size sc.maxParamSize) = d →
        dispatchRing3 sc s arg size =
          if a = 0 then ⟨eNomem, { s with gate := s.gate.withKheap kheap }, none⟩
          else ⟨d.1, { s with gate := d.2.1 }, d.2.2.2⟩ := by
  refine ⟨zeroBuffer _ s.junk, zeroBuffer_params sc s.junk, ?_⟩
  rintro d rfl
  have hlarge : syscallKbufMax < if sc.maxParamSize ≠ 0 then sc.maxParamSize else 1 := by
    split_ifs <;> omega
  unfold dispatchRing3
  rw [if_pos hlarge, copySize_eq, halloc]

/-- A call from user mode fails before its handler and leaves memory alone, or runs it once, on the
first bytes of the caller and zeros, and writes back what it leaves. What happens does not
depend on what the buffers held before. -/
theorem dispatchRing3_cases (sc : Syscall σ) (g : GateState σ) {arg size n : Nat}
    (harg : arg < 2 ^ 32) (hsize : size < 2 ^ 32) (hn : n = min size sc.maxParamSize) :
    (Refused sc g arg n ∧ ∃ ret g', g'.mem = g.mem ∧
        ∀ kbuf junk, ∃ kbuf', dispatchRing3 sc ⟨g, kbuf, junk⟩ arg size =
          ⟨ret, ⟨g', kbuf', junk⟩, none⟩) ∨
      ¬Refused sc g arg n ∧ ∃ ret g₀ g', SameGate g g₀ ∧
        Delivers (sc.run g₀ (paramsOf g arg n sc.maxParamSize)) arg n g'.mem ∧
        ∀ kbuf junk, ∃ kbuf', dispatchRing3 sc ⟨g, kbuf, junk⟩ arg size =
          ⟨ret, ⟨g', kbuf', junk⟩, some (sc.run g₀ (paramsOf g arg n sc.maxParamSize))⟩ := by
  have hlt : n < 2 ^ 32 := by omega
  have hle : n ≤ sc.maxParamSize := by omega
  subst hn
  by_cases hheap : syscallKbufMax < sc.maxParamSize
  · rcases halloc : g.kheap.alloc with ⟨a, kheap⟩
    have hsame : SameGate g (g.withKheap kheap) := ⟨rfl, rfl, rfl, rfl, rfl⟩
    by_cases ha : a = 0
    · -- there is no block for the buffer
      refine Or.inl ⟨Or.inr (Or.inr ⟨hheap, by rw [halloc]; exact ha⟩), eNomem, g.withKheap kheap,
        rfl, fun kbuf junk => ⟨kbuf, ?_⟩⟩
      obtain ⟨zeroed, -, heq⟩ := dispatchRing3_large hheap ⟨g, kbuf, junk⟩ arg size halloc
      rw [heq _ rfl, if_pos ha]
    rcases dispatchBuffer_cases sc (fun g => g.withKheap (g.kheap.free a))
      (fun _ => rfl) (g.withKheap kheap) harg hlt hle with
      ⟨hfail, hrun⟩ | ⟨hok, ret, g', hdel, hrun⟩
    · refine Or.inl ⟨hfail.imp_right Or.inl, eFault, g.withKheap (kheap.free a), rfl,
        fun kbuf junk => ⟨kbuf, ?_⟩⟩
      obtain ⟨zeroed, -, heq⟩ := dispatchRing3_large hheap ⟨g, kbuf, junk⟩ arg size halloc
      obtain ⟨buf, hbuf⟩ := hrun zeroed
      rw [heq _ hbuf, if_neg ha]
      rfl
    · refine Or.inr ⟨?_, ret, g.withKheap kheap, g', hsame, hdel, fun kbuf junk => ⟨kbuf, ?_⟩⟩
      · rintro (h | h | h)
        · exact hok.1 h
        · exact h hok.2
        · rw [halloc] at h
          exact ha h.2
      · obtain ⟨zeroed, hzero, heq⟩ := dispatchRing3_large hheap ⟨g, kbuf, junk⟩ arg size halloc
        obtain ⟨buf, hbuf⟩ := hrun zeroed hzero
        rw [heq _ hbuf, if_neg ha]
        rfl
  · rcases dispatchBuffer_cases sc id (fun _ => rfl) g harg hlt hle with
      ⟨hfail, hrun⟩ | ⟨hok, ret, g', hdel, hrun⟩
    · refine Or.inl ⟨hfail.imp_right Or.inl, eFault, g, rfl, fun kbuf junk => ?_⟩
      obtain ⟨zeroed, -, heq⟩ := dispatchRing3_small hheap ⟨g, kbuf, junk⟩ arg size
      obtain ⟨buf, hbuf⟩ := hrun zeroed
      exact ⟨buf, heq _ hbuf⟩
    · refine Or.inr ⟨?_, ret, g, g', ⟨rfl, rfl, rfl, rfl, rfl⟩, hdel, fun kbuf junk => ?_⟩
      · rintro (h | h | h)
        · exact hok.1 h
        · exact h hok.2
        · exact hheap h.1
      · obtain ⟨zeroed, hzero, heq⟩ := dispatchRing3_small hheap ⟨g, kbuf, junk⟩ arg size
        obtain ⟨buf, hbuf⟩ := hrun zeroed hzero
        exact ⟨buf, heq _ hbuf⟩

/-- A call from user mode is confined, and does not depend on earlier calls. The handler is run only
on the first `min size maxParamSize` bytes of the caller, followed by zeros, and in the state of the
call; it is not run where those bytes are not readable, nor on a null pointer, nor where there is no
memory for a buffer, and otherwise it is. If it is not run, memory stays. If it is, every byte of
memory that then changes is a byte of that range, where the caller was not switched away and the
range is writable, and gets a byte that the handler has left for an address of the range; where the
range leads to the byte only once, it gets just that one. What the buffers held does not matter. -/
theorem syscallDispatch_confined (table : List (Syscall σ)) (g : GateState σ)
    (kbuf junk : Nat → Byte) (handle arg size n : Nat) (sc : Syscall σ)
    (hsc : findSyscall table handle = some sc) (harg : arg < 2 ^ 32) (hsize : size < 2 ^ 32)
    (hn : n = min size sc.maxParamSize) :
    let d := syscallDispatch true table ⟨g, kbuf, junk⟩ handle arg size
    (d.ran = none ↔ arg = 0 ∨ ¬g.UserRange false arg n ∨
        (syscallKbufMax < sc.maxParamSize ∧ g.kheap.alloc.1 = 0)) ∧
      (d.ran = none → d.state.gate.mem = g.mem) ∧
      (∀ r, d.ran = some r →
        SameGate g r.before ∧
          r.params = (List.range n).map (fun i => g.byteAt (arg + i)) ++
            List.replicate (sc.maxParamSize - n) 0 ∧
          (r.ret, r.after, r.out) = sc.fn r.before r.params ∧
          (∀ x, d.state.gate.mem x ≠ r.after.mem x →
            r.after.tid = g.tid ∧ r.after.cr3 = g.cr3 ∧ r.after.UserRange true arg n ∧
              ∃ i < n, r.after.phys (arg + i) = x ∧ d.state.gate.mem x = r.out i) ∧
          (r.after.tid = g.tid → r.after.cr3 = g.cr3 → r.after.UserRange true arg n →
            ∀ i < n, (∀ j < n, r.after.phys (arg + j) = r.after.phys (arg + i) → j = i) →
              d.state.gate.mem (r.after.phys (arg + i)) = r.out i)) ∧
      ∀ kbuf' junk', let d' := syscallDispatch true table ⟨g, kbuf', junk'⟩ handle arg size
        d'.ret = d.ret ∧ d'.ran = d.ran ∧ d'.state.gate = d.state.gate := by
  intro d
  have hdispatch (kbuf junk : Nat → Byte) : syscallDispatch true table ⟨g, kbuf, junk⟩ handle arg
      size = dispatchRing3 sc ⟨g, kbuf, junk⟩ arg size := by
    unfold syscallDispatch
    rw [hsc]
    rfl
  have hd : d = dispatchRing3 sc ⟨g, kbuf, junk⟩ arg size := hdispatch kbuf junk
  rcases dispatchRing3_cases sc g harg hsize hn with
    ⟨href, ret, g', hmem, hcall⟩ | ⟨href, ret, g₀, g', hsame, hdel, hcall⟩
  · obtain ⟨kbuf₁, hcall₁⟩ := hcall kbuf junk
    rw [hd, hcall₁]
    refine ⟨⟨fun _ => href, fun _ => rfl⟩, fun _ => hmem, fun r hr => (nomatch hr),
      fun kbuf' junk' => ?_⟩
    obtain ⟨kbuf₂, hcall₂⟩ := hcall kbuf' junk'
    rw [hdispatch, hcall₂]
    exact ⟨rfl, rfl, rfl⟩
  · obtain ⟨kbuf₁, hcall₁⟩ := hcall kbuf junk
    rw [hd, hcall₁]
    refine ⟨⟨fun h => (nomatch h), fun h => absurd h href⟩, fun h => (nomatch h), fun r hr => ?_,
      fun kbuf' junk' => ?_⟩
    · obtain rfl := Option.some.inj hr
      have harg₀ : arg ≠ 0 := fun h => href (Or.inl h)
      refine ⟨hsame, rfl, rfl, fun x hx => ?_, fun htid hcr3 => ?_⟩
      · have hchanged := hdel.changed x hx
        exact ⟨hchanged.1.trans hsame.tid, hchanged.2.1.trans hsame.cr3, hchanged.2.2⟩
      · exact hdel.delivered harg₀ (htid.trans hsame.tid.symm) (hcr3.trans hsame.cr3.symm)
    · obtain ⟨kbuf₂, hcall₂⟩ := hcall kbuf' junk'
      rw [hdispatch, hcall₂]
      exact ⟨rfl, rfl, rfl⟩

/-- A user whose only page is the first 4 MB of memory; the byte at each address is its number. -/
def identityUser : GateState Unit where
  mem := fun x => BitVec.ofNat 8 x
  paging :=
    ⟨Function.update (fun _ _ => .zero) 1 fun _ =>
        { Entry.zero with present := true, rw := true, user := true, pageSize := true },
      fun _ => false, false, 0⟩
  cr3 := 4096
  tid := 1
  kheap := ⟨fun _ => 0, 0, []⟩
  rest := ()

theorem identityUser_range (forWrite : Bool) {va n : Nat} (h : va + n ≤ userSpaceTop) :
    identityUser.UserRange forWrite va n := by
  intro a h₁ h₂
  refine ⟨by omega, ?_, ?_⟩
  · exact ⟨rfl, rfl, fun _ => rfl⟩
  · exact Or.inl rfl

/-- A system call with four bytes of parameters, whose handler writes 7 to the first one. -/
def sevenCall : Syscall Unit := ⟨3, fun g _ => (0, g, fun _ => 7), 4⟩

/-- A caller that passes two bytes: the handler gets them and two zeros, and the first byte comes
back. -/
theorem syscallDispatch_confined_seven :
    ∃ r, (syscallDispatch true [sevenCall] ⟨identityUser, fun _ => 9, fun _ => 9⟩ 3 100 2).ran =
        some r ∧ r.params = [100, 101, 0, 0] ∧
      (syscallDispatch true [sevenCall] ⟨identityUser, fun _ => 9, fun _ => 9⟩ 3 100
        2).state.gate.mem 100 = 7 := by
  obtain ⟨hran, -, hrun, -⟩ := syscallDispatch_confined [sevenCall] identityUser (fun _ => 9)
    (fun _ => 9) 3 100 2 2 sevenCall rfl (by decide) (by decide) rfl
  have hnot : ¬((100 : Nat) = 0 ∨ ¬identityUser.UserRange false 100 2 ∨
      (syscallKbufMax < sevenCall.maxParamSize ∧ identityUser.kheap.alloc.1 = 0)) := by
    rintro (h | h | h)
    · cases h
    · exact h (identityUser_range false (by decide))
    · exact absurd h.1 (by decide)
  obtain ⟨r, hr⟩ := Option.ne_none_iff_exists'.mp fun h => hnot (hran.mp h)
  obtain ⟨hsame, hparams, hfn, -, hback⟩ := hrun r hr
  -- the handler leaves the state as it was
  have hafter : r.after = r.before := congrArg (fun d => d.2.1) hfn
  have hout : r.out = fun _ => 7 := congrArg (fun d => d.2.2) hfn
  have hphys (va : Nat) : r.after.phys va = identityUser.phys va := by
    unfold GateState.phys
    rw [hafter, hsame.paging, hsame.cr3]
  have hrange : r.after.UserRange true 100 2 := by
    rw [hafter, hsame.userRange]
    exact identityUser_range true (by decide)
  refine ⟨r, hr, hparams.trans (by decide +kernel), ?_⟩
  have hfirst := hback (by rw [hafter]; exact hsame.tid) (by rw [hafter]; exact hsame.cr3) hrange 0
    (by decide) fun j hj heq => by
      rw [hphys, hphys] at heq
      obtain rfl | rfl : j = 0 ∨ j = 1 := by omega
      · rfl
      · exact absurd heq (by decide)
  rw [hphys, hout] at hfirst
  exact hfirst

end Ukernel.Kernel
