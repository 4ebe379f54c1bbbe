import Ukernel.Kernel.Errno
import Ukernel.Mm.HeapReuse

/-!
# The two pools and what ring 3 can free

The kernel heap and the user heap are two pools in one memory. As long as everybody frees what they
hold, the operations on one of them leave the other one alone. The gate of `SYSCALL_HEAP` passes a
pointer of ring 3 on to `heap_free`.

## Why a pointer reaches both pools

`heap_free` is told the pool, but reads the chunk out of the memory in front of the pointer and
edits the list that this chunk is linked in. The pool is only used for its lock, for the count of
free bytes, and to tell the head of the list from a chunk. So the pointer decides: with the address
of a block of the kernel, ring 3 frees that block, while its bytes are added to those of the user
heap. The one thing that stops `heap_free` is a flag of 0 in what it takes for a header.

## Main definitions

* `HeapLayouts`, `HeapPools`: the two pools
* `poolsSystem`: what their callers do
* `heapSyscallIsr`: the gate
* `HeapPools.Same`: both pools are as they were

## Main results

* `HeapHistory.exec_frame`: an operation writes only to its own pool
* `HeapPools.Ok.step`: the invariant of both pools
* `user_free_confined`: when a call of ring 3 changes nothing
-/

namespace Ukernel.Mm

open Kernel Lib Machine

/-- Where the two pools lie. -/
structure HeapLayouts where
  krn : HeapLayout
  user : HeapLayout
  pools : krn.pool + heapTotalSize ≤ user.pool
  heads : krn.headNode + 8 ≤ user.headNode ∨ user.headNode + 8 ≤ krn.headNode
  krnHead : krn.headNode + 8 ≤ user.pool ∨ user.pool + heapTotalSize ≤ krn.headNode
  userHead : user.headNode + 8 ≤ krn.pool ∨ krn.pool + heapTotalSize ≤ user.headNode

/-- An address belongs to a pool: to its bytes or to its list head. -/
def HeapLayout.Owns (L : HeapLayout) (x : Nat) : Prop :=
  L.pool ≤ x ∧ x < L.pool + heapTotalSize ∨ L.headNode ≤ x ∧ x < L.headNode + 8

theorem HeapLayouts.apart (Ls : HeapLayouts) {x : Nat} (hk : Ls.krn.Owns x) : ¬Ls.user.Owns x := by
  have h₁ := Ls.pools
  have h₂ := Ls.heads
  have h₃ := Ls.krnHead
  have h₄ := Ls.userHead
  unfold HeapLayout.Owns at hk ⊢
  omega

/-- The fields of a `heappool` that change, with what its callers hold. -/
structure PoolState where
  availSize : Nat
  init : Bool
  live : List Block

/-- Both pools and the memory that they share. -/
structure HeapPools where
  mem : Memory
  krn : PoolState
  user : PoolState

namespace HeapPools

/-- The kernel pool on its own. -/
def krnHistory (s : HeapPools) : HeapHistory := ⟨⟨s.mem, s.krn.availSize, s.krn.init⟩, s.krn.live⟩

/-- The user pool on its own. -/
def userHistory (s : HeapPools) : HeapHistory :=
  ⟨⟨s.mem, s.user.availSize, s.user.init⟩, s.user.live⟩

/-- Replace the kernel pool. -/
def withKrn (s : HeapPools) (h : HeapHistory) : HeapPools :=
  ⟨h.heap.mem, ⟨h.heap.availSize, h.heap.init, h.live⟩, s.user⟩

/-- Replace the user pool. -/
def withUser (s : HeapPools) (h : HeapHistory) : HeapPools :=
  ⟨h.heap.mem, s.krn, ⟨h.heap.availSize, h.heap.init, h.live⟩⟩

end HeapPools

/-- What the callers of the pools do: `kmalloc` and `kfree`, or `malloc` and `free`. -/
inductive PoolsOp where
  | krn (op : HeapOp)
  | user (op : HeapOp)

variable (Ls : HeapLayouts)

/-- A step; no result stands for a null dereference or an endless loop. -/
def PoolsOp.exec (s : HeapPools) : PoolsOp → Option HeapPools
  | .krn op => (s.krnHistory.exec Ls.krn op).map s.withKrn
  | .user op => (s.userHistory.exec Ls.user op).map s.withUser

/-- Callers free what they hold, and write where they were given room. -/
def PoolsOp.Enabled (s : HeapPools) : PoolsOp → Prop
  | .krn op => s.krnHistory.Enabled op
  | .user op => s.userHistory.Enabled op

/-- Histories of both pools. -/
def poolsSystem : System (Option HeapPools) PoolsOp where
  exec s op := s.bind fun s => op.exec Ls s
  enabled s op := ∀ h, s = some h → op.Enabled h

/-- Nobody has used the pools. -/
def HeapPools.start (mem : Memory) : HeapPools :=
  ⟨(Heap.start Ls.user (Heap.start Ls.krn mem).mem).mem, ⟨heapTotalSize, false, []⟩,
    ⟨heapTotalSize, false, []⟩⟩

/-! ## The gate -/

/-- `heap_ctrl_config`. -/
structure HeapCtrlConfig where
  cmd : Nat
  size : Nat
  ptr : Nat
  ret : Int

/-- `heap_syscall_isr`: the answer of the gate, the configuration that goes back, and the pools. -/
def heapSyscallIsr (s : HeapPools) (cfg : HeapCtrlConfig) (lock : Bool) :
    Option (Int × HeapCtrlConfig × HeapPools) :=
  match cfg.cmd with
  | 0 => (heapMalloc Ls.user s.userHistory.heap lock cfg.size).map fun r =>
      (0, { cfg with ptr := r.1, ret := if r.1 ≠ 0 then 0 else eNomem },
        s.withUser ⟨r.2, if r.1 = 0 then s.user.live else ⟨r.1, cfg.size⟩ :: s.user.live⟩)
  | 1 => some (0, { cfg with ret := 0 },
      s.withUser ⟨heapFree Ls.user s.userHistory.heap cfg.ptr,
        s.user.live.filter fun b => b.ptr ≠ cfg.ptr⟩)
  | _ => some (eInval, cfg, s)

/-- Chunks, flags and counts of both pools are as they were. -/
def HeapPools.Same (s s' : HeapPools) : Prop :=
  s'.krnHistory.heap.chunks Ls.krn = s.krnHistory.heap.chunks Ls.krn ∧
    s'.userHistory.heap.chunks Ls.user = s.userHistory.heap.chunks Ls.user ∧
    s'.krn.availSize = s.krn.availSize ∧ s'.user.availSize = s.user.availSize

/-! ## One pool writes to itself -/

section Frame

variable {L : HeapLayout} {s s' : HeapHistory} {cs : List Chunk} {x : Nat}

/-- What does not belong to a pool is in none of its list nodes. -/
theorem Rep.not_inNodes_of_not_owns {m : Memory} (h : Rep L m cs) (hx : ¬L.Owns x) :
    ¬InNodes L cs x := by
  unfold HeapLayout.Owns at hx
  refine not_inNodes_iff.mpr ⟨fun c hc => ?_, by omega⟩
  have hmem := h.tiles.mem hc
  omega

theorem kheapInit_frame (h : Heap) (lock : Bool) (hx : ¬L.Owns x) :
    (kheapInit L h lock).mem x = h.mem x := by
  cases lock with
  | false => rfl
  | true =>
    have hne := L.headNode_ne
    have hapart := L.headNode_apart
    have hhead := L.headNode_end
    have hsize : heapTotalSize = 2 ^ 24 := rfl
    unfold HeapLayout.Owns at hx
    -- the list head points to itself when the chunk is added
    have hnext : load32 (store32 (store32 (listInit h.mem L.headNode) L.pool (heapTotalSize - 16))
        (L.pool + 4) 0) (L.headNode + 4) = L.headNode := by
      rw [load32_store32_of_disjoint _ _ (by omega), load32_store32_of_disjoint _ _ (by omega),
        listInit, load32_store32, Nat.mod_eq_of_lt (by omega)]
    have hna : NodeApart (L.pool + 8) L.headNode := by
      unfold NodeApart
      omega
    refine (listAdd_apply (by omega) hne hna (by omega) (by omega) (by rw [hnext]; omega)).trans ?_
    rw [store32_apply_of_disjoint _ _ (by omega), store32_apply_of_disjoint _ _ (by omega)]
    unfold listInit
    rw [store32_apply_of_disjoint _ _ (by omega), store32_apply_of_disjoint _ _ (by omega)]

theorem HeapInv.malloc_frame (h : HeapInv L s cs) (lock : Bool) (n : Nat) {r : Nat × Heap}
    (hr : heapMalloc L s.heap lock n = some r) (hx : ¬L.Owns x) (hx32 : x < 2 ^ 32) :
    r.2.mem x = s.heap.mem x := by
  rcases h.malloc_cases lock n with ⟨heq, -⟩ | ⟨xs, c, ys, rfl, -, hfit, heq⟩
  · cases heq.symm.trans hr
    rfl
  · cases heq.symm.trans hr
    have hmem := h.rep.tiles.mem (c := c) (by simp)
    refine h.rep.carve_apply hfit (heapAlign_spec n).1 hx32 ?_ (h.rep.not_inNodes_of_not_owns hx)
    unfold HeapLayout.Owns at hx
    omega

theorem HeapInv.free_frame (h : HeapInv L s cs) {b : Block} (hb : b ∈ s.live) (hx : ¬L.Owns x) :
    (heapFree L s.heap b.ptr).mem x = s.heap.mem x := by
  obtain ⟨c, hc, hused, hptr, -⟩ := h.fits b hb
  obtain ⟨xs, ys, rfl⟩ := List.append_of_mem hc
  have hout (e : Chunk) (he : e ∈ xs ++ c :: ys) : x < e.addr ∨ e.addr + 16 ≤ x := by
    have hmem := h.rep.tiles.mem he
    unfold HeapLayout.Owns at hx
    omega
  obtain ⟨base, -, hwho, hframe⟩ := heapFree_frame h.rep hused
  rw [hptr] at hframe
  refine hframe x (h.rep.not_inNodes_of_not_owns hx) (fun e he => ?_) ?_
  · have := hout e he
    omega
  · grind

/-- An operation writes only to its own pool. -/
theorem HeapHistory.exec_frame (hs : Fresh L s ∨ ∃ cs, HeapInv L s cs) {op : HeapOp}
    (hen : s.Enabled op) (hexec : s.exec L op = some s') (hx : ¬L.Owns x) (hx32 : x < 2 ^ 32) :
    s'.heap.mem x = s.heap.mem x := by
  cases op with
  | malloc n lock =>
    obtain ⟨r, hr, rfl⟩ := Option.map_eq_some_iff.mp hexec
    rcases hs with hs | ⟨cs, hs⟩
    · cases lock with
      | false => grind [hs.malloc_unlocked]
      | true =>
        grind [heapMalloc_kheapInit, hs.init, hs.inv_kheapInit.malloc_frame, kheapInit_frame]
    · exact hs.malloc_frame lock n.toNat hr hx hx32
  | free b =>
    cases Option.some.inj hexec
    rcases hs with hs | ⟨cs, hs⟩
    · have hb : b ∈ s.live := hen
      exact absurd (hs.live ▸ hb) List.not_mem_nil
    · exact hs.free_frame hen hx
  | write addr value =>
    cases Option.some.inj hexec
    obtain ⟨b, hb, hlo, hhi⟩ := hen
    rcases hs with hs | ⟨cs, hs⟩
    · exact absurd (hs.live ▸ hb) List.not_mem_nil
    · obtain ⟨c, hc, -, hptr, hle⟩ := hs.fits b hb
      have hmem := hs.rep.tiles.mem hc
      refine Function.update_of_ne ?_ _ _
      unfold HeapLayout.Owns at hx
      omega

/-- A pool looks at nothing but itself. -/
theorem HistoryOk.congr (hs : Fresh L s ∨ ∃ cs, HeapInv L s cs) (mem : Memory)
    (hmem : ∀ x, L.Owns x → mem x = s.heap.mem x) :
    Fresh L ⟨{ s.heap with mem }, s.live⟩ ∨ ∃ cs, HeapInv L ⟨{ s.heap with mem }, s.live⟩ cs := by
  rcases hs with hs | ⟨cs, hs⟩
  · refine Or.inl ⟨hs.init, hs.avail, hs.live, ?_⟩
    exact (load32_congr fun x h1 h2 => hmem x (Or.inr ⟨by omega, by omega⟩)).trans hs.head
  · refine Or.inr ⟨cs, hs.init, hs.rep.of_eq_on fun x hx => hmem x ?_, hs.noFreePair, hs.avail,
      hs.ptrs, hs.fits⟩
    rcases hx with ⟨c, hc, hlo, hhi⟩ | hx
    · have hcmem := hs.rep.tiles.mem hc
      exact Or.inl ⟨by omega, by omega⟩
    · exact Or.inr hx

end Frame

/-! ## Both pools -/

section Pools

variable {Ls} {s s' : HeapPools}

/-- Both pools are in order. -/
structure HeapPools.Ok (Ls : HeapLayouts) (s : HeapPools) : Prop where
  krn : Fresh Ls.krn s.krnHistory ∨ ∃ cs, HeapInv Ls.krn s.krnHistory cs
  user : Fresh Ls.user s.userHistory ∨ ∃ cs, HeapInv Ls.user s.userHistory cs

theorem HeapLayout.Owns.lt {L : HeapLayout} {x : Nat} (h : L.Owns x) : x < 2 ^ 32 := by
  have h₁ := L.pool_end
  have h₂ := L.headNode_end
  unfold HeapLayout.Owns at h
  omega

/-- A step of one pool, whatever becomes of its lock. -/
theorem HistoryOk.exec {L : HeapLayout} {h h' : HeapHistory}
    (hs : Fresh L h ∨ ∃ cs, HeapInv L h cs) {op : HeapOp} (hen : h.Enabled op)
    (hexec : h.exec L op = some h') : Fresh L h' ∨ ∃ cs, HeapInv L h' cs := by
  have hok : HistoryOk L (some h) := by
    rintro _ ⟨⟩
    exact hs
  refine hok.step op (fun _ hh => ?_) h' hexec
  cases hh
  exact hen

theorem HeapPools.Ok.step (h : s.Ok Ls) {op : PoolsOp} (hen : op.Enabled s)
    (hexec : op.exec Ls s = some s') : s'.Ok Ls := by
  cases op with
  | krn op =>
    obtain ⟨k, hk, rfl⟩ := Option.map_eq_some_iff.mp hexec
    refine ⟨HistoryOk.exec h.krn hen hk, HistoryOk.congr h.user k.heap.mem fun x hx => ?_⟩
    have hframe : k.heap.mem x = s.krnHistory.heap.mem x :=
      HeapHistory.exec_frame h.krn hen hk (fun hown => Ls.apart hown hx) hx.lt
    exact hframe
  | user op =>
    obtain ⟨u, hu, rfl⟩ := Option.map_eq_some_iff.mp hexec
    refine ⟨HistoryOk.congr h.krn u.heap.mem fun x hx => ?_, HistoryOk.exec h.user hen hu⟩
    have hframe : u.heap.mem x = s.userHistory.heap.mem x :=
      HeapHistory.exec_frame h.user hen hu (Ls.apart hx) hx.lt
    exact hframe

theorem HeapPools.start_ok (mem : Memory) : (HeapPools.start Ls mem).Ok Ls := by
  have h₂ := Ls.heads
  refine ⟨Or.inl ⟨rfl, rfl, rfl, ?_⟩, Or.inl ⟨rfl, rfl, rfl, load32_store32 _ _ _⟩⟩
  change load32 (store32 (store32 (store32 (store32 mem _ 0) _ 0) _ 0) _ 0) _ = 0
  rw [load32_store32_of_disjoint _ _ (by omega), load32_store32_of_disjoint _ _ (by omega)]
  exact load32_store32 _ _ _

theorem HeapPools.reachable_ok {mem : Memory} {ops : List PoolsOp}
    (hops : (poolsSystem Ls).Legal (some (HeapPools.start Ls mem)) ops)
    (hs : (poolsSystem Ls).run (some (HeapPools.start Ls mem)) ops = some s) : s.Ok Ls := by
  refine System.run_invariant (I := fun t => ∀ s, t = some s → s.Ok Ls)
    (fun t op h hen s' hs' => ?_)
    ?_ hops s hs
  · obtain ⟨s, rfl, hexec⟩ := Option.bind_eq_some_iff.mp hs'
    exact (h s rfl).step (hen s rfl) hexec
  · rintro _ ⟨⟩
    exact HeapPools.start_ok mem

/-- A pointer that changes no count has the flag 0 in front of it, or a size that makes a whole
address space with the header. -/
theorem heapFree_availSize {L : HeapLayout} {h : Heap} {ptr : Nat}
    (hsame : (heapFree L h ptr).availSize = h.availSize) :
    ptr = 0 ∨ load32 h.mem (offset (offset ptr (2 ^ 32 - 16)) 4) = 0 ∨
      load32 h.mem (offset ptr (2 ^ 32 - 16)) = 2 ^ 32 - 16 := by
  unfold heapFree at hsame
  by_cases hz : ptr = 0
  · exact Or.inl hz
  by_cases hflag : load32 h.mem (offset (offset ptr (2 ^ 32 - 16)) 4) = 0
  · exact Or.inr (Or.inl hflag)
  · grind [load32_lt]

/-- The header of a block that is held says so. -/
theorem HeapInv.header_of_live {L : HeapLayout} {h : HeapHistory} {cs : List Chunk}
    (hinv : HeapInv L h cs) {b : Block} (hb : b ∈ h.live) :
    b.ptr ≠ 0 ∧ load32 h.heap.mem (offset (offset b.ptr (2 ^ 32 - 16)) 4) = 1 ∧
      load32 h.heap.mem (offset b.ptr (2 ^ 32 - 16)) < heapTotalSize := by
  obtain ⟨c, hc, hused, hptr, -⟩ := hinv.fits b hb
  have hmem := hinv.rep.tiles.mem hc
  have hlt := hinv.rep.addr_lt hc
  have hchunk : offset b.ptr (2 ^ 32 - 16) = c.addr := by
    unfold offset
    omega
  have hflag : offset c.addr 4 = c.addr + 4 := offset_eq (by omega)
  obtain ⟨hsize, hword⟩ := hinv.rep.header c hc
  rw [hchunk, hflag, hsize, hword, hused]
  exact ⟨by omega, rfl, by omega⟩

end Pools

/-- A call of ring 3 to free a pointer changes neither pool if the pointer is null or the word that
would be the flag of its chunk is 0. Otherwise it does, unless what would be the size of the chunk
was forged so that the count of free bytes goes once around. In particular it frees every block of
the kernel. -/
theorem user_free_confined (mem : Memory) (ops : List PoolsOp)
    (hops : (poolsSystem Ls).Legal (some (HeapPools.start Ls mem)) ops) (s : HeapPools)
    (hs : (poolsSystem Ls).run (some (HeapPools.start Ls mem)) ops = some s) (cfg : HeapCtrlConfig)
    (hcmd : cfg.cmd = 1) (lock : Bool) :
    ∃ cfg' s', heapSyscallIsr Ls s cfg lock = some (0, cfg', s') ∧
      (cfg.ptr = 0 ∨ load32 s.mem (offset (offset cfg.ptr (2 ^ 32 - 16)) 4) = 0 →
        s.Same Ls s') ∧
      (s.Same Ls s' → cfg.ptr = 0 ∨ load32 s.mem (offset (offset cfg.ptr (2 ^ 32 - 16)) 4) = 0 ∨
        load32 s.mem (offset cfg.ptr (2 ^ 32 - 16)) = 2 ^ 32 - 16) ∧
      ((∃ b ∈ s.krn.live, b.ptr = cfg.ptr) → ¬s.Same Ls s') := by
  have hok := HeapPools.reachable_ok hops hs
  have hback (hsame : (heapFree Ls.user s.userHistory.heap cfg.ptr).availSize = s.user.availSize) :=
    heapFree_availSize hsame
  have hisr : heapSyscallIsr Ls s cfg lock = some (0, { cfg with ret := 0 },
      s.withUser ⟨heapFree Ls.user s.userHistory.heap cfg.ptr,
        s.user.live.filter fun b => b.ptr ≠ cfg.ptr⟩) := by
    unfold heapSyscallIsr
    rw [hcmd]
    rfl
  refine ⟨_, _, hisr, fun hstop => ?_, fun hsame => hback hsame.2.2.2, ?_⟩
  · have hfree : heapFree Ls.user s.userHistory.heap cfg.ptr = s.userHistory.heap := by
      unfold heapFree
      rcases hstop with hz | hflag
      · exact if_pos hz
      · by_cases hz : cfg.ptr = 0
        · exact if_pos hz
        · rw [if_neg hz]
          exact if_pos hflag
    rw [hfree]
    exact ⟨rfl, rfl, rfl, rfl⟩
  · rintro ⟨b, hb, hptr⟩ hsame
    obtain ⟨cs, hinv⟩ := HeapInv.of_live hok.krn hb
    obtain ⟨hne, hflag, hsize⟩ := hinv.header_of_live hb
    have htotal : heapTotalSize = 2 ^ 24 := rfl
    rw [hptr] at hne hflag hsize
    rcases hback hsame.2.2.2 with hz | hz | hz
    · exact hne hz
    · exact absurd (hflag.symm.trans hz) Nat.one_ne_zero
    · have hkrn : load32 s.krnHistory.heap.mem (offset cfg.ptr (2 ^ 32 - 16)) = 2 ^ 32 - 16 := hz
      omega

/-- A kernel pool at 2 MB and the user pool at its place. -/
def highLayout : HeapLayouts where
  krn := lowLayout
  user :=
    { pool := 0xC0000000
      headNode := 0x100010
      aligned := by decide
      pool_end := by decide
      headNode_ne := by decide
      headNode_end := by decide
      headNode_apart := by decide }
  pools := by decide
  heads := by decide
  krnHead := by decide
  userHead := by decide

/-- The kernel holds two blocks and a user holds one. -/
def threeBlocks : List PoolsOp :=
  [.krn (.malloc 8 true), .krn (.malloc 8 true), .user (.malloc 8 true)]

theorem threeBlocks_legal :
    (poolsSystem highLayout).Legal (some (HeapPools.start highLayout fun _ => 0)) threeBlocks :=
  ⟨fun _ _ => trivial, fun _ _ => trivial, fun _ _ => trivial, trivial⟩

/-- A pointer into the middle of the user's block, which is all zero. -/
theorem user_free_confined_interior :
    ∃ s cfg' s', (poolsSystem highLayout).run (some (HeapPools.start highLayout fun _ => 0))
        threeBlocks = some s ∧
      heapSyscallIsr highLayout s ⟨1, 0, 0xC000001C, 0⟩ true = some (0, cfg', s') ∧
      s.Same highLayout s' := by
  have hend : ((poolsSystem highLayout).run (some (HeapPools.start highLayout fun _ => 0))
      threeBlocks).map (fun s => load32 s.mem (offset (offset 0xC000001C (2 ^ 32 - 16)) 4)) =
        some 0 := by
    decide +kernel
  obtain ⟨s, hs, hflag⟩ := Option.map_eq_some_iff.mp hend
  obtain ⟨cfg', s', hisr, hstop, -⟩ := user_free_confined highLayout (fun _ => 0) threeBlocks
    threeBlocks_legal s hs ⟨1, 0, 0xC000001C, 0⟩ rfl true
  exact ⟨s, cfg', s', hs, hisr, hstop (Or.inr hflag)⟩

/-- A user hands in the address of the kernel's second block: the block is free, and its bytes are
now counted as the user heap's. -/
theorem user_frees_kernel_block :
    ∃ s cfg' s', (poolsSystem highLayout).run (some (HeapPools.start highLayout fun _ => 0))
        threeBlocks = some s ∧
      ⟨0x200028, 8⟩ ∈ s.krn.live ∧ (∀ b ∈ s.user.live, b.ptr ≠ 0x200028) ∧
      heapSyscallIsr highLayout s ⟨1, 0, 0x200028, 0⟩ true = some (0, cfg', s') ∧
      s.krnHistory.heap.chunks lowLayout =
        some [⟨0x200000, 8, true⟩, ⟨0x200018, 8, true⟩, ⟨0x200030, 16777152, false⟩] ∧
      s'.krnHistory.heap.chunks lowLayout =
        some [⟨0x200000, 8, true⟩, ⟨0x200018, 16777176, false⟩] ∧
      s'.user.availSize = s.user.availSize + 24 := by
  have hbefore : ((poolsSystem highLayout).run (some (HeapPools.start highLayout fun _ => 0))
      threeBlocks).map (fun s => (s.krn.live, s.user.live.map Block.ptr,
        s.krnHistory.heap.chunks lowLayout, s.user.availSize)) =
      some ([⟨0x200028, 8⟩, ⟨0x200010, 8⟩], [0xC0000010],
        some [⟨0x200000, 8, true⟩, ⟨0x200018, 8, true⟩, ⟨0x200030, 16777152, false⟩],
        16777192) := by
    decide +kernel
  have hafter : ((poolsSystem highLayout).run (some (HeapPools.start highLayout fun _ => 0))
      threeBlocks).map (fun s => (heapSyscallIsr highLayout s ⟨1, 0, 0x200028, 0⟩ true).map fun r =>
        (r.1, r.2.2.krnHistory.heap.chunks lowLayout, r.2.2.user.availSize)) =
      some (some (0, some [⟨0x200000, 8, true⟩, ⟨0x200018, 16777176, false⟩], 16777216)) := by
    decide +kernel
  obtain ⟨s, hs, heq⟩ := Option.map_eq_some_iff.mp hbefore
  rw [hs] at hafter
  simp only [Prod.mk.injEq] at heq
  obtain ⟨hkrn, huser, hchunks, havail⟩ := heq
  obtain ⟨⟨ret, cfg', s'⟩, hisr, hafter⟩ := Option.map_eq_some_iff.mp (Option.some.inj hafter)
  simp only [Prod.mk.injEq] at hafter
  obtain ⟨rfl, hchunks', havail'⟩ := hafter
  refine ⟨s, cfg', s', hs, ?_, fun b hb hptr => ?_, hisr, hchunks, hchunks', ?_⟩
  · rw [hkrn]
    exact List.mem_cons_self
  · grind [List.mem_map_of_mem]
  · rw [havail, havail']

end Ukernel.Mm
