import Ukernel.Machine.System
import Ukernel.Mm.Heap

/-!
# Runs of the chunk heap

A history is a pool with the allocations that its callers hold; they may write into what they
were given. Over every history the chunks tile the pool, no two neighbours are both free, the
counter of free bytes agrees with the chunks, and the live payloads are apart.

## Main definitions

* `HeapHistory`, `heapSystem`: a pool with its live allocations, and what callers may do
* `HeapInv`: the representation invariant

## Main results

* `HeapInv.malloc`, `HeapInv.free`: the operations keep the invariant
* `chunks_tile_pool`: the invariant over whole histories, and that no operation gets stuck
-/

namespace Ukernel.Mm

open Machine Lib

/-- Header and payload bytes of the free chunks. -/
def freeBytes (cs : List Chunk) : Nat := (cs.map fun c => if c.used then 0 else 16 + c.size).sum

/-- The payload addresses of the used chunks. -/
def usedPtrs (cs : List Chunk) : List Nat := (cs.filter Chunk.used).map fun c => c.addr + 16

@[simp] theorem freeBytes_append (xs ys : List Chunk) :
    freeBytes (xs ++ ys) = freeBytes xs + freeBytes ys := by simp [freeBytes]

@[simp] theorem freeBytes_cons (c : Chunk) (cs : List Chunk) :
    freeBytes (c :: cs) = (if c.used then 0 else 16 + c.size) + freeBytes cs := by
  simp [freeBytes]

@[simp] theorem freeBytes_nil : freeBytes [] = 0 := rfl

@[simp] theorem usedPtrs_append (xs ys : List Chunk) :
    usedPtrs (xs ++ ys) = usedPtrs xs ++ usedPtrs ys := by simp [usedPtrs]

theorem usedPtrs_cons_used {c : Chunk} (hc : c.used = true) (cs : List Chunk) :
    usedPtrs (c :: cs) = (c.addr + 16) :: usedPtrs cs := by simp [usedPtrs, hc]

theorem usedPtrs_cons_free {c : Chunk} (hc : c.used = false) (cs : List Chunk) :
    usedPtrs (c :: cs) = usedPtrs cs := by simp [usedPtrs, hc]

@[simp] theorem usedPtrs_nil : usedPtrs [] = [] := rfl

theorem Tiles.freeBytes_le {a e : Nat} {cs : List Chunk} (h : Tiles a cs e) :
    a + freeBytes cs ≤ e := by
  induction cs generalizing a with
  | nil => exact h.le
  | cons c cs ih =>
    have := ih h.2
    rw [freeBytes_cons]
    split <;> omega

theorem le_freeBytes {cs : List Chunk} {c : Chunk} (hc : c ∈ cs) (hfree : c.used = false) :
    16 + c.size ≤ freeBytes cs := by
  obtain ⟨xs, ys, rfl⟩ := List.append_of_mem hc
  simp [hfree]
  omega

theorem Tiles.usedPtrs_nodup {a e : Nat} {cs : List Chunk} (h : Tiles a cs e) :
    (usedPtrs cs).Nodup := by
  refine List.pairwise_map.mpr ((h.pairwise.filter _).imp fun hcd => ?_)
  omega

/-- What a caller of `heap_malloc` holds. -/
structure Block where
  ptr : Nat
  bytes : Nat
deriving DecidableEq, Repr

/-- A pool with the live allocations. -/
structure HeapHistory where
  heap : Heap
  live : List Block

/-- What the callers of a pool do. An allocation also says whether `spinlock_alloc` would succeed,
which only matters at the first one. -/
inductive HeapOp where
  | malloc (allocSize : UInt32) (lock : Bool)
  | free (b : Block)
  | write (addr : Nat) (value : Byte)

/-- Whether the operation gets the lock it may need. -/
def HeapOp.locked : HeapOp → Bool
  | .malloc _ lock => lock
  | _ => true

variable (L : HeapLayout)

/-- One operation; no result stands for a null dereference or an endless loop. -/
def HeapHistory.exec (s : HeapHistory) : HeapOp → Option HeapHistory
  | .malloc allocSize lock =>
    (heapMalloc L s.heap lock allocSize.toNat).map fun r =>
      ⟨r.2, if r.1 = 0 then s.live else ⟨r.1, allocSize.toNat⟩ :: s.live⟩
  | .free b => some ⟨heapFree L s.heap b.ptr, s.live.erase b⟩
  | .write addr value =>
    some ⟨{ s.heap with mem := Function.update s.heap.mem addr value }, s.live⟩

/-- Callers free what they hold, and write where they were given room. -/
def HeapHistory.Enabled (s : HeapHistory) : HeapOp → Prop
  | .malloc _ _ => True
  | .free b => b ∈ s.live
  | .write addr _ => ∃ b ∈ s.live, b.ptr ≤ addr ∧ addr < b.ptr + b.bytes

/-- Histories; the machine stops where an operation has no result. -/
def heapSystem : System (Option HeapHistory) HeapOp where
  exec s op := s.bind fun s => s.exec L op
  enabled s op := ∀ h, s = some h → h.Enabled op

/-! ## The invariant -/

/-- No two neighbours are both free. -/
def NoFreePair (cs : List Chunk) : Prop := cs.IsChain fun c d => c.used = true ∨ d.used = true

/-- The representation invariant of a pool in use. -/
structure HeapInv (s : HeapHistory) (cs : List Chunk) : Prop where
  init : s.heap.init = true
  rep : Rep L s.heap.mem cs
  noFreePair : NoFreePair cs
  avail : s.heap.availSize = freeBytes cs
  ptrs : (s.live.map Block.ptr).Perm (usedPtrs cs)
  fits : ∀ b ∈ s.live, ∃ c ∈ cs, c.used = true ∧ c.addr + 16 = b.ptr ∧ b.bytes ≤ c.size

/-- A pool that nobody has used yet. -/
structure Fresh (s : HeapHistory) : Prop where
  init : s.heap.init = false
  avail : s.heap.availSize = heapTotalSize
  live : s.live = []
  head : load32 s.heap.mem (L.headNode + 4) = 0

section

variable {L} {s : HeapHistory} {xs ys cs : List Chunk} {c : Chunk}

theorem kheapInit_rep (h : Heap) :
    Rep L (kheapInit L h true).mem [⟨L.pool, heapTotalSize - 16, false⟩] := by
  have hend := L.pool_end
  have hapart := L.headNode_apart
  have hhend := L.headNode_end
  set m := store32 (store32 (listInit h.mem L.headNode) L.pool (heapTotalSize - 16)) (L.pool + 4) 0
    with hm
  have hsize : heapTotalSize = 2 ^ 24 := rfl
  have hlink : Segment m L.headNode [] L.headNode := by
    constructor
    · rw [hm, load32_store32_of_disjoint _ _ (by omega), load32_store32_of_disjoint _ _ (by omega),
        listInit, load32_store32, Nat.mod_eq_of_lt (by omega)]
    · rw [hm, load32_store32_of_disjoint _ _ (by omega), load32_store32_of_disjoint _ _ (by omega),
        listInit, load32_store32_of_disjoint _ _ (by omega), load32_store32,
        Nat.mod_eq_of_lt (by omega)]
  have hna : NodeApart (L.pool + 8) L.headNode := by
    unfold NodeApart
    omega
  have hne := L.headNode_ne
  have hring := listAdd_head (n := L.pool + 8) (by omega) (by omega) hne (by omega)
    ⟨segment_iff.mp hlink, List.nodup_singleton _⟩ (by simpa using hna.ne)
    (spaced_of_pairwise (by simpa using hna))
  have hnext : load32 m (L.headNode + 4) = L.headNode := hlink.1
  have hword : ∀ a, L.pool ≤ a → a + 4 ≤ L.pool + 8 →
      load32 (listAdd m (L.pool + 8) L.headNode) a = load32 m a := fun a h1 h2 =>
    load32_listAdd (by omega) hne hna (by omega) (by omega) (by rw [hnext]; omega)
  refine ⟨⟨rfl, ?_⟩, segment_iff.mpr hring.chain, ?_, ?_⟩
  · change L.pool + 16 + (heapTotalSize - 16) = L.pool + heapTotalSize
    omega
  · intro c hc
    rw [List.mem_singleton.mp hc]
    constructor
    · change load32 (listAdd m (L.pool + 8) L.headNode) L.pool = heapTotalSize - 16
      rw [hword _ (by omega) (by omega), hm, load32_store32_of_disjoint _ _ (by omega),
        load32_store32, Nat.mod_eq_of_lt (by omega)]
    · change load32 (listAdd m (L.pool + 8) L.headNode) (L.pool + 4) = 0
      rw [hword _ (by omega) (by omega), hm, load32_store32, Nat.zero_mod]
  · grind

/-- Whatever `heap_malloc` is asked for, it starts from an initialized pool once the lock is
there. -/
theorem Fresh.inv_kheapInit (h : Fresh L s) :
    HeapInv L ⟨kheapInit L s.heap true, s.live⟩ [⟨L.pool, heapTotalSize - 16, false⟩] := by
  refine ⟨rfl, kheapInit_rep s.heap, List.isChain_singleton _, ?_, ?_, ?_⟩
  · change s.heap.availSize = _
    have hsize : heapTotalSize = 2 ^ 24 := rfl
    simp only [h.avail, freeBytes_cons, freeBytes_nil, Bool.false_eq_true, if_false]
    omega
  · rw [h.live]
    exact List.Perm.refl _
  · rw [h.live]
    exact fun b hb => absurd hb List.not_mem_nil

/-- The chunk after a chunk, in memory and in the list. -/
theorem Rep.next_eq {m : Memory} (h : Rep L m (xs ++ c :: ys)) :
    load32 m (c.addr + 12) = (ys.head?.elim L.headNode Chunk.node) := by
  have hring : Segment m L.headNode (xs.map Chunk.node ++ c.node :: ys.map Chunk.node)
      L.headNode := by simpa using h.ring
  have hafter := (segment_append.mp hring).2
  cases ys with
  | nil => exact hafter.1
  | cons y ys => exact hafter.1.1

/-- The chunk before a chunk, in memory and in the list. -/
theorem Rep.prev_eq {m : Memory} (h : Rep L m (xs ++ c :: ys)) :
    load32 m (c.addr + 8) = (xs.getLast?.elim L.headNode Chunk.node) := by
  rcases List.eq_nil_or_concat xs with rfl | ⟨xs, x, rfl⟩
  · cases ys with
    | nil => exact h.ring.1.2
    | cons y ys => exact h.ring.1.2
  · have hring : Segment m L.headNode
        (xs.map Chunk.node ++ x.node :: c.node :: ys.map Chunk.node) L.headNode := by
      simpa using h.ring
    rw [List.concat_eq_append, List.getLast?_concat]
    exact (segment_append.mp hring).2.1.2

theorem Rep.used_eq {m : Memory} (h : Rep L m cs) (hc : c ∈ cs) :
    load32 m (c.addr + 4) = 0 ↔ c.used = false := by
  rw [(h.header c hc).2]
  cases c.used <;> decide

/-- The chunks lie below the end of the address space. -/
theorem Rep.addr_lt {m : Memory} (h : Rep L m cs) (hc : c ∈ cs) : c.addr + 16 < 2 ^ 32 := by
  have := h.tiles.mem hc
  have := L.pool_end
  omega

/-- What the first merge does. -/
theorem mergeNext_cases {m : Memory} (h : Rep L m (xs ++ c :: ys)) :
    (mergeNext L m c.addr = m ∧ ∀ d ∈ ys.head?, d.used = true) ∨
      ∃ d ys', ys = d :: ys' ∧ d.used = false ∧ mergeNext L m c.addr = absorb m c.addr d.addr := by
  have hlt := h.addr_lt (c := c) (by simp)
  unfold mergeNext
  rw [offset_eq (by omega), h.next_eq]
  cases ys with
  | nil => exact Or.inl ⟨by simp, by simp⟩
  | cons d ys' =>
    have hmem : d ∈ xs ++ c :: d :: ys' := by simp
    have hlt' := h.addr_lt hmem
    have haddr : chunkOf d.node = d.addr := chunkOf_node (by omega)
    have hflag : offset d.addr 4 = d.addr + 4 := offset_eq (by omega)
    simp only [List.head?_cons, Option.elim_some, haddr, hflag, ne_eq, h.node_ne hmem,
      not_false_eq_true, if_true, h.used_eq hmem]
    cases hd : d.used with
    | true => exact Or.inl ⟨by simp, by simp [hd]⟩
    | false => exact Or.inr ⟨d, ys', rfl, hd, by simp⟩

/-- What the second merge does. -/
theorem mergePrev_cases {m : Memory} (h : Rep L m (xs ++ c :: ys)) :
    (mergePrev L m c.addr = (m, c.addr) ∧ ∀ d ∈ xs.getLast?, d.used = true) ∨
      ∃ xs' d, xs = xs' ++ [d] ∧ d.used = false ∧
        mergePrev L m c.addr = (absorb m d.addr c.addr, d.addr) := by
  have hlt := h.addr_lt (c := c) (by simp)
  unfold mergePrev
  rw [offset_eq (by omega), h.prev_eq]
  rcases List.eq_nil_or_concat xs with rfl | ⟨xs', d, rfl⟩
  · exact Or.inl ⟨by simp, by simp⟩
  · rw [List.concat_eq_append] at h ⊢
    have hmem : d ∈ xs' ++ [d] ++ c :: ys := by simp
    have hlt' := h.addr_lt hmem
    have haddr : chunkOf d.node = d.addr := chunkOf_node (by omega)
    have hflag : offset d.addr 4 = d.addr + 4 := offset_eq (by omega)
    simp only [List.getLast?_concat, Option.elim_some, haddr, hflag, ne_eq, h.node_ne hmem,
      not_false_eq_true, if_true, h.used_eq hmem]
    cases hd : d.used with
    | true => exact Or.inl ⟨by simp, by simp [hd]⟩
    | false => exact Or.inr ⟨xs', d, rfl, hd, by simp⟩

/-- `xs'` is `xs` without a last free chunk, which took `n` bytes. -/
def TrimLast (xs xs' : List Chunk) (n : Nat) : Prop :=
  (xs' = xs ∧ n = 0 ∧ ∀ d ∈ xs.getLast?, d.used = true) ∨
    ∃ d, xs = xs' ++ [d] ∧ d.used = false ∧ n = 16 + d.size

/-- `ys'` is `ys` without a first free chunk, which took `n` bytes. -/
def TrimHead (ys ys' : List Chunk) (n : Nat) : Prop :=
  (ys' = ys ∧ n = 0 ∧ ∀ d ∈ ys.head?, d.used = true) ∨
    ∃ d, ys = d :: ys' ∧ d.used = false ∧ n = 16 + d.size

section Trim

variable {xs' ys' : List Chunk} {n : Nat}

theorem TrimLast.freeBytes (h : TrimLast xs xs' n) : freeBytes xs = freeBytes xs' + n := by
  rcases h with ⟨rfl, rfl, -⟩ | ⟨d, rfl, hd, rfl⟩
  · rfl
  · simp [hd]

theorem TrimHead.freeBytes (h : TrimHead ys ys' n) : freeBytes ys = n + freeBytes ys' := by
  rcases h with ⟨rfl, rfl, -⟩ | ⟨d, rfl, hd, rfl⟩
  · simp
  · simp [hd]

theorem TrimLast.usedPtrs (h : TrimLast xs xs' n) : usedPtrs xs = usedPtrs xs' := by
  rcases h with ⟨rfl, -, -⟩ | ⟨d, rfl, hd, -⟩
  · rfl
  · rw [usedPtrs_append, usedPtrs_cons_free hd, usedPtrs_nil, List.append_nil]

theorem TrimHead.usedPtrs (h : TrimHead ys ys' n) : usedPtrs ys = usedPtrs ys' := by
  rcases h with ⟨rfl, -, -⟩ | ⟨d, rfl, hd, -⟩
  · rfl
  · exact usedPtrs_cons_free hd _

theorem TrimLast.mem (h : TrimLast xs xs' n) (hc : c ∈ xs) (hu : c.used = true) : c ∈ xs' := by
  rcases h with ⟨rfl, -, -⟩ | ⟨d, rfl, hd, -⟩
  · exact hc
  · grind

theorem TrimHead.mem (h : TrimHead ys ys' n) (hc : c ∈ ys) (hu : c.used = true) : c ∈ ys' := by
  rcases h with ⟨rfl, -, -⟩ | ⟨d, rfl, hd, -⟩
  · exact hc
  · grind

/-- What is left of a chain after trimming ends with a used chunk. -/
theorem TrimLast.chain (h : TrimLast xs xs' n) (hchain : NoFreePair xs) :
    NoFreePair xs' ∧ ∀ d ∈ xs'.getLast?, d.used = true := by
  rcases h with ⟨rfl, -, hlast⟩ | ⟨d, rfl, hd, -⟩
  · exact ⟨hchain, hlast⟩
  · obtain ⟨h1, -, h3⟩ := List.isChain_append.mp hchain
    refine ⟨h1, fun e he => (h3 e he d (by simp)).resolve_right ?_⟩
    simp [hd]

theorem TrimHead.chain (h : TrimHead ys ys' n) (hchain : NoFreePair ys) :
    NoFreePair ys' ∧ ∀ d ∈ ys'.head?, d.used = true := by
  rcases h with ⟨rfl, -, hhead⟩ | ⟨d, rfl, hd, -⟩
  · exact ⟨hchain, hhead⟩
  · obtain ⟨h1, h2⟩ := List.isChain_cons.mp hchain
    refine ⟨h2, fun e he => (h1 e he).resolve_left ?_⟩
    simp [hd]

end Trim

/-- The memory once a used chunk has absorbed a free one behind it. -/
theorem Rep.mergeNext {m : Memory} (h : Rep L m (xs ++ c :: ys)) :
    ∃ ys' after, TrimHead ys ys' after ∧
      Rep L (mergeNext L m c.addr) (xs ++ ⟨c.addr, c.size + after, c.used⟩ :: ys') ∧
      ∀ x, ¬InNodes L (xs ++ c :: ys) x → x < c.addr ∨ c.addr + 4 ≤ x →
        Mm.mergeNext L m c.addr x = m x := by
  rcases mergeNext_cases h with ⟨heq, hhead⟩ | ⟨d, ys', rfl, hd, heq⟩
  · rw [heq]
    exact ⟨ys, 0, Or.inl ⟨rfl, rfl, hhead⟩, by simpa using h, fun _ _ _ => rfl⟩
  · rw [heq]
    refine ⟨ys', 16 + d.size, Or.inr ⟨d, rfl, hd, rfl⟩, ?_, fun x hx hout => ?_⟩
    · have hjoin := h.join
      rwa [Nat.add_assoc] at hjoin
    · rw [h.absorb_apply hx, store32_apply_of_disjoint _ _ hout]

/-- What `heap_free` does with a used chunk: it absorbs a free chunk behind it, and is absorbed by a
free chunk in front of it. -/
theorem heapFree_cases {h : Heap} (hrep : Rep L h.mem (xs ++ c :: ys)) (hc : c.used = true) :
    let m := mergeNext L h.mem c.addr
    let h' := heapFree L h (c.addr + 16)
    h'.availSize = (h.availSize + (16 + c.size)) % 2 ^ 32 ∧ h'.init = h.init ∧
      ((∀ d ∈ xs.getLast?, d.used = true) ∧ h'.mem = store32 m (c.addr + 4) 0 ∨
        ∃ xs' d, xs = xs' ++ [d] ∧ d.used = false ∧
          h'.mem = store32 (absorb m d.addr c.addr) (d.addr + 4) 0) := by
  intro m h'
  have hcmem : c ∈ xs ++ c :: ys := by simp
  have hflag : ¬ load32 h.mem (c.addr + 4) = 0 := by simp [hrep.used_eq hcmem, hc]
  have hlt := hrep.addr_lt hcmem
  have hchunk : offset (c.addr + 16) (2 ^ 32 - 16) = c.addr := by
    unfold offset
    omega
  have hfree : h' = { h with
      mem := store32 (mergePrev L m c.addr).1 (offset (mergePrev L m c.addr).2 4) 0
      availSize := (h.availSize + (16 + c.size)) % 2 ^ 32 } := by
    unfold h' heapFree
    rw [if_neg (by omega), hchunk]
    dsimp only
    rw [offset_eq (by omega : c.addr + 4 < 2 ^ 32), if_neg hflag, (hrep.header c hcmem).1]
  refine ⟨congrArg Heap.availSize hfree, (congrArg Heap.init hfree).trans rfl, ?_⟩
  obtain ⟨ys', after, -, hrep₁, -⟩ := hrep.mergeNext
  have hmem := congrArg Heap.mem hfree
  rcases mergePrev_cases hrep₁ with ⟨heq, hlast⟩ | ⟨xs', d, rfl, hd, heq⟩
  · grind [offset_eq]
  · have hlt' := hrep.addr_lt (c := d) (by simp)
    refine Or.inr ⟨xs', d, rfl, hd, hmem.trans ?_⟩
    rw [heq, offset_eq (by omega)]

/-- Freeing a used chunk: it takes in its free neighbours. -/
theorem heapFree_rep {h : Heap} (hrep : Rep L h.mem (xs ++ c :: ys)) (hc : c.used = true) :
    ∃ xs' ys' base before after, TrimLast xs xs' before ∧ TrimHead ys ys' after ∧
      Rep L (heapFree L h (c.addr + 16)).mem
        (xs' ++ ⟨base, before + c.size + after, false⟩ :: ys') := by
  obtain ⟨-, -, hcases⟩ := heapFree_cases hrep hc
  obtain ⟨ys', after, htrim, hrep₁, -⟩ := hrep.mergeNext
  rcases hcases with ⟨hlast, heq⟩ | ⟨xs', d, rfl, hd, heq⟩
  · refine ⟨xs, ys', c.addr, 0, after, Or.inl ⟨rfl, rfl, hlast⟩, htrim, ?_⟩
    rw [heq, Nat.zero_add]
    exact hrep₁.setUsed
  · refine ⟨xs', ys', d.addr, 16 + d.size, after, Or.inr ⟨d, rfl, hd, rfl⟩, htrim, ?_⟩
    have hjoin : Rep L (mergeNext L h.mem c.addr)
        (xs' ++ d :: ⟨c.addr, c.size + after, c.used⟩ :: ys') := by simpa using hrep₁
    have hused := hjoin.join.setUsed
    rw [heq]
    rwa [show d.size + 16 + (c.size + after) = 16 + d.size + c.size + after by omega] at hused

/-- Freeing a live block keeps the invariant; its chunk takes in its free neighbours. -/
theorem HeapInv.freed (h : HeapInv L s (xs ++ c :: ys)) {b : Block} (hb : b ∈ s.live)
    (hused : c.used = true) (hptr : c.addr + 16 = b.ptr) :
    ∃ xs' ys' base before after, TrimLast xs xs' before ∧ TrimHead ys ys' after ∧
      HeapInv L ⟨heapFree L s.heap b.ptr, s.live.erase b⟩
        (xs' ++ ⟨base, before + c.size + after, false⟩ :: ys') := by
  obtain ⟨havail, hinit, -⟩ := heapFree_cases h.rep hused
  obtain ⟨xs', ys', base, before, after, hxs, hys, hrep⟩ := heapFree_rep h.rep hused
  rw [hptr] at hrep havail hinit
  have hperm : (s.live.map Block.ptr).Perm ((c.addr + 16) :: (usedPtrs xs ++ usedPtrs ys)) := by
    grind [h.ptrs, usedPtrs_append, usedPtrs_cons_used]
  have herase : ((s.live.erase b).map Block.ptr).Perm (usedPtrs xs ++ usedPtrs ys) := by
    have hcons := (List.perm_cons_erase hb).map Block.ptr
    rw [List.map_cons, ← hptr] at hcons
    exact (hcons.symm.trans hperm).cons_inv
  obtain ⟨hchx, hchcy, -⟩ := List.isChain_append.mp h.noFreePair
  obtain ⟨-, hchy⟩ := List.isChain_cons.mp hchcy
  obtain ⟨hchx', hlast⟩ := hxs.chain hchx
  obtain ⟨hchy', hhead⟩ := hys.chain hchy
  refine ⟨xs', ys', base, before, after, hxs, hys, hinit.trans h.init, hrep, ?_, ?_, ?_, ?_⟩
  · refine List.isChain_append.mpr ⟨hchx', List.isChain_cons.mpr ⟨?_, hchy'⟩, ?_⟩
    · exact fun d hd => Or.inr (hhead d hd)
    · exact fun d hd _ _ => Or.inl (hlast d hd)
  · have hle := hrep.tiles.freeBytes_le
    have hend := L.pool_end
    have hx := hxs.freeBytes
    have hy := hys.freeBytes
    have hsum := h.avail
    simp only [freeBytes_append, freeBytes_cons, hused, if_true, Bool.false_eq_true, if_false]
      at hsum hle ⊢
    omega
  · rw [usedPtrs_append, usedPtrs_cons_free rfl, ← hxs.usedPtrs, ← hys.usedPtrs]
    exact herase
  · intro b' hb'
    obtain ⟨c', hc', hu', hp', hle'⟩ := h.fits b' (List.mem_of_mem_erase hb')
    refine ⟨c', ?_, hu', hp', hle'⟩
    -- a block still held is not the freed one
    have hne : c' ≠ c := by grind [h.ptrs, h.rep.tiles.usedPtrs_nodup]
    rcases List.mem_append.mp hc' with hc' | hc'
    · exact List.mem_append_left _ (hxs.mem hc' hu')
    · grind [hys.mem]

theorem HeapInv.free (h : HeapInv L s cs) {b : Block} (hb : b ∈ s.live) :
    ∃ cs', HeapInv L ⟨heapFree L s.heap b.ptr, s.live.erase b⟩ cs' := by
  obtain ⟨c, hc, hused, hptr, -⟩ := h.fits b hb
  obtain ⟨xs, ys, rfl⟩ := List.append_of_mem hc
  obtain ⟨xs', ys', base, before, after, -, -, hinv⟩ := h.freed hb hused hptr
  exact ⟨_, hinv⟩

/-- The history after an allocation. -/
def HeapHistory.record (s : HeapHistory) (allocSize : Nat) (r : Nat × Heap) : HeapHistory :=
  ⟨r.2, if r.1 = 0 then s.live else ⟨r.1, allocSize⟩ :: s.live⟩

/-- Carving a block out of a free chunk keeps the invariant. -/
theorem HeapInv.carve (h : HeapInv L s (xs ++ c :: ys)) (hfree : c.used = false)
    {alignedSize : Nat} (allocSize : Nat) (hfit : 16 + alignedSize ≤ c.size)
    (halloc : allocSize ≤ alignedSize) (hmod : alignedSize % 8 = 0) :
    HeapInv L
      ⟨{ s.heap with
          mem := carve L s.heap.mem c.addr allocSize alignedSize
          availSize := (s.heap.availSize + (2 ^ 32 - (16 + alignedSize))) % 2 ^ 32 },
        ⟨c.addr + 16, allocSize⟩ :: s.live⟩
      (xs ++ ⟨c.addr, alignedSize, true⟩ ::
        ⟨c.addr + 16 + alignedSize, c.size - (16 + alignedSize), false⟩ :: ys) := by
  refine ⟨h.init, h.rep.split hfit halloc hmod, ?_, ?_, ?_, ?_⟩
  · obtain ⟨hchx, hchc, -⟩ := List.isChain_append.mp h.noFreePair
    obtain ⟨hnext, hchy⟩ := List.isChain_cons.mp hchc
    refine List.isChain_append.mpr ⟨hchx, List.isChain_cons.mpr ⟨fun _ _ => Or.inl rfl,
      List.isChain_cons.mpr ⟨fun d hd => Or.inr ?_, hchy⟩⟩, fun d _ e he => Or.inr ?_⟩
    · exact (hnext d hd).resolve_left (by simp [hfree])
    · rw [List.head?_cons, Option.mem_some_iff] at he
      rw [← he]
  · grind [h.rep.tiles.freeBytes_le, L.pool_end, h.avail, freeBytes_append, freeBytes_cons]
  · grind [usedPtrs_append, usedPtrs_cons_used, usedPtrs_cons_free, h.ptrs]
  · intro b hb
    rcases List.mem_cons.mp hb with rfl | hb
    · exact ⟨_, List.mem_append_right _ List.mem_cons_self, rfl, rfl, halloc⟩
    · grind [h.fits]

/-- The size that a request is rounded up to. -/
def heapAlign (n : Nat) : Nat := (n + 7) / 8 * 8

theorem heapAlign_spec (n : Nat) : n ≤ heapAlign n ∧ heapAlign n % 8 = 0 := by
  unfold heapAlign
  omega

/-- Allocation from an initialized pool fails, or cuts a free chunk. -/
theorem HeapInv.malloc_cases (h : HeapInv L s cs) (lock : Bool) (allocSize : Nat) :
    (heapMalloc L s.heap lock allocSize = some (0, s.heap) ∧ (allocSize ≤ heapTotalSize →
      ∀ c ∈ cs, c.used = false → c.size < 16 + heapAlign allocSize)) ∨
      ∃ xs c ys, cs = xs ++ c :: ys ∧ c.used = false ∧ 16 + heapAlign allocSize ≤ c.size ∧
        heapMalloc L s.heap lock allocSize = some (c.addr + 16, { s.heap with
          mem := Mm.carve L s.heap.mem c.addr allocSize (heapAlign allocSize)
          availSize := (s.heap.availSize + (2 ^ 32 - (16 + heapAlign allocSize))) % 2 ^ 32 }) := by
  have hsize : heapTotalSize = 2 ^ 24 := rfl
  unfold heapMalloc
  rw [h.init]
  dsimp only
  rw [if_pos rfl]
  split_ifs with hbig hwrap havail
  · exact Or.inl ⟨rfl, fun hle => absurd hle (by omega)⟩
  · exact Or.inl ⟨rfl, fun hle => absurd hle (by omega)⟩
  · -- what is available is at least the size of every free chunk
    refine Or.inl ⟨rfl, fun _ c hc hfree => ?_⟩
    have hle := le_freeBytes hc hfree
    rw [← h.avail] at hle
    unfold heapAlign
    omega
  · rw [h.rep.findChunk]
    cases hfind : cs.find? fun c => 16 + (allocSize + 7) / 8 * 8 ≤ c.size && !c.used with
    | none => grind [heapAlign]
    | some c =>
      obtain ⟨hfit, hfree⟩ : 16 + (allocSize + 7) / 8 * 8 ≤ c.size ∧ c.used = false := by
        simpa using List.find?_some hfind
      obtain ⟨xs, ys, rfl⟩ := List.append_of_mem (List.mem_of_find?_eq_some hfind)
      exact Or.inr ⟨xs, c, ys, rfl, hfree, hfit, rfl⟩

/-- Allocation from an initialized pool returns and keeps the invariant. -/
theorem HeapInv.malloc (h : HeapInv L s cs) (lock : Bool) (allocSize : Nat) :
    ∃ r cs', heapMalloc L s.heap lock allocSize = some r ∧
      HeapInv L (s.record allocSize r) cs' := by
  rcases h.malloc_cases lock allocSize with ⟨heq, -⟩ | ⟨xs, c, ys, rfl, hfree, hfit, heq⟩
  · exact ⟨_, cs, heq, h⟩
  · obtain ⟨hle, hmod⟩ := heapAlign_spec allocSize
    have hcarve := h.carve hfree allocSize hfit hle hmod
    exact ⟨_, _, heq, by simpa [HeapHistory.record] using hcarve⟩

/-- Writing into a live block keeps the invariant. -/
theorem HeapInv.write (h : HeapInv L s cs) {b : Block} (hb : b ∈ s.live) {addr : Nat}
    (hlo : b.ptr ≤ addr) (hhi : addr < b.ptr + b.bytes) (value : Byte) :
    HeapInv L ⟨{ s.heap with mem := Function.update s.heap.mem addr value }, s.live⟩ cs := by
  obtain ⟨c, hc, -, hp, hle⟩ := h.fits b hb
  refine ⟨h.init, h.rep.of_eq_on fun x hx => Function.update_of_ne ?_ _ _, h.noFreePair, h.avail,
    h.ptrs, h.fits⟩
  have hcmem := h.rep.tiles.mem hc
  have hhead := L.headNode_apart
  rintro rfl
  rcases hx with ⟨d, hd, h1, h2⟩ | hx
  · rcases h.rep.tiles.apart hc hd with rfl | h | h <;> omega
  · omega

/-- Without the lock, the first allocation is refused for its size or dereferences the null list
head. -/
theorem Fresh.malloc_unlocked (h : Fresh L s) (allocSize : Nat) :
    heapMalloc L s.heap false allocSize = none ∨
      heapMalloc L s.heap false allocSize = some (0, s.heap) := by
  have hinit : kheapInit L s.heap false = s.heap := rfl
  have hfind : ∀ req, findChunk L s.heap.mem req heapFuel 0 = none := fun req => by
    rw [heapFuel, findChunk, if_neg (Ne.symm L.headNode_ne), if_pos rfl]
  unfold heapMalloc
  simp only [h.init, hinit, Bool.false_eq_true, if_false, h.head, hfind]
  split_ifs
  · exact Or.inr rfl
  · exact Or.inr rfl
  · exact Or.inr rfl
  · exact Or.inl rfl

theorem heapMalloc_kheapInit (h : Heap) (hinit : h.init = false) (allocSize : Nat) :
    heapMalloc L h true allocSize = heapMalloc L (kheapInit L h true) true allocSize := by
  have hdone : (kheapInit L h true).init = true := rfl
  unfold heapMalloc
  simp only [hinit, hdone, Bool.false_eq_true, if_false, if_true]

end

/-! ## Runs -/

/-- The states a history can be in: stopped, not yet initialized, or in use. -/
def HistoryOk (s : Option HeapHistory) : Prop :=
  ∀ h, s = some h → Fresh L h ∨ ∃ cs, HeapInv L h cs

section

variable {L}

/-- An enabled operation that gets its lock returns, and leaves a pool in use or untouched. -/
theorem exec_some {s : HeapHistory} (hs : Fresh L s ∨ ∃ cs, HeapInv L s cs) (op : HeapOp)
    (hen : s.Enabled op) (hlock : s.heap.init = true ∨ op.locked = true) :
    ∃ s', s.exec L op = some s' ∧ ∃ cs, HeapInv L s' cs := by
  cases op with
  | malloc allocSize lock =>
    rcases hs with hs | ⟨cs, hs⟩
    · have hl : lock = true := by simpa [hs.init, HeapOp.locked] using hlock
      obtain ⟨r, cs', hr, hinv⟩ := hs.inv_kheapInit.malloc true allocSize.toNat
      refine ⟨_, ?_, cs', hinv⟩
      change (heapMalloc L s.heap lock _).map _ = _
      rw [hl, heapMalloc_kheapInit _ hs.init, hr]
      rfl
    · obtain ⟨r, cs', hr, hinv⟩ := hs.malloc lock allocSize.toNat
      refine ⟨_, ?_, cs', hinv⟩
      change (heapMalloc L s.heap lock _).map _ = _
      rw [hr]
      rfl
  | free b =>
    rcases hs with hs | ⟨cs, hs⟩
    · have hb : b ∈ s.live := hen
      exact absurd (hs.live ▸ hb) List.not_mem_nil
    · exact ⟨_, rfl, hs.free hen⟩
  | write addr value =>
    obtain ⟨b, hb, hlo, hhi⟩ := hen
    rcases hs with hs | ⟨cs, hs⟩
    · exact absurd (hs.live ▸ hb) List.not_mem_nil
    · exact ⟨_, rfl, cs, hs.write hb hlo hhi value⟩

theorem HistoryOk.step {s : Option HeapHistory} (hs : HistoryOk L s) (op : HeapOp)
    (hen : (heapSystem L).enabled s op) : HistoryOk L ((heapSystem L).exec s op) := by
  intro h' hh'
  obtain ⟨h, rfl, hexec⟩ := Option.bind_eq_some_iff.mp hh'
  by_cases hlock : h.heap.init = true ∨ op.locked = true
  · obtain ⟨s', hs', hinv⟩ := exec_some (hs h rfl) op (hen h rfl) hlock
    rw [hexec, Option.some.injEq] at hs'
    exact Or.inr (hs' ▸ hinv)
  · -- a first allocation without its lock
    rw [not_or, Bool.not_eq_true, Bool.not_eq_true] at hlock
    rcases hs h rfl with hfresh | ⟨cs, hinv⟩
    · cases op with
      | malloc allocSize lock =>
        obtain rfl : lock = false := hlock.2
        rw [HeapHistory.exec, Option.map_eq_some_iff] at hexec
        obtain ⟨r, hr, rfl⟩ := hexec
        rcases hfresh.malloc_unlocked allocSize.toNat with heq | heq
        · rw [heq] at hr
          exact absurd hr (by simp)
        · rw [heq, Option.some.injEq] at hr
          subst hr
          exact Or.inl hfresh
      | free b => exact absurd hlock.2 (by simp [HeapOp.locked])
      | write addr value => exact absurd hlock.2 (by simp [HeapOp.locked])
    · exact absurd hinv.init (by simp [hlock.1])

end

/-- The states that histories reach. -/
theorem reachable_ok {mem : Memory} {ops : List HeapOp}
    (hops : (heapSystem L).Legal (some ⟨Heap.start L mem, []⟩) ops) {s : HeapHistory}
    (hs : (heapSystem L).run (some ⟨Heap.start L mem, []⟩) ops = some s) :
    Fresh L s ∨ ∃ cs, HeapInv L s cs := by
  have hstart : HistoryOk L (some ⟨Heap.start L mem, []⟩) := by
    rintro h ⟨⟩
    exact Or.inl ⟨rfl, rfl, rfl, load32_store32 _ _ _⟩
  exact System.run_invariant (fun _ op h hen => h.step op hen) hstart hops s hs

/-- The heap's representation invariant. Along every history of a pool, once it is initialized its
chunk list tiles the pool, has no two free neighbours and accounts for `avail_size`; the blocks
that callers hold are the payloads of the used chunks: 8-aligned, inside the pool, and apart from
each other and from every header. An operation that gets its lock never gets stuck. -/
theorem chunks_tile_pool (mem : Memory) (ops : List HeapOp)
    (hops : (heapSystem L).Legal (some ⟨Heap.start L mem, []⟩) ops) (s : HeapHistory)
    (hs : (heapSystem L).run (some ⟨Heap.start L mem, []⟩) ops = some s) :
    (s.heap.init = true → ∃ cs, s.heap.chunks L = some cs ∧
      Tiles L.pool cs (L.pool + heapTotalSize) ∧
      cs.IsChain (fun c d => c.used = true ∨ d.used = true) ∧
      s.heap.availSize = ((cs.filter fun c => !c.used).map fun c => 16 + c.size).sum ∧
      (s.live.map Block.ptr).Perm ((cs.filter Chunk.used).map fun c => c.addr + 16) ∧
      ∀ b ∈ s.live, ∃ c ∈ cs, c.used = true ∧ c.addr + 16 = b.ptr ∧ b.bytes ≤ c.size ∧
        b.ptr % 8 = 0 ∧ L.pool ≤ b.ptr ∧ b.ptr + c.size ≤ L.pool + heapTotalSize ∧
        (∀ d ∈ cs, b.ptr + c.size ≤ d.addr ∨ d.addr + 16 ≤ b.ptr) ∧
        ∀ d ∈ cs, d ≠ c → b.ptr + c.size ≤ d.addr + 16 ∨ d.addr + 16 + d.size ≤ b.ptr) ∧
    ∀ op, s.Enabled op → s.heap.init = true ∨ op.locked = true → (s.exec L op).isSome := by
  have hok := reachable_ok L hops hs
  refine ⟨fun hinit => ?_, fun op hen hlock => ?_⟩
  · obtain ⟨cs, hinv⟩ := hok.resolve_left fun hf => by simp [hf.init] at hinit
    have htiles := hinv.rep.tiles
    refine ⟨cs, hinv.rep.chunks, htiles, hinv.noFreePair, ?_, hinv.ptrs, fun b hb => ?_⟩
    · rw [hinv.avail]
      clear hinv htiles hok
      induction cs with
      | nil => rfl
      | cons c cs ih => cases hc : c.used <;> simp [hc, ih]
    · obtain ⟨c, hc, hused, hptr, hbytes⟩ := hinv.fits b hb
      have hmem := htiles.mem hc
      have halign := htiles.aligned L.aligned hinv.rep.size_mod hc
      refine ⟨c, hc, hused, hptr, hbytes, by omega, by omega, by omega, ?_, ?_⟩
      · intro d hd
        rcases htiles.apart hc hd with rfl | h | h <;> omega
      · intro d hd hne
        rcases htiles.apart hc hd with rfl | h | h
        · exact absurd rfl hne
        · omega
        · omega
  · obtain ⟨s', hs', -⟩ := exec_some hok op hen hlock
    rw [hs']
    rfl

/-- A pool at 2 MB whose list head lies at 1 MB. -/
def lowLayout : HeapLayout where
  pool := 0x200000
  headNode := 0x100000
  aligned := by decide
  pool_end := by decide
  headNode_ne := by decide
  headNode_end := by decide
  headNode_apart := by decide

/-- The first allocation of a pool. -/
theorem chunks_tile_pool_first :
    ∃ s, (heapSystem lowLayout).run (some ⟨Heap.start lowLayout fun _ => 0, []⟩)
        [.malloc 100 true] = some s ∧
      s.heap.init = true ∧ ∃ cs, s.heap.chunks lowLayout = some cs ∧
        Tiles 0x200000 cs 0x1200000 := by
  have hfresh : Fresh lowLayout ⟨Heap.start lowLayout fun _ => 0, []⟩ :=
    ⟨rfl, rfl, rfl, load32_store32 _ _ _⟩
  obtain ⟨s, hs, cs, hinv⟩ := exec_some (Or.inl hfresh) (.malloc 100 true) trivial
    (Or.inr rfl)
  have hrun : (heapSystem lowLayout).run (some ⟨Heap.start lowLayout fun _ => 0, []⟩)
      [.malloc 100 true] = some s := hs
  obtain ⟨cs, hcs, htiles, -⟩ := (chunks_tile_pool lowLayout (fun _ => 0) [.malloc 100 true]
    ⟨fun _ _ => trivial, trivial⟩ s hrun).1 hinv.init
  exact ⟨s, hrun, hinv.init, cs, hcs, htiles⟩

end Ukernel.Mm
