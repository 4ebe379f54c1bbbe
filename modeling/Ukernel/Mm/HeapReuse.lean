import Ukernel.Mm.HeapRuns

/-!
# What freeing gives back

When all that callers hold has been freed, in whatever order, the pool is as it was after its
initialization: one free chunk. As long as something is held, a freed block need not be good for
anything.

## Why a freed block may be too small for what it held

`heap_malloc` always cuts the chunk it has found in two, and takes the header of the second one out
of the payload of the first. The search therefore looks for a payload of 16 bytes more than are
asked for. A chunk that was used for `n` bytes has a payload of `n` bytes; once freed it fits a
request for `n` bytes again only if a free neighbour has been merged into it. The branch of
`heap_malloc` that would use a chunk without cutting it is never taken.

## Main definitions

* `freeSpan`: the bytes that a free neighbour adds to a freed chunk

## Main results

* `HeapInv.malloc_iff`: when a request can be met
* `heapFree_frame`: what a free writes to
* `heap_returns_to_initial`: a pool of which nothing is held
* `freed_space_reusable`: when a freed block can be used again
-/

namespace Ukernel.Mm

open Machine Lib

variable {L : HeapLayout} {s : HeapHistory} {xs ys xs' ys' cs : List Chunk} {c d : Chunk}

/-! ## A pool of which nothing is held -/

/-- Free chunks do not lie next to each other, so that there is one. -/
theorem HeapInv.eq_singleton (h : HeapInv L s cs) (hlive : s.live = []) :
    cs = [⟨L.pool, heapTotalSize - 16, false⟩] := by
  have hptrs : usedPtrs cs = [] := by grind [h.ptrs, List.nil_perm]
  have hfree (c : Chunk) (hc : c ∈ cs) : c.used = false := by
    by_contra hno
    have hmem : c.addr + 16 ∈ usedPtrs cs :=
      List.mem_map.mpr ⟨c, List.mem_filter.mpr ⟨hc, Bool.not_eq_false _ ▸ hno⟩, rfl⟩
    rw [hptrs] at hmem
    exact List.not_mem_nil hmem
  have hsize : heapTotalSize = 2 ^ 24 := rfl
  cases cs with
  | nil =>
    have htiles : L.pool = L.pool + heapTotalSize := h.rep.tiles
    omega
  | cons c cs =>
    cases cs with
    | nil =>
      obtain ⟨haddr, hend⟩ : c.addr = L.pool ∧ L.pool + 16 + c.size = L.pool + heapTotalSize :=
        h.rep.tiles
      have hc := hfree c List.mem_cons_self
      obtain ⟨addr, size, used⟩ := c
      dsimp only at haddr hend hc
      obtain rfl : size = heapTotalSize - 16 := by omega
      rw [haddr, hc]
    | cons d cs =>
      have hpair := (List.isChain_cons_cons.mp h.noFreePair).1
      rw [hfree c (by simp), hfree d (by simp)] at hpair
      exact absurd hpair (by decide)

/-- A pool is in use once an allocation has had its lock. -/
theorem init_of_locked {ops : List HeapOp} (hs : Fresh L s ∨ ∃ cs, HeapInv L s cs)
    (hops : (heapSystem L).Legal (some s) ops) {s' : HeapHistory}
    (hrun : (heapSystem L).run (some s) ops = some s')
    (hinit : s.heap.init = true ∨ ∃ n, HeapOp.malloc n true ∈ ops) : s'.heap.init = true := by
  induction ops generalizing s with
  | nil =>
    obtain rfl : s = s' := Option.some.inj hrun
    refine hinit.resolve_right ?_
    rintro ⟨n, hn⟩
    exact List.not_mem_nil hn
  | cons op ops ih =>
    have hok : HistoryOk L (some s) := by
      rintro h ⟨⟩
      exact hs
    have hnext := hok.step op hops.1
    cases hexec : (heapSystem L).exec (some s) op with
    | none =>
      -- a history that has stopped does not go on
      have hstop : (heapSystem L).run none ops = none := by
        clear ih hops hrun hinit
        induction ops with
        | nil => rfl
        | cons op ops ih => exact ih
      rw [System.run_cons, hexec, hstop] at hrun
      exact nomatch hrun
    | some s₁ =>
      rw [System.run_cons, hexec] at hrun
      rw [hexec] at hnext
      have hlegal := hops.2
      rw [hexec] at hlegal
      refine ih (hnext s₁ rfl) hlegal hrun ?_
      by_cases hlock : s.heap.init = true ∨ op.locked = true ∧ ∃ n, op = .malloc n true
      · obtain ⟨s₂, hs₂, cs, hinv⟩ := exec_some hs op (hops.1 s rfl) (hlock.imp_right And.left)
        have heq : s.exec L op = some s₁ := hexec
        rw [heq] at hs₂
        exact Or.inl (Option.some.inj hs₂ ▸ hinv.init)
      · obtain ⟨hno, hother⟩ := not_or.mp hlock
        obtain ⟨n, hn⟩ := hinit.resolve_left hno
        rcases List.mem_cons.mp hn with rfl | hn
        · exact absurd ⟨rfl, n, rfl⟩ hother
        · exact Or.inr ⟨n, hn⟩

/-- After every history in which all blocks have been freed, the pool is one free chunk, and all of
its bytes are available. -/
theorem heap_returns_to_initial (L : HeapLayout) (mem : Memory) (ops : List HeapOp)
    (hops : (heapSystem L).Legal (some ⟨Heap.start L mem, []⟩) ops) (s : HeapHistory)
    (hs : (heapSystem L).run (some ⟨Heap.start L mem, []⟩) ops = some s)
    (hused : ∃ n, HeapOp.malloc n true ∈ ops) (hlive : s.live = []) :
    s.heap.chunks L = some [⟨L.pool, heapTotalSize - 16, false⟩] ∧
      s.heap.availSize = heapTotalSize := by
  have hfresh : Fresh L ⟨Heap.start L mem, []⟩ := ⟨rfl, rfl, rfl, load32_store32 _ _ _⟩
  have hinit := init_of_locked (Or.inl hfresh) hops hs (Or.inr hused)
  rcases reachable_ok L hops hs with hno | ⟨cs, hinv⟩
  · rw [hno.init] at hinit
    exact absurd hinit Bool.false_ne_true
  · have hcs := hinv.eq_singleton hlive
    refine ⟨hcs ▸ hinv.rep.chunks, ?_⟩
    have hsize : heapTotalSize = 2 ^ 24 := rfl
    rw [hinv.avail, hcs, freeBytes_cons, freeBytes_nil, if_neg Bool.false_ne_true]
    dsimp only
    omega

/-- A pool at 2 MB that nobody has used. -/
def lowStart : Option HeapHistory := some ⟨Heap.start lowLayout fun _ => 0, []⟩

/-- What is held after a run, as far as it has not stopped. -/
theorem live_of_run (ops : List HeapOp) (live : List Block)
    (h : ((heapSystem lowLayout).run lowStart ops).map HeapHistory.live = some live)
    (s : HeapHistory) (hs : (heapSystem lowLayout).run lowStart ops = some s) : s.live = live := by
  rw [hs] at h
  exact Option.some.inj h

/-- Two blocks, freed in the order in which they were taken. -/
def takeAndFree : List HeapOp :=
  [.malloc 8 true, .malloc 100 true, .free ⟨0x200010, 8⟩, .free ⟨0x200028, 100⟩]

theorem takeAndFree_legal : (heapSystem lowLayout).Legal lowStart takeAndFree := by
  have h₂ := live_of_run (takeAndFree.take 2) [⟨0x200028, 100⟩, ⟨0x200010, 8⟩]
    (by decide +kernel)
  have h₃ := live_of_run (takeAndFree.take 3) [⟨0x200028, 100⟩] (by decide +kernel)
  refine ⟨fun _ _ => trivial, fun _ _ => trivial, fun s hs => ?_, fun s hs => ?_, trivial⟩
  · change _ ∈ s.live
    rw [h₂ s hs]
    exact List.mem_cons_of_mem _ List.mem_cons_self
  · change _ ∈ s.live
    rw [h₃ s hs]
    exact List.mem_cons_self

theorem heap_returns_to_initial_two :
    ∃ s, (heapSystem lowLayout).run lowStart takeAndFree = some s ∧ s.live = [] ∧
      s.heap.chunks lowLayout = some [⟨0x200000, heapTotalSize - 16, false⟩] ∧
      s.heap.availSize = heapTotalSize := by
  have hend : ((heapSystem lowLayout).run lowStart takeAndFree).map HeapHistory.live = some [] := by
    decide +kernel
  obtain ⟨s, hs, hlive⟩ := Option.map_eq_some_iff.mp hend
  exact ⟨s, hs, hlive, heap_returns_to_initial lowLayout (fun _ => 0) takeAndFree takeAndFree_legal
    s hs ⟨8, List.mem_cons_self⟩ hlive⟩

/-! ## When a request can be met -/

/-- A request is met if and only if there is a free chunk that can be cut. -/
theorem HeapInv.malloc_iff (h : HeapInv L s cs) (lock : Bool) {n : Nat} (hn : n ≤ heapTotalSize) :
    (∃ r, heapMalloc L s.heap lock n = some r ∧ r.1 ≠ 0) ↔
      ∃ c ∈ cs, c.used = false ∧ 16 + heapAlign n ≤ c.size := by
  rcases h.malloc_cases lock n with ⟨heq, hnone⟩ | ⟨xs, c, ys, rfl, hfree, hfit, heq⟩
  · grind
  · grind

/-! ## A block that is freed -/

/-- The bytes that a neighbour adds to a chunk that is freed. -/
def freeSpan (d : Option Chunk) : Nat := d.elim 0 fun d => if d.used then 0 else 16 + d.size

theorem TrimLast.eq_freeSpan {n : Nat} (h : TrimLast xs xs' n) : n = freeSpan xs.getLast? := by
  rcases h with ⟨rfl, rfl, hlast⟩ | ⟨d, rfl, hd, rfl⟩
  · cases hl : xs'.getLast? with
    | none => rfl
    | some d => exact (if_pos (hlast d hl)).symm
  · rw [List.getLast?_concat]
    exact (if_neg (by simp [hd])).symm

theorem TrimHead.eq_freeSpan {n : Nat} (h : TrimHead ys ys' n) : n = freeSpan ys.head? := by
  rcases h with ⟨rfl, rfl, hhead⟩ | ⟨d, rfl, hd, rfl⟩
  · cases hl : ys'.head? with
    | none => rfl
    | some d => exact (if_pos (hhead d hl)).symm
  · exact (if_neg (by simp [hd])).symm

/-- A chunk is still there, or has become part of the one that was freed. -/
theorem TrimLast.mem_or {n : Nat} (h : TrimLast xs xs' n) (hd : d ∈ xs) : d ∈ xs' ∨ d.size ≤ n := by
  rcases h with ⟨rfl, -, -⟩ | ⟨e, rfl, -, rfl⟩
  · exact Or.inl hd
  · grind

theorem TrimHead.mem_or {n : Nat} (h : TrimHead ys ys' n) (hd : d ∈ ys) : d ∈ ys' ∨ d.size ≤ n := by
  rcases h with ⟨rfl, -, -⟩ | ⟨e, rfl, -, rfl⟩
  · exact Or.inl hd
  · grind

theorem TrimLast.subset {n : Nat} (h : TrimLast xs xs' n) : xs' ⊆ xs := by
  rcases h with ⟨rfl, -, -⟩ | ⟨d, rfl, -, -⟩
  · exact List.Subset.refl _
  · exact List.subset_append_left _ _

theorem TrimHead.subset {n : Nat} (h : TrimHead ys ys' n) : ys' ⊆ ys := by
  rcases h with ⟨rfl, -, -⟩ | ⟨d, rfl, -, -⟩
  · exact List.Subset.refl _
  · exact List.subset_cons_self _ _

/-- Freeing a chunk clears one flag and writes sizes and list nodes. If a free chunk in front has
taken it in, that one's flag is the one. -/
theorem heapFree_frame {h : Heap} (hrep : Rep L h.mem (xs ++ c :: ys)) (hc : c.used = true) :
    let m := (heapFree L h (c.addr + 16)).mem
    ∃ base, load32 m (base + 4) = 0 ∧
      (base = c.addr ∧ (∀ d ∈ xs.getLast?, d.used = true) ∨
        load32 m c.addr < heapTotalSize ∧ ∃ d ∈ xs, d ∈ xs.getLast? ∧ d.used = false ∧
          base = d.addr) ∧
      ∀ x, ¬InNodes L (xs ++ c :: ys) x → (∀ e ∈ xs ++ c :: ys, x < e.addr ∨ e.addr + 4 ≤ x) →
        x < base + 4 ∨ base + 8 ≤ x → m x = h.mem x := by
  intro m
  obtain ⟨-, -, hcases⟩ := heapFree_cases hrep hc
  obtain ⟨ys', after, htrim, hrep₁, hframe⟩ := hrep.mergeNext
  rcases hcases with ⟨hlast, heq⟩ | ⟨xs', d, rfl, hd, heq⟩
  · refine ⟨c.addr, ?_, Or.inl ⟨rfl, hlast⟩, fun x hn hsize hflag => ?_⟩
    · exact (congrArg (load32 · (c.addr + 4)) heq).trans (load32_store32 _ _ _)
    · change (heapFree L h (c.addr + 16)).mem x = _
      rw [heq, store32_apply_of_disjoint _ _ (by omega)]
      exact hframe x hn (hsize c (by simp))
  · have hjoin : Rep L (mergeNext L h.mem c.addr)
        (xs' ++ d :: ⟨c.addr, c.size + after, c.used⟩ :: ys') := by simpa using hrep₁
    have hgap := hjoin.next_addr
    dsimp only at hgap
    refine ⟨d.addr, ?_, Or.inr ⟨?_, d, by simp, by simp, hd, rfl⟩, fun x hn hsize hflag => ?_⟩
    · exact (congrArg (load32 · (d.addr + 4)) heq).trans (load32_store32 _ _ _)
    · -- the size that the freed chunk had before it was taken in
      have hword : load32 m c.addr = load32 (mergeNext L h.mem c.addr) c.addr := by
        refine load32_congr fun x h1 h2 => ?_
        change (heapFree L h (c.addr + 16)).mem x = _
        rw [heq, store32_apply_of_disjoint _ _ (by omega)]
        have hn := hjoin.tiles.not_inNodes (c := ⟨c.addr, c.size + after, c.used⟩) (x := x)
          (by simp) h1 (by dsimp only; omega)
        rw [hjoin.absorb_apply hn, store32_apply_of_disjoint _ _ (by omega)]
      rw [hword, (hjoin.header ⟨c.addr, c.size + after, c.used⟩ (by simp)).1]
      have hmem := hjoin.tiles.mem (c := ⟨c.addr, c.size + after, c.used⟩) (by simp)
      omega
    · change (heapFree L h (c.addr + 16)).mem x = _
      have hn' : ¬InNodes L (xs' ++ d :: ⟨c.addr, c.size + after, c.used⟩ :: ys') x := by
        grind [not_inNodes_iff, htrim.subset]
      have hsize' := hsize d (by simp)
      rw [heq, store32_apply_of_disjoint _ _ (by omega)]
      refine (hjoin.absorb_apply hn').trans ?_
      rw [store32_apply_of_disjoint _ _ hsize']
      exact hframe x hn (hsize c (by simp))

/-- The chunk of a block is the used one at its address. -/
theorem HeapInv.chunk_of_live (h : HeapInv L s cs) {b : Block} (hb : b ∈ s.live) (hc : c ∈ cs)
    (hptr : c.addr + 16 = b.ptr) : c.used = true ∧ b.bytes ≤ c.size := by
  obtain ⟨d, hd, hused, hptr', hle⟩ := h.fits b hb
  rcases h.rep.tiles.apart hc hd with rfl | hapart | hapart
  · exact ⟨hused, hle⟩
  · omega
  · omega

/-- Whoever holds a block holds it of a pool in use. -/
theorem HeapInv.of_live (h : Fresh L s ∨ ∃ cs, HeapInv L s cs) {b : Block} (hb : b ∈ s.live) :
    ∃ cs, HeapInv L s cs := by
  refine h.resolve_left fun hno => ?_
  rw [hno.live] at hb
  exact List.not_mem_nil hb

/-- After a block of `n` bytes has been freed, a request for at most as many is met if and only if
there is another free chunk that can be cut, or the chunk of the block can, together with its free
neighbours. -/
theorem freed_space_reusable (L : HeapLayout) (mem : Memory) (ops : List HeapOp)
    (hops : (heapSystem L).Legal (some ⟨Heap.start L mem, []⟩) ops) (s : HeapHistory)
    (hs : (heapSystem L).run (some ⟨Heap.start L mem, []⟩) ops = some s) (b : Block)
    (hb : b ∈ s.live) (m : Nat) (hm : m ≤ b.bytes) (lock : Bool) (xs ys : List Chunk) (c : Chunk)
    (hcs : s.heap.chunks L = some (xs ++ c :: ys)) (hptr : c.addr + 16 = b.ptr) :
    (∃ r, heapMalloc L (heapFree L s.heap b.ptr) lock m = some r ∧ r.1 ≠ 0) ↔
      (∃ d ∈ xs ++ ys, d.used = false ∧ 16 + heapAlign m ≤ d.size) ∨
        16 + heapAlign m ≤ freeSpan xs.getLast? + c.size + freeSpan ys.head? := by
  obtain ⟨cs, hinv⟩ := HeapInv.of_live (reachable_ok L hops hs) hb
  obtain rfl : cs = xs ++ c :: ys := Option.some.inj (hinv.rep.chunks.symm.trans hcs)
  have hcmem : c ∈ xs ++ c :: ys := by simp
  obtain ⟨hused, hbytes⟩ := hinv.chunk_of_live hb hcmem hptr
  have hroom : m ≤ heapTotalSize := by
    have hin := hinv.rep.tiles.mem hcmem
    omega
  obtain ⟨xs', ys', base, before, after, hxs, hys, hfreed⟩ := hinv.freed hb hused hptr
  refine (hfreed.malloc_iff lock hroom).trans ?_
  rw [← hxs.eq_freeSpan, ← hys.eq_freeSpan]
  constructor
  · grind [hxs.subset, hys.subset]
  · -- a neighbour that would do is now part of the freed chunk
    have hself : (⟨base, before + c.size + after, false⟩ : Chunk) ∈
        xs' ++ ⟨base, before + c.size + after, false⟩ :: ys' := by simp
    rintro (⟨d, hd, hfree, hfit⟩ | hfit)
    · grind [hxs.mem_or, hys.mem_or]
    · exact ⟨_, hself, rfl, hfit⟩

/-- Two blocks that leave a chunk without payload at the end of the pool. -/
def fullPool : List HeapOp := [.malloc 8 true, .malloc 16777160 true]

/-- In a pool with room the block of 8 bytes is given again. -/
theorem freed_space_reusable_room :
    ∃ s, (heapSystem lowLayout).run lowStart [.malloc 8 true] = some s ∧
      ∃ r, heapMalloc lowLayout (heapFree lowLayout s.heap 0x200010) true 8 = some r ∧ r.1 ≠ 0 := by
  have hend : ((heapSystem lowLayout).run lowStart [.malloc 8 true]).map
      (fun s => (s.live, s.heap.chunks lowLayout)) = some ([⟨0x200010, 8⟩],
        some [⟨0x200000, 8, true⟩, ⟨0x200018, 16777176, false⟩]) := by
    decide +kernel
  obtain ⟨s, hs, heq⟩ := Option.map_eq_some_iff.mp hend
  obtain ⟨hlive, hchunks⟩ := Prod.mk.inj heq
  refine ⟨s, hs, (freed_space_reusable lowLayout (fun _ => 0) [.malloc 8 true]
    ⟨fun _ _ => trivial, trivial⟩ s hs ⟨0x200010, 8⟩ (hlive ▸ List.mem_cons_self) 8 (Nat.le_refl 8)
    true [] _ _ hchunks rfl).mpr (Or.inr ?_)⟩
  decide

/-- In a full pool the block of 8 bytes is freed, and a request for 8 bytes is refused. -/
theorem freed_space_lost :
    (heapSystem lowLayout).Legal lowStart fullPool ∧
      ∃ s, (heapSystem lowLayout).run lowStart fullPool = some s ∧ ⟨0x200010, 8⟩ ∈ s.live ∧
        ¬∃ r, heapMalloc lowLayout (heapFree lowLayout s.heap 0x200010) true 8 = some r ∧
          r.1 ≠ 0 := by
  have hend : ((heapSystem lowLayout).run lowStart fullPool).map
      (fun s => (s.live, (heapMalloc lowLayout (heapFree lowLayout s.heap 0x200010) true 8).map
        Prod.fst)) = some ([⟨0x200028, 16777160⟩, ⟨0x200010, 8⟩], some 0) := by
    decide +kernel
  obtain ⟨s, hs, heq⟩ := Option.map_eq_some_iff.mp hend
  obtain ⟨hlive, hnull⟩ := Prod.mk.inj heq
  refine ⟨⟨fun _ _ => trivial, fun _ _ => trivial, trivial⟩, s, hs, ?_, ?_⟩
  · rw [hlive]
    exact List.mem_cons_of_mem _ List.mem_cons_self
  · grind

end Ukernel.Mm
