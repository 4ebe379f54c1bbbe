import Ukernel.Mm.HeapReuse

/-!
# Freeing a block twice

`heap_free` looks at the header in front of the pointer and does nothing if the chunk is not in use.
This is meant to make a second free of the same block harmless, as long as no later allocation has
been given the bytes of the header.

## Why it is not enough

The flag is cleared at the end of `heap_free`, and in whichever chunk has become the free one. If
the chunk in front was free, the freed chunk is merged into it: that chunk is marked as free, which
it was already, and the header of the freed one, now in the middle of a payload, goes on to say that
it is in use. A second free believes it and counts the bytes as available once more, "more memory
than the pool actually contains" in the words of the source.

## Main definitions

* `sparingSystem`: histories in which no allocation takes the bytes of a header
* `Relic`: what is left of the header of a freed block

## Main results

* `HeapInv.free_relic`: the first free
* `Relic.step`: what happens to the header before the second one
* `double_free_harmless`: the second free
-/

namespace Ukernel.Mm

open Machine Lib

/-- No allocation takes one of the 16 bytes in front of `p`: neither for its own header or payload,
nor for the header of the chunk that it cuts off. -/
def HeapHistory.Spares (L : HeapLayout) (p : Nat) (s : HeapHistory) : HeapOp → Prop
  | .malloc n lock => ∀ r, heapMalloc L s.heap lock n.toNat = some r → r.1 ≠ 0 →
      p ≤ r.1 - 16 ∨ r.1 + heapAlign n.toNat + 16 ≤ p - 16
  | _ => True

/-- Histories in which the 16 bytes in front of `p` are not taken. -/
def sparingSystem (L : HeapLayout) (p : Nat) : System (Option HeapHistory) HeapOp where
  exec := (heapSystem L).exec
  enabled s op := ∀ h, s = some h → h.Enabled op ∧ h.Spares L p op

variable {L : HeapLayout} {s : HeapHistory} {xs ys xs' ys' cs : List Chunk} {c d : Chunk}
  {p v x : Nat}

/-! ## What is left of a header -/

/-- The header in front of `p` is that of a free chunk, if its flag `v` says so, or lies in the
payload of one. -/
def Covers (p v : Nat) (cs : List Chunk) : Prop :=
  ∃ d ∈ cs, d.used = false ∧
    (v = 0 ∧ d.addr + 16 = p ∨ d.addr + 32 ≤ p ∧ p ≤ d.addr + 16 + d.size)

/-- What is left of the header in front of `p`: the free chunk it lies in, and the flag `v`. -/
structure Relic (L : HeapLayout) (p v : Nat) (s : HeapHistory) (cs : List Chunk) : Prop where
  inv : HeapInv L s cs
  flag : load32 s.heap.mem (p - 12) = v
  size : v ≠ 0 → load32 s.heap.mem (p - 16) < heapTotalSize
  cover : Covers p v cs

/-- Size and flag of the header lie outside of all list nodes. -/
theorem Relic.not_inNodes (h : Relic L p v s cs) (hlo : p - 16 ≤ x) (hhi : x < p - 8) :
    ¬InNodes L cs x := by
  obtain ⟨d, hd, -, hd'⟩ := h.cover
  have hmem := h.inv.rep.tiles.mem hd
  have hhead := L.headNode_apart
  rcases hd' with ⟨-, hp⟩ | ⟨h1, h2⟩
  · exact h.inv.rep.tiles.not_inNodes hd (by omega) (by omega)
  · refine not_inNodes_iff.mpr ⟨fun e he => ?_, by omega⟩
    rcases h.inv.rep.tiles.apart hd he with rfl | h | h <;> omega

/-- The state after a step that leaves size and flag alone. -/
theorem Relic.keep (h : Relic L p v s cs) {s' : HeapHistory} {cs' : List Chunk}
    (hinv : HeapInv L s' cs')
    (hmem : ∀ x, p - 16 ≤ x → x < p - 8 → s'.heap.mem x = s.heap.mem x)
    (hcover : Covers p v cs') : Relic L p v s' cs' := by
  have hword (a : Nat) (ha : p - 16 ≤ a) (ha' : a + 4 ≤ p - 8) :
      load32 s'.heap.mem a = load32 s.heap.mem a :=
    load32_congr fun x h1 h2 => hmem x (by omega) (by omega)
  have hp : 16 ≤ p := by
    obtain ⟨d, -, -, hd⟩ := hcover
    omega
  refine ⟨hinv, (hword _ (by omega) (by omega)).trans h.flag, fun hv => ?_, hcover⟩
  rw [hword _ (by omega) (by omega)]
  exact h.size hv

/-! ## The steps in between -/

/-- An allocation that does not take the header. -/
theorem Relic.malloc (h : Relic L p v s cs) (n : UInt32) (lock : Bool)
    (hspare : s.Spares L p (.malloc n lock)) :
    ∃ s' cs', s.exec L (.malloc n lock) = some s' ∧ Relic L p v s' cs' := by
  unfold HeapHistory.exec
  dsimp only
  rcases h.inv.malloc_cases lock n.toNat with ⟨heq, -⟩ | ⟨xs, c, ys, rfl, hfree, hfit, heq⟩
  · rw [heq]
    exact ⟨_, cs, rfl, h⟩
  obtain ⟨hle, hmod⟩ := heapAlign_spec n.toNat
  have hapart := hspare _ heq (by dsimp only; omega)
  have hend := L.pool_end
  rw [heq]
  refine ⟨_, _, rfl, h.keep (h.inv.carve hfree n.toNat hfit hle hmod) (fun x h1 h2 => ?_) ?_⟩
  · obtain ⟨d, hd, -, hp⟩ := h.cover
    have hdmem := h.inv.rep.tiles.mem hd
    exact h.inv.rep.carve_apply hfit hle (by omega) (by omega) (h.not_inNodes h1 h2)
  · obtain ⟨d, hd, hdfree, hp⟩ := h.cover
    rcases List.mem_append.mp hd with hd | hd
    · exact ⟨d, by simp [hd], hdfree, hp⟩
    · rcases List.mem_cons.mp hd with rfl | hd
      · -- the header is in the part that is cut off
        refine ⟨_, List.mem_append_right _ (List.mem_cons_of_mem _ List.mem_cons_self), rfl,
          Or.inr ?_⟩
        dsimp only
        omega
      · exact ⟨d, by simp [hd], hdfree, hp⟩

/-- Where the chunk that has taken in its neighbours begins. -/
theorem TrimLast.base_eq {a e e' n : Nat} (h : TrimLast xs xs' n) (ht : Tiles a (xs ++ c :: ys) e)
    (ht' : Tiles a (xs' ++ d :: ys') e') : d.addr + n = c.addr := by
  have hend {zs : List Chunk} {a b b' : Nat} (h : Tiles a zs b) (h' : Tiles a zs b') : b = b' := by
    induction zs generalizing a with
    | nil => exact h.symm.trans h'
    | cons z zs ih => exact ih h.2 h'.2
  obtain ⟨b, hb, hc, -⟩ := tiles_append.mp ht
  obtain ⟨b', hb', hd, -⟩ := tiles_append.mp ht'
  rcases h with ⟨rfl, rfl, -⟩ | ⟨z, rfl, -, rfl⟩
  · have := hend hb hb'
    omega
  · obtain ⟨b₁, hb₁, hz, hzend⟩ := tiles_append.mp hb
    have := hend hb₁ hb'
    have hlast : b₁ + 16 + z.size = b := hzend
    omega

/-- The free chunk with the header is still there, or has been taken in. -/
theorem Covers.freed {m : Memory} {base before after : Nat} (h : Covers p v (xs ++ c :: ys))
    (hrep : Rep L m (xs ++ c :: ys)) (hused : c.used = true) (hxs : TrimLast xs xs' before)
    (hys : TrimHead ys ys' after) (hbase : base + before = c.addr) :
    Covers p v (xs' ++ ⟨base, before + c.size + after, false⟩ :: ys') := by
  have hself : (⟨base, before + c.size + after, false⟩ : Chunk) ∈
      xs' ++ ⟨base, before + c.size + after, false⟩ :: ys' := by simp
  obtain ⟨d, hd, hdfree, hp⟩ := h
  rcases List.mem_append.mp hd with hd | hd
  · rcases hxs with ⟨rfl, -, -⟩ | ⟨e, rfl, -, rfl⟩
    · exact ⟨d, by simp [hd], hdfree, hp⟩
    · rcases List.mem_append.mp hd with hd | hd
      · exact ⟨d, by simp [hd], hdfree, hp⟩
      · obtain rfl := List.mem_singleton.mp hd
        have hgap : Rep L m (xs' ++ d :: c :: ys) := by simpa using hrep
        have := hgap.next_addr
        refine ⟨_, hself, rfl, ?_⟩
        dsimp only
        omega
  · rcases List.mem_cons.mp hd with rfl | hd
    · rw [hused] at hdfree
      exact absurd hdfree (by decide)
    · rcases hys with ⟨rfl, -, -⟩ | ⟨e, rfl, -, rfl⟩
      · exact ⟨d, by simp [hd], hdfree, hp⟩
      · rcases List.mem_cons.mp hd with rfl | hd
        · have := hrep.next_addr
          refine ⟨_, hself, rfl, Or.inr ?_⟩
          dsimp only
          omega
        · exact ⟨d, by simp [hd], hdfree, hp⟩

/-- A free of another block. -/
theorem Relic.free (h : Relic L p v s cs) {b : Block} (hb : b ∈ s.live) :
    ∃ cs', Relic L p v ⟨heapFree L s.heap b.ptr, s.live.erase b⟩ cs' := by
  obtain ⟨c, hc, hused, hptr, -⟩ := h.inv.fits b hb
  obtain ⟨xs, ys, rfl⟩ := List.append_of_mem hc
  obtain ⟨xs', ys', base, before, after, hxs, hys, hinv⟩ := h.inv.freed hb hused hptr
  have hcover := h.cover.freed h.inv.rep hused hxs hys
    (hxs.base_eq h.inv.rep.tiles hinv.rep.tiles)
  obtain ⟨flagAt, hzero, hwho, hframe⟩ := heapFree_frame h.inv.rep hused
  rw [hptr] at hzero hframe
  -- the flag that is cleared is that of a chunk
  have hflagAt : ∃ e ∈ xs ++ c :: ys, e.addr = flagAt := by grind
  obtain ⟨e, he, rfl⟩ := hflagAt
  obtain ⟨d, hd, hdfree, hp⟩ := h.cover
  have hapart {g : Chunk} (hg : g ∈ xs ++ c :: ys) := h.inv.rep.tiles.apart hd hg
  refine ⟨xs' ++ ⟨base, before + c.size + after, false⟩ :: ys', ?_⟩
  rcases hp with ⟨rfl, hp⟩ | ⟨h1, h2⟩
  · -- the flag of a free chunk is cleared, or left alone
    refine ⟨hinv, ?_, fun hv => absurd rfl hv, hcover⟩
    have hd12 : p - 12 = d.addr + 4 := by omega
    have hold := h.flag
    rw [hd12] at hold ⊢
    have hkept (hout : d.addr + 8 ≤ e.addr + 4 ∨ e.addr + 8 ≤ d.addr + 4) :
        load32 (heapFree L s.heap b.ptr).mem (d.addr + 4) = 0 := by
      refine (load32_congr fun x h1 h2 => hframe x (h.not_inNodes (by omega) (by omega))
        (fun g hg => ?_) (by omega)).trans hold
      rcases hapart hg with rfl | hg | hg <;> omega
    rcases hapart he with rfl | hed | hed
    · exact hzero
    · exact hkept (by omega)
    · exact hkept (by omega)
  · refine h.keep hinv (fun x hx hx' => hframe x (h.not_inNodes hx hx') (fun g hg => ?_) ?_) hcover
    · rcases hapart hg with rfl | hg | hg <;> omega
    · rcases hapart he with rfl | hed | hed <;> omega

/-- A write into a block that is held. -/
theorem Relic.write (h : Relic L p v s cs) {b : Block} (hb : b ∈ s.live) {addr : Nat}
    (hlo : b.ptr ≤ addr) (hhi : addr < b.ptr + b.bytes) (value : Byte) :
    Relic L p v ⟨{ s.heap with mem := Function.update s.heap.mem addr value }, s.live⟩ cs := by
  refine h.keep (h.inv.write hb hlo hhi value) (fun x h1 h2 => Function.update_of_ne ?_ _ _) h.cover
  obtain ⟨c, hc, hused, hptr, hle⟩ := h.inv.fits b hb
  obtain ⟨d, hd, hfree, hp⟩ := h.cover
  rintro rfl
  rcases h.inv.rep.tiles.apart hc hd with rfl | hcd | hcd
  · rw [hused] at hfree
    exact absurd hfree (by decide)
  · omega
  · omega

/-- Every step that spares the header. -/
theorem Relic.step (h : Relic L p v s cs) {op : HeapOp} (hen : s.Enabled op)
    (hspare : s.Spares L p op) : ∃ s' cs', s.exec L op = some s' ∧ Relic L p v s' cs' := by
  cases op with
  | malloc n lock => exact h.malloc n lock hspare
  | free b =>
    obtain ⟨cs', h'⟩ := h.free hen
    exact ⟨_, cs', rfl, h'⟩
  | write addr value =>
    obtain ⟨b, hb, hlo, hhi⟩ := hen
    exact ⟨_, cs, rfl, h.write hb hlo hhi value⟩

/-! ## The two frees -/

/-- The first free leaves the flag set if and only if a free chunk in front takes the chunk in. -/
theorem HeapInv.free_relic (h : HeapInv L s (xs ++ c :: ys)) {b : Block} (hb : b ∈ s.live)
    (hused : c.used = true) (hptr : c.addr + 16 = b.ptr) :
    ∃ v cs', Relic L b.ptr v ⟨heapFree L s.heap b.ptr, s.live.erase b⟩ cs' ∧
      (v = 0 ↔ ∀ d ∈ xs.getLast?, d.used = true) := by
  obtain ⟨xs', ys', base, before, after, hxs, hys, hinv⟩ := h.freed hb hused hptr
  have hbase := hxs.base_eq h.rep.tiles hinv.rep.tiles
  dsimp only at hbase
  have hcmem : c ∈ xs ++ c :: ys := by simp
  have hself : (⟨base, before + c.size + after, false⟩ : Chunk) ∈
      xs' ++ ⟨base, before + c.size + after, false⟩ :: ys' := by simp
  obtain ⟨flagAt, hzero, hwho, hframe⟩ := heapFree_frame h.rep hused
  rw [hptr] at hzero hwho hframe
  have hp12 : b.ptr - 12 = c.addr + 4 := by omega
  have hp16 : b.ptr - 16 = c.addr := by omega
  rcases hwho with ⟨rfl, hlast⟩ | ⟨hsize, d, hd, hdlast, hdfree, rfl⟩
  · refine ⟨0, _, ⟨hinv, ?_, fun hv => absurd rfl hv, _, hself, rfl, Or.inl ⟨rfl, ?_⟩⟩,
      iff_of_true rfl hlast⟩
    · rw [hp12]
      exact hzero
    · rcases hxs with ⟨-, rfl, -⟩ | ⟨e, rfl, he, -⟩
      · dsimp only
        omega
      · grind
  · refine ⟨1, _, ⟨hinv, ?_, fun _ => ?_, _, hself, rfl, Or.inr ?_⟩, iff_of_false (by decide) ?_⟩
    · -- the flag of the chunk itself is as it was
      rw [hp12]
      have hapart {g : Chunk} (hg : g ∈ xs ++ c :: ys) := h.rep.tiles.apart hcmem hg
      have hkept : load32 (heapFree L s.heap b.ptr).mem (c.addr + 4) =
          load32 s.heap.mem (c.addr + 4) := by grind [load32_congr, h.rep.tiles.not_inNodes]
      rw [hkept, (h.rep.header c hcmem).2, hused]
      rfl
    · rw [hp16]
      exact hsize
    · rcases hxs with ⟨rfl, -, hall⟩ | ⟨e, rfl, -, rfl⟩
      · grind
      · dsimp only
        omega
    · grind

/-- The second free looks at the flag that is left. -/
theorem Relic.second_free (h : Relic L p v s cs) :
    ((heapFree L s.heap p).chunks L = s.heap.chunks L ∧
      (heapFree L s.heap p).availSize = s.heap.availSize) ↔ v = 0 := by
  obtain ⟨d, hd, -, hp⟩ := h.cover
  have hmem := h.inv.rep.tiles.mem hd
  have hend := L.pool_end
  have hchunk : offset p (2 ^ 32 - 16) = p - 16 := by
    unfold offset
    omega
  have hflag : offset (p - 16) 4 = p - 12 := by
    unfold offset
    omega
  unfold heapFree
  rw [if_neg (by omega), hchunk]
  dsimp only
  rw [hflag, h.flag]
  by_cases hv : v = 0
  · rw [if_pos hv]
    exact iff_of_true ⟨rfl, rfl⟩ hv
  · rw [if_neg hv]
    refine iff_of_false (fun hsame => ?_) hv
    have havail := hsame.2
    have hsize := h.size hv
    have htotal : heapTotalSize = 2 ^ 24 := rfl
    dsimp only at havail
    omega

/-- A block of a reachable state is freed; then there are any allocations, frees and writes, none of
which takes the header of the block; then the block is freed again. The second free leaves the
chunks and the count of free bytes as they are if and only if the chunk in front of the block, if
there is one, was in use at the first free. -/
theorem double_free_harmless (L : HeapLayout) (mem : Memory) (ops : List HeapOp)
    (hops : (heapSystem L).Legal (some ⟨Heap.start L mem, []⟩) ops) (s : HeapHistory)
    (hs : (heapSystem L).run (some ⟨Heap.start L mem, []⟩) ops = some s) (b : Block)
    (hb : b ∈ s.live) (xs ys : List Chunk) (c : Chunk)
    (hcs : s.heap.chunks L = some (xs ++ c :: ys)) (hptr : c.addr + 16 = b.ptr)
    (later : List HeapOp)
    (hlater : (sparingSystem L b.ptr).Legal
      (some ⟨heapFree L s.heap b.ptr, s.live.erase b⟩) later) :
    ∃ t, (sparingSystem L b.ptr).run (some ⟨heapFree L s.heap b.ptr, s.live.erase b⟩) later =
        some t ∧
      (((heapFree L t.heap b.ptr).chunks L = t.heap.chunks L ∧
        (heapFree L t.heap b.ptr).availSize = t.heap.availSize) ↔
          ∀ d ∈ xs.getLast?, d.used = true) := by
  obtain ⟨cs, hinv⟩ := HeapInv.of_live (reachable_ok L hops hs) hb
  obtain rfl : cs = xs ++ c :: ys := Option.some.inj (hinv.rep.chunks.symm.trans hcs)
  obtain ⟨hused, -⟩ := hinv.chunk_of_live hb (by simp) hptr
  obtain ⟨v, cs', hrelic, hv⟩ := hinv.free_relic hb hused hptr
  obtain ⟨t, ht, cs'', hend⟩ := System.run_invariant
    (I := fun s => ∃ t, s = some t ∧ ∃ cs, Relic L b.ptr v t cs) (fun s op h hen => by
      obtain ⟨t, rfl, cs, h⟩ := h
      obtain ⟨t', cs', ht', h'⟩ := h.step (hen t rfl).1 (hen t rfl).2
      exact ⟨t', ht', cs', h'⟩) ⟨_, rfl, cs', hrelic⟩ hlater
  exact ⟨t, ht, hend.second_free.trans hv⟩

/-- Two blocks of 8 bytes. -/
def twoBlocks : List HeapOp := [.malloc 8 true, .malloc 8 true]

theorem twoBlocks_run : ∃ s, (heapSystem lowLayout).run lowStart twoBlocks = some s ∧
    s.live = [⟨0x200028, 8⟩, ⟨0x200010, 8⟩] ∧
    s.heap.chunks lowLayout = some [⟨0x200000, 8, true⟩, ⟨0x200018, 8, true⟩,
      ⟨0x200030, 16777152, false⟩] ∧
    (heapMalloc lowLayout (heapFree lowLayout s.heap 0x200010) true 100).map Prod.fst =
      some 0x200040 := by
  have hend : ((heapSystem lowLayout).run lowStart twoBlocks).map (fun s =>
      (s.live, s.heap.chunks lowLayout,
        (heapMalloc lowLayout (heapFree lowLayout s.heap 0x200010) true 100).map Prod.fst)) =
      some ([⟨0x200028, 8⟩, ⟨0x200010, 8⟩], some [⟨0x200000, 8, true⟩, ⟨0x200018, 8, true⟩,
        ⟨0x200030, 16777152, false⟩], some 0x200040) := by
    decide +kernel
  obtain ⟨s, hs, heq⟩ := Option.map_eq_some_iff.mp hend
  obtain ⟨h₁, h₂⟩ := Prod.mk.inj heq
  obtain ⟨h₃, h₄⟩ := Prod.mk.inj h₂
  exact ⟨s, hs, h₁, h₃, h₄⟩

/-- The first of the two is freed, something else is allocated, and the first is freed again. -/
theorem double_free_harmless_first :
    ∃ s t, (heapSystem lowLayout).run lowStart twoBlocks = some s ∧
      (sparingSystem lowLayout 0x200010).run
        (some ⟨heapFree lowLayout s.heap 0x200010, s.live.erase ⟨0x200010, 8⟩⟩)
        [.malloc 100 true] = some t ∧
      (heapFree lowLayout t.heap 0x200010).chunks lowLayout = t.heap.chunks lowLayout ∧
      (heapFree lowLayout t.heap 0x200010).availSize = t.heap.availSize := by
  obtain ⟨s, hs, hlive, hchunks, hnext⟩ := twoBlocks_run
  have hspare : (sparingSystem lowLayout 0x200010).Legal
      (some ⟨heapFree lowLayout s.heap 0x200010, s.live.erase ⟨0x200010, 8⟩⟩)
      [.malloc 100 true] := by
    refine ⟨fun h hh => ⟨trivial, fun r hr _ => ?_⟩, trivial⟩
    cases Option.some.inj hh
    have heq : heapMalloc lowLayout (heapFree lowLayout s.heap 0x200010) true 100 = some r := hr
    rw [heq] at hnext
    have hptr : r.1 = 0x200040 := Option.some.inj hnext
    exact Or.inl (by omega)
  have hin : (⟨0x200010, 8⟩ : Block) ∈ s.live := by grind
  obtain ⟨t, ht, hiff⟩ := double_free_harmless lowLayout (fun _ => 0) twoBlocks
    ⟨fun _ _ => trivial, fun _ _ => trivial, trivial⟩ s hs ⟨0x200010, 8⟩ hin [] _ _ hchunks rfl
    [.malloc 100 true] hspare
  exact ⟨s, t, hs, ht, hiff.mpr fun d hd => (nomatch hd)⟩

/-- The first of the two is freed, and then the second one twice: more is available than there is.
-/
theorem double_free_counted_twice :
    ∃ s, (heapSystem lowLayout).run lowStart (twoBlocks ++ [.free ⟨0x200010, 8⟩]) = some s ∧
      (heapSystem lowLayout).Legal lowStart (twoBlocks ++ [.free ⟨0x200010, 8⟩]) ∧
      ⟨0x200028, 8⟩ ∈ s.live ∧
      let t := heapFree lowLayout s.heap 0x200028
      t.availSize = heapTotalSize ∧
        (heapFree lowLayout t 0x200028).availSize = heapTotalSize + 16777192 := by
  have hend : ((heapSystem lowLayout).run lowStart (twoBlocks ++ [.free ⟨0x200010, 8⟩])).map
      (fun s => (s.live, (heapFree lowLayout s.heap 0x200028).availSize,
        (heapFree lowLayout (heapFree lowLayout s.heap 0x200028) 0x200028).availSize)) =
      some ([⟨0x200028, 8⟩], heapTotalSize, heapTotalSize + 16777192) := by
    decide +kernel
  obtain ⟨s, hs, heq⟩ := Option.map_eq_some_iff.mp hend
  obtain ⟨hlive, hcounts⟩ := Prod.mk.inj heq
  obtain ⟨hfirst, hsecond⟩ := Prod.mk.inj hcounts
  obtain ⟨s₂, hs₂, hlive₂, -⟩ := twoBlocks_run
  refine ⟨s, hs, ⟨fun _ _ => trivial, fun _ _ => trivial, fun h hh => ?_, trivial⟩, ?_, hfirst,
    hsecond⟩
  · obtain rfl : s₂ = h := Option.some.inj (hs₂.symm.trans hh)
    change _ ∈ s₂.live
    rw [hlive₂]
    exact List.mem_cons_of_mem _ List.mem_cons_self
  · rw [hlive]
    exact List.mem_cons_self

end Ukernel.Mm
