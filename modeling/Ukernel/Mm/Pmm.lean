import Ukernel.Machine.Memory
import Mathlib.Data.Finset.Card
import Mathlib.Order.Interval.Finset.Nat
import Mathlib.Tactic.IntervalCases

/-!
# The physical memory manager

`kernel/mm/pmm.c`: a bitmap with one bit for each 4 KB block, stored in the physical memory
it describes, and a counter of the free blocks. The model keeps the bitmap bit-packed in byte
memory, so that zeroing an allocated block could destroy the bitmap if the two ever met.

## Main definitions

* `Pmm`: the allocator's static variables and the physical memory
* `pmmInit`, `pmmMarkUsed`, `pmmAllocPage`, `pmmAllocPages`, `pmmFreePage`, `pmmFreePages`

## Main results

* `bitmapTest_bitmapSet`, `bitmapTest_bitmapClear`: the bits are independent
-/

namespace Ukernel.Mm

open Machine

/-- The static variables of `pmm.c` and the physical memory that holds the bitmap. -/
structure Pmm where
  mem : Memory
  bitmap4k : Nat
  totalBlocks : Nat
  freeBlocks : Nat
  initialized : Bool

namespace Pmm

/-- The state before `pmm_init`. -/
def start (mem : Memory) : Pmm := ⟨mem, 0, 0, 0, false⟩

/-- The address of the bitmap byte of a block. -/
def bitmapByte (s : Pmm) (block : Nat) : Nat := (s.bitmap4k + block / 8) % 2 ^ 32

/-- `bitmap_set`. -/
def bitmapSet (s : Pmm) (block : Nat) : Pmm :=
  let a := s.bitmapByte block
  { s with mem := Function.update s.mem a (s.mem a ||| 1#8 <<< (block % 8)) }

/-- `bitmap_clear`. -/
def bitmapClear (s : Pmm) (block : Nat) : Pmm :=
  let a := s.bitmapByte block
  { s with mem := Function.update s.mem a (s.mem a &&& ~~~(1#8 <<< (block % 8))) }

/-- `bitmap_test`: bit `block % 8` of the block's byte. -/
def bitmapTest (s : Pmm) (block : Nat) : Bool :=
  (s.mem (s.bitmapByte block)).getLsbD (block % 8)

/-- Clear a block's bit and count it free. -/
def release (s : Pmm) (block : Nat) : Pmm :=
  { s.bitmapClear block with freeBlocks := (s.freeBlocks + 1) % 2 ^ 32 }

/-- Set a block's bit and count it used. -/
def take (s : Pmm) (block : Nat) : Pmm :=
  { s.bitmapSet block with freeBlocks := (s.freeBlocks + (2 ^ 32 - 1)) % 2 ^ 32 }

/-- Zero `n` bytes of physical memory from `a`. -/
def zero (s : Pmm) (a n : Nat) : Pmm := { s with mem := memset s.mem a 0 n }

/-- Replace the contents of physical memory. -/
def withMem (s : Pmm) (mem : Memory) : Pmm := { s with mem }

/-- The first block after the bitmap, as `pmm_init` computes it. -/
def reserveBlocks (s : Pmm) : Nat :=
  s.bitmap4k / 4096 + divRoundUp (divRoundUp s.totalBlocks 8) 4096

/-- `pmm_init`; `lock` says whether `spinlock_alloc` succeeds. -/
def pmmInit (s : Pmm) (lock : Bool) (totalMemory bitmapPa : Nat) : Pmm :=
  if s.initialized || bitmapPa == 0 || !lock then s
  else
    let total := totalMemory / 4096
    let bitmap := pageAlign bitmapPa
    let full : Pmm := ⟨memset s.mem bitmap 0xFF (divRoundUp total 8), bitmap, total, 0, false⟩
    let freed := (List.range' full.reserveBlocks (total - full.reserveBlocks)).foldl release full
    { freed with initialized := true }

/-- One pass of the loop of `pmm_mark_used`. -/
def markBlock (s : Pmm) (block : Nat) : Pmm := if s.bitmapTest block then s else s.take block

/-- `pmm_mark_used`. -/
def pmmMarkUsed (s : Pmm) (paddr size : Nat) : Pmm :=
  if !s.initialized || paddr == 0 || size == 0 then s
  else
    let block := paddr / 4096
    let last := min ((paddr + size + 4095) % 2 ^ 32 / 4096) s.totalBlocks
    (List.range' block (last - block)).foldl markBlock s

/-- The loop of `pmm_alloc_page`: `left` blocks from `i` on remain to be tried. -/
def allocPageLoop (s : Pmm) : (left i : Nat) → Nat × Pmm
  | 0, _ => (0, s)
  | left + 1, i =>
    if s.bitmapTest i then allocPageLoop s left (i + 1)
    else (i * 4096 % 2 ^ 32, (s.take i).zero (i * 4096) 4096)

/-- `pmm_alloc_page`. -/
def pmmAllocPage (s : Pmm) : Nat × Pmm :=
  if !s.initialized then (0, s) else s.allocPageLoop s.totalBlocks 0

/-- What `pmm_alloc_pages` does once it has found `n` free blocks from `first` on. -/
def claimRun (s : Pmm) (first n : Nat) : Pmm :=
  let marked := (List.range' first n).foldl bitmapSet s
  { marked with freeBlocks := (s.freeBlocks + (2 ^ 32 - n)) % 2 ^ 32 }.zero (first * 4096)
    (n * 4096)

/-- The loop of `pmm_alloc_pages`: the run of free blocks ending before `i` has length `found`
and begins at `first`. -/
def allocPagesLoop (s : Pmm) (n : Nat) : (left i first found : Nat) → Nat × Pmm
  | 0, _, _, _ => (0, s)
  | left + 1, i, first, found =>
    if s.bitmapTest i then allocPagesLoop s n left (i + 1) first 0
    else
      let first := if found = 0 then i else first
      if found + 1 = n then (first * 4096 % 2 ^ 32, s.claimRun first n)
      else allocPagesLoop s n left (i + 1) first (found + 1)

/-- `pmm_alloc_pages`. -/
def pmmAllocPages (s : Pmm) (n : Nat) : Nat × Pmm :=
  if !s.initialized || n == 0 then (0, s) else s.allocPagesLoop n s.totalBlocks 0 0 0

/-- `pmm_free_page`. -/
def pmmFreePage (s : Pmm) (paddr : Nat) : Pmm :=
  let block := paddr / 4096
  if !s.initialized || s.totalBlocks ≤ block then s
  else if s.bitmapTest block then s.release block else s

/-- One pass of the loop of `pmm_free_pages`. -/
def freeBlock (s : Pmm) (block : Nat) : Pmm :=
  if block < s.totalBlocks && s.bitmapTest block then s.release block else s

/-- `pmm_free_pages`. -/
def pmmFreePages (s : Pmm) (paddr n : Nat) : Pmm :=
  if !s.initialized || n == 0 then s
  else
    let block := paddr / 4096
    (List.range' block ((block + n) % 2 ^ 32 - block)).foldl freeBlock s

/-! ## Bits -/

theorem bitmapByte_inj {s : Pmm} {b c : Nat} (hb : b < 2 ^ 32) (hc : c < 2 ^ 32)
    (h : s.bitmapByte b = s.bitmapByte c) : b / 8 = c / 8 := by
  unfold bitmapByte at h
  omega

theorem getLsbD_or_bit (v : Byte) {i j : Nat} (hi : i < 8) (hj : j < 8) :
    (v ||| 1#8 <<< i).getLsbD j = (decide (i = j) || v.getLsbD j) := by
  interval_cases i <;> interval_cases j <;> simp

theorem getLsbD_and_bit (v : Byte) {i j : Nat} (hi : i < 8) (hj : j < 8) :
    (v &&& ~~~(1#8 <<< i)).getLsbD j = (!decide (i = j) && v.getLsbD j) := by
  interval_cases i <;> interval_cases j <;> simp

/-- Writing one bit of a block's byte as `g` says changes what the tests say of that block only. -/
theorem bitmapTest_update (s : Pmm) {b c : Nat} (hb : b < 2 ^ 32) (hc : c < 2 ^ 32) {v : Byte}
    {g : Bool → Bool → Bool} (hg : ∀ x, g false x = x)
    (hv : ∀ j < 8, v.getLsbD j = g (decide (b % 8 = j)) ((s.mem (s.bitmapByte b)).getLsbD j)) :
    bitmapTest { s with mem := Function.update s.mem (s.bitmapByte b) v } c =
      g (decide (b = c)) (s.bitmapTest c) := by
  change (Function.update s.mem (s.bitmapByte b) v (s.bitmapByte c)).getLsbD (c % 8) = _
  unfold bitmapTest
  by_cases h : s.bitmapByte c = s.bitmapByte b
  · have hdiv := bitmapByte_inj hc hb h
    have hiff : b % 8 = c % 8 ↔ b = c := by omega
    rw [h, Function.update_self, hv _ (Nat.mod_lt _ (by decide))]
    simp only [hiff]
  · have hne : b ≠ c := by
      rintro rfl
      exact h rfl
    rw [Function.update_of_ne h, decide_eq_false hne, hg]

/-- Setting a bit sets that bit and no other. -/
theorem bitmapTest_bitmapSet (s : Pmm) {b c : Nat} (hb : b < 2 ^ 32) (hc : c < 2 ^ 32) :
    (s.bitmapSet b).bitmapTest c = (decide (b = c) || s.bitmapTest c) :=
  s.bitmapTest_update hb hc Bool.false_or fun _ hj =>
    getLsbD_or_bit _ (Nat.mod_lt _ (by decide)) hj

/-- Clearing a bit clears that bit and no other. -/
theorem bitmapTest_bitmapClear (s : Pmm) {b c : Nat} (hb : b < 2 ^ 32) (hc : c < 2 ^ 32) :
    (s.bitmapClear b).bitmapTest c = (!decide (b = c) && s.bitmapTest c) :=
  s.bitmapTest_update (g := fun e x => !e && x) hb hc (by decide) fun _ hj =>
    getLsbD_and_bit _ (Nat.mod_lt _ (by decide)) hj

/-! ## What every operation leaves alone -/

/-- Two states describe the same blocks with the bitmap in the same place. -/
structure SameShape (s s' : Pmm) : Prop where
  bitmap4k : s'.bitmap4k = s.bitmap4k
  totalBlocks : s'.totalBlocks = s.totalBlocks
  initialized : s'.initialized = s.initialized

namespace SameShape

theorem refl (s : Pmm) : SameShape s s := ⟨rfl, rfl, rfl⟩

theorem trans {s t u : Pmm} (h : SameShape s t) (k : SameShape t u) : SameShape s u :=
  ⟨k.bitmap4k.trans h.bitmap4k, k.totalBlocks.trans h.totalBlocks,
    k.initialized.trans h.initialized⟩

theorem bitmapByte {s s' : Pmm} (h : SameShape s s') (b : Nat) :
    s'.bitmapByte b = s.bitmapByte b := by
  simp only [Pmm.bitmapByte, h.bitmap4k]

theorem reserveBlocks {s s' : Pmm} (h : SameShape s s') :
    s'.reserveBlocks = s.reserveBlocks := by
  simp only [Pmm.reserveBlocks, h.bitmap4k, h.totalBlocks]

end SameShape

theorem sameShape_bitmapSet (s : Pmm) (b : Nat) : SameShape s (s.bitmapSet b) := ⟨rfl, rfl, rfl⟩

theorem sameShape_release (s : Pmm) (b : Nat) : SameShape s (s.release b) := ⟨rfl, rfl, rfl⟩

theorem sameShape_take (s : Pmm) (b : Nat) : SameShape s (s.take b) := ⟨rfl, rfl, rfl⟩

theorem sameShape_foldl {f : Pmm → Nat → Pmm} (hf : ∀ s b, SameShape s (f s b)) (s : Pmm)
    (l : List Nat) : SameShape s (l.foldl f s) := by
  induction l generalizing s with
  | nil => exact SameShape.refl s
  | cons b l ih => exact (hf s b).trans (ih _)

theorem bitmapTest_congr {s s' : Pmm} (hm : s'.mem = s.mem) (hb : s'.bitmap4k = s.bitmap4k)
    (c : Nat) : s'.bitmapTest c = s.bitmapTest c := by
  simp only [bitmapTest, bitmapByte, hm, hb]

theorem bitmapTest_release (s : Pmm) {b c : Nat} (hb : b < 2 ^ 32) (hc : c < 2 ^ 32) :
    (s.release b).bitmapTest c = (!decide (b = c) && s.bitmapTest c) := by
  rw [← bitmapTest_bitmapClear s hb hc]
  exact bitmapTest_congr (by simp only [release]) (by simp only [release]) c

theorem bitmapTest_take (s : Pmm) {b c : Nat} (hb : b < 2 ^ 32) (hc : c < 2 ^ 32) :
    (s.take b).bitmapTest c = (decide (b = c) || s.bitmapTest c) := by
  rw [← bitmapTest_bitmapSet s hb hc]
  exact bitmapTest_congr (by simp only [take]) (by simp only [take]) c

/-- Zeroing blocks that hold no part of the bitmap leaves every bit alone. -/
theorem bitmapTest_zero (s : Pmm) {first n c : Nat} (hend : (first + n) * 4096 ≤ 2 ^ 32)
    (hc : ∀ b, first ≤ b → b < first + n → s.bitmapByte c / 4096 ≠ b) :
    (s.zero (first * 4096) (n * 4096)).bitmapTest c = s.bitmapTest c := by
  have hlt : s.bitmapByte c < 2 ^ 32 := Nat.mod_lt _ (Nat.two_pow_pos 32)
  have hmem : (s.zero (first * 4096) (n * 4096)).mem (s.bitmapByte c) =
      s.mem (s.bitmapByte c) := by
    refine memset_of_forall_ne _ hlt fun i hi he => ?_
    have hlt' : first * 4096 + i < 2 ^ 32 := by omega
    rw [Nat.mod_eq_of_lt hlt'] at he
    exact hc ((first * 4096 + i) / 4096) (by omega) (by omega) (by rw [he])
  unfold bitmapTest
  rw [show (s.zero (first * 4096) (n * 4096)).bitmapByte c = s.bitmapByte c from rfl, hmem]

/-! ## Sets of blocks -/

/-- The blocks below `total_blocks` whose bit is clear. -/
def clearBlocks (s : Pmm) : Finset Nat :=
  (Finset.range s.totalBlocks).filter fun b => s.bitmapTest b = false

theorem mem_clearBlocks {s : Pmm} {b : Nat} :
    b ∈ s.clearBlocks ↔ b < s.totalBlocks ∧ s.bitmapTest b = false := by
  simp [clearBlocks]

/-- The counter agrees with the bitmap. -/
def Counted (s : Pmm) : Prop := s.freeBlocks = s.clearBlocks.card

theorem Counted.freeBlocks_le {s : Pmm} (h : s.Counted) : s.freeBlocks ≤ s.totalBlocks := by
  rw [h]
  exact (Finset.card_filter_le _ _).trans (Finset.card_range _).le

/-- `s'` is `s` with the bits `f`; the counter still agrees with the bitmap. -/
structure Becomes (s s' : Pmm) (f : Nat → Bool) : Prop where
  shape : SameShape s s'
  test : ∀ b < s.totalBlocks, s'.bitmapTest b = f b
  counted : s.Counted → s'.Counted

theorem Becomes.refl (s : Pmm) : Becomes s s s.bitmapTest := ⟨SameShape.refl s, fun _ _ => rfl, id⟩

theorem Becomes.congr {s s' : Pmm} {f g : Nat → Bool} (h : Becomes s s' f)
    (hfg : ∀ b < s.totalBlocks, f b = g b) : Becomes s s' g :=
  ⟨h.shape, fun b hb => (h.test b hb).trans (hfg b hb), h.counted⟩

theorem Becomes.trans {s s' s'' : Pmm} {f g : Nat → Bool} (h : Becomes s s' f)
    (h' : Becomes s' s'' g) : Becomes s s'' g :=
  ⟨h.shape.trans h'.shape, fun b hb => h'.test b (h.shape.totalBlocks ▸ hb),
    fun hs => h'.counted (h.counted hs)⟩

/-- Marking a set of clear blocks used, with the counter lowered by their number. -/
theorem becomes_of_mark {s s' : Pmm} {A : Finset Nat} (hshape : SameShape s s')
    (hA : A ⊆ s.clearBlocks)
    (htest : ∀ b < s.totalBlocks, s'.bitmapTest b = (decide (b ∈ A) || s.bitmapTest b))
    (hfree : s.Counted → s'.freeBlocks + A.card = s.freeBlocks) :
    Becomes s s' fun b => decide (b ∈ A) || s.bitmapTest b := by
  refine ⟨hshape, htest, fun hs => ?_⟩
  have hset : s'.clearBlocks = s.clearBlocks \ A := by grind [mem_clearBlocks, hshape.totalBlocks]
  unfold Counted at *
  rw [hset, Finset.card_sdiff_of_subset hA, ← hs]
  omega

theorem take_becomes {s : Pmm} {b : Nat} (ht : s.totalBlocks < 2 ^ 32)
    (hb : b ∈ s.clearBlocks) :
    Becomes s (s.take b) fun c => decide (b = c) || s.bitmapTest c := by
  have hlt := (mem_clearBlocks.mp hb).1
  refine (becomes_of_mark (A := {b}) (sameShape_take s b) (by simpa using hb) ?_ ?_).congr ?_
  · intro c hc
    rw [bitmapTest_take s (by omega) (by omega)]
    simp [eq_comm]
  · intro hs
    have hpos : 0 < s.freeBlocks := by
      rw [hs]
      exact Finset.card_pos.mpr ⟨b, hb⟩
    have hle := hs.freeBlocks_le
    simp only [take, Finset.card_singleton]
    omega
  · intro c _
    simp [eq_comm]

theorem release_becomes {s : Pmm} {b : Nat} (ht : s.totalBlocks < 2 ^ 32)
    (hb : b < s.totalBlocks) (hu : s.bitmapTest b = true) :
    Becomes s (s.release b) fun c => !decide (b = c) && s.bitmapTest c := by
  have htest : ∀ c < s.totalBlocks,
      (s.release b).bitmapTest c = (!decide (b = c) && s.bitmapTest c) := fun c hc =>
    bitmapTest_release s (by omega) (by omega)
  refine ⟨sameShape_release s b, htest, fun hs => ?_⟩
  have hset : (s.release b).clearBlocks = insert b s.clearBlocks := by
    ext c
    rw [Finset.mem_insert, mem_clearBlocks, mem_clearBlocks, (sameShape_release s b).totalBlocks]
    constructor
    · grind
    · grind
  have hnot : b ∉ s.clearBlocks := fun h => by
    have := (mem_clearBlocks.mp h).2
    rw [hu] at this
    exact absurd this (by decide)
  have hlt : s.clearBlocks.card < s.totalBlocks := by
    have := Finset.card_lt_card (s := s.clearBlocks) (t := Finset.range s.totalBlocks)
      ⟨Finset.filter_subset _ _, fun h => hnot (h (Finset.mem_range.mpr hb))⟩
    simpa using this
  unfold Counted at *
  rw [hset, Finset.card_insert_of_notMem hnot]
  simp only [release, hs]
  omega

end Pmm

end Ukernel.Mm
