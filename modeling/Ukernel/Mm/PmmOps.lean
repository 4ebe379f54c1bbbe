import Ukernel.Mm.Pmm

/-!
# What the physical memory manager's operations do

Each operation of `pmm.c` is described once by the bits it leaves behind. A state in which the
counter agrees with the bitmap, the reserved blocks are marked used and no free block holds a
part of the bitmap is *sound*; the operations keep it so.

## Main definitions

* `Pmm.Sound`: the invariant, relative to a set of blocks that must stay used

## Main results

* `Pmm.pmmInit_spec`: initialization is sound for the blocks up to the end of the bitmap
* `Pmm.pmmMarkUsed_becomes`, `Pmm.pmmAllocPage_spec`, `Pmm.pmmAllocPages_spec`,
  `Pmm.pmmFreePage_becomes`, `Pmm.pmmFreePages_becomes`: the bits after each operation
-/

namespace Ukernel.Mm.Pmm

open Machine

/-- No clear block holds a part of the bitmap. -/
def Apart (s : Pmm) : Prop :=
  ∀ b < s.totalBlocks, ∀ c ∈ s.clearBlocks, s.bitmapByte b / 4096 ≠ c

/-- The invariant of the allocator: blocks of `kept` stay used, and everything outside `kept` is
free of bitmap bytes, so that handing it out is harmless. -/
structure Sound (s : Pmm) (kept : Set Nat) : Prop where
  total_lt : s.totalBlocks < 2 ^ 20
  counted : s.Counted
  used : ∀ b < s.totalBlocks, b ∈ kept → s.bitmapTest b = true
  apart : ∀ b < s.totalBlocks, ∀ c < s.totalBlocks, c ∉ kept → s.bitmapByte b / 4096 ≠ c

theorem Sound.not_kept {s : Pmm} {kept : Set Nat} (h : s.Sound kept) {b : Nat}
    (hb : b ∈ s.clearBlocks) : b ∉ kept := fun hk => by
  obtain ⟨hlt, hclear⟩ := mem_clearBlocks.mp hb
  rw [h.used b hlt hk] at hclear
  exact absurd hclear (by decide)

theorem Sound.toApart {s : Pmm} {kept : Set Nat} (h : s.Sound kept) : s.Apart :=
  fun b hb c hc => h.apart b hb c (mem_clearBlocks.mp hc).1 (h.not_kept hc)

theorem Sound.mono {s : Pmm} {kept more : Set Nat} (h : s.Sound kept) (hsub : kept ⊆ more)
    (hused : ∀ b < s.totalBlocks, b ∈ more → s.bitmapTest b = true) : s.Sound more :=
  ⟨h.total_lt, h.counted, hused, fun b hb c hc hn => h.apart b hb c hc fun hk => hn (hsub hk)⟩

/-- A change of bits that keeps the kept blocks used keeps the invariant. -/
theorem Sound.becomes {s s' : Pmm} {kept : Set Nat} {f : Nat → Bool} (h : s.Sound kept)
    (hf : Becomes s s' f) (hkept : ∀ b < s.totalBlocks, b ∈ kept → f b = true) :
    s'.Sound kept := by
  have ht := hf.shape.totalBlocks
  refine ⟨ht ▸ h.total_lt, hf.counted h.counted, ?_, ?_⟩
  · intro b hb hk
    rw [ht] at hb
    rw [hf.test b hb, hkept b hb hk]
  · grind [hf.shape.bitmapByte, h.apart]

/-! ## Loops over blocks -/

theorem bitmapTest_foldl_bitmapSet (s : Pmm) {c : Nat} (hc : c < 2 ^ 32) (l : List Nat)
    (hl : ∀ b ∈ l, b < 2 ^ 32) :
    (l.foldl bitmapSet s).bitmapTest c = (decide (c ∈ l) || s.bitmapTest c) := by
  induction l generalizing s with
  | nil => simp
  | cons b l ih => grind [bitmapTest_bitmapSet]

theorem markBlock_becomes {s : Pmm} {b : Nat} (ht : s.totalBlocks < 2 ^ 32)
    (hb : b < s.totalBlocks) :
    Becomes s (s.markBlock b) fun c => decide (b = c) || s.bitmapTest c := by
  unfold markBlock
  split
  · rename_i hu
    refine (Becomes.refl s).congr fun c _ => ?_
    by_cases hbc : b = c
    · simp [← hbc, hu]
    · simp [hbc]
  · rename_i hu
    exact take_becomes ht (mem_clearBlocks.mpr ⟨hb, by simpa using hu⟩)

theorem freeBlock_becomes {s : Pmm} (ht : s.totalBlocks < 2 ^ 32) (b : Nat) :
    Becomes s (s.freeBlock b) fun c => !decide (b = c) && s.bitmapTest c := by
  unfold freeBlock
  split
  · grind [release_becomes]
  · refine (Becomes.refl s).congr fun c hc => ?_
    by_cases hbc : b = c
    · grind
    · simp [hbc]

/-- A loop that writes the bit of one block after the other as `g` says. -/
theorem Becomes.cons {s t u : Pmm} {b : Nat} {l : List Nat} {g : Bool → Bool → Bool}
    (hb : Becomes s t fun c => g (decide (b = c)) (s.bitmapTest c))
    (hg : ∀ e e' x, g e (g e' x) = g (e' || e) x)
    (hl : Becomes t u fun c => g (decide (c ∈ l)) (t.bitmapTest c)) :
    Becomes s u fun c => g (decide (c ∈ b :: l)) (s.bitmapTest c) :=
  (hb.trans hl).congr fun c hc => by
    rw [hb.test c hc, hg]
    simp [eq_comm]

theorem foldl_markBlock_becomes (s : Pmm) (ht : s.totalBlocks < 2 ^ 32) (l : List Nat)
    (hl : ∀ b ∈ l, b < s.totalBlocks) :
    Becomes s (l.foldl markBlock s) fun c => decide (c ∈ l) || s.bitmapTest c := by
  induction l generalizing s with
  | nil => exact (Becomes.refl s).congr fun c _ => by simp
  | cons b l ih =>
    have hb := markBlock_becomes ht (hl b List.mem_cons_self)
    have hrest := ih (s.markBlock b) (hb.shape.totalBlocks ▸ ht)
      fun x hx => hb.shape.totalBlocks ▸ hl x (List.mem_cons_of_mem _ hx)
    exact hb.cons (g := or) (by decide) hrest

theorem foldl_freeBlock_becomes (s : Pmm) (ht : s.totalBlocks < 2 ^ 32) (l : List Nat) :
    Becomes s (l.foldl freeBlock s) fun c => !decide (c ∈ l) && s.bitmapTest c := by
  induction l generalizing s with
  | nil => exact (Becomes.refl s).congr fun c _ => by simp
  | cons b l ih =>
    have hb := freeBlock_becomes ht b
    have hrest := ih (s.freeBlock b) (hb.shape.totalBlocks ▸ ht)
    exact hb.cons (g := fun e x => !e && x) (by decide) hrest

/-! ## Initialization -/

theorem foldl_release_spec (s : Pmm) (ht : s.totalBlocks < 2 ^ 32) (l : List Nat)
    (hl : ∀ b ∈ l, b < s.totalBlocks) (hnd : l.Nodup) (hu : ∀ b ∈ l, s.bitmapTest b = true) :
    Becomes s (l.foldl release s) fun c => !decide (c ∈ l) && s.bitmapTest c := by
  induction l generalizing s with
  | nil => exact (Becomes.refl s).congr fun c _ => by simp
  | cons b l ih =>
    obtain ⟨hbl, hnd⟩ := List.nodup_cons.mp hnd
    have hb := release_becomes ht (hl b List.mem_cons_self) (hu b List.mem_cons_self)
    have hrest := ih (s.release b) (hb.shape.totalBlocks ▸ ht)
      (fun x hx => hb.shape.totalBlocks ▸ hl x (List.mem_cons_of_mem _ hx)) hnd fun x hx => by
        rw [hb.test x (hl x (List.mem_cons_of_mem _ hx)), hu x (List.mem_cons_of_mem _ hx)]
        have hne : b ≠ x := by
          rintro rfl
          exact hbl hx
        simp [hne]
    exact hb.cons (g := fun e x => !e && x) (by decide) hrest

/-- Filling the bitmap with ones marks every block used. -/
theorem bitmapTest_full (mem : Memory) (bitmap : Nat) {total free b : Nat} (init : Bool)
    (ht : total < 2 ^ 32) (hb : b < total) :
    (Pmm.mk (memset mem bitmap 0xFF (divRoundUp total 8)) bitmap total free init).bitmapTest b =
      true := by
  unfold bitmapTest bitmapByte
  dsimp only
  rw [memset_add _ (by unfold divRoundUp; omega) (by unfold divRoundUp; omega)]
  have : b % 8 < 8 := Nat.mod_lt _ (by decide)
  interval_cases h : b % 8 <;> rfl

/-- The blocks up to the end of the bitmap. -/
def reserved (s : Pmm) : Set Nat := {b | b < s.reserveBlocks}

/-- The bitmap's bytes lie in reserved blocks whenever some block is not reserved. -/
theorem bitmapByte_reserved {s : Pmm} (ht : s.totalBlocks < 2 ^ 20)
    (halign : s.bitmap4k % 4096 = 0) {b c : Nat} (hb : b < s.totalBlocks)
    (hc : c < s.totalBlocks) (hn : c ∉ s.reserved) : s.bitmapByte b / 4096 ≠ c := by
  have hn : s.bitmap4k / 4096 + divRoundUp (divRoundUp s.totalBlocks 8) 4096 ≤ c :=
    Nat.le_of_not_lt hn
  unfold divRoundUp at hn
  unfold bitmapByte
  omega

/-- Initialization is sound for the blocks up to the end of the bitmap: exactly the others are
free. -/
theorem pmmInit_spec (mem : Memory) (lock : Bool) {totalMemory : Nat} (bitmapPa : Nat)
    (htotal : totalMemory < 2 ^ 32) :
    let s := (start mem).pmmInit lock totalMemory bitmapPa
    s.Sound s.reserved ∧
      ∀ b < s.totalBlocks, s.bitmapTest b = decide (b < s.reserveBlocks) := by
  intro s
  by_cases hskip : ((start mem).initialized || bitmapPa == 0 || !lock) = true
  · -- nothing was initialized: there are no blocks
    have hs : s = start mem := if_pos hskip
    rw [hs]
    exact ⟨⟨by simp [start], rfl, fun b hb => absurd hb (Nat.not_lt_zero b),
      fun b hb => absurd hb (Nat.not_lt_zero b)⟩, fun b hb => absurd hb (Nat.not_lt_zero b)⟩
  · let full : Pmm := ⟨memset mem (pageAlign bitmapPa) 0xFF (divRoundUp (totalMemory / 4096) 8),
      pageAlign bitmapPa, totalMemory / 4096, 0, false⟩
    let l := List.range' full.reserveBlocks (totalMemory / 4096 - full.reserveBlocks)
    let freed := l.foldl release full
    have hs : s = { freed with initialized := true } := if_neg hskip
    have ht : full.totalBlocks < 2 ^ 20 := by
      change totalMemory / 4096 < 2 ^ 20
      omega
    have hmem : ∀ b, b ∈ l ↔ full.reserveBlocks ≤ b ∧ b < full.totalBlocks := by grind
    have hused : ∀ b < full.totalBlocks, full.bitmapTest b = true := fun b hb =>
      bitmapTest_full mem _ false (by omega) hb
    have hcounted : full.Counted := by grind [Finset.filter_false_of_mem, Counted, clearBlocks]
    have hfold : Becomes full freed _ :=
      foldl_release_spec full (by omega) l (fun b hb => ((hmem b).mp hb).2)
      List.nodup_range' fun b hb => hused b ((hmem b).mp hb).2
    have hshape : s.bitmap4k = full.bitmap4k ∧ s.totalBlocks = full.totalBlocks := by
      rw [hs]
      exact ⟨hfold.shape.bitmap4k, hfold.shape.totalBlocks⟩
    have hreserve : s.reserveBlocks = full.reserveBlocks := by
      simp only [reserveBlocks, hshape.1, hshape.2]
    have htest : ∀ b < s.totalBlocks, s.bitmapTest b = decide (b < s.reserveBlocks) := by
      intro b hb
      rw [hshape.2] at hb
      have hfreed : s.bitmapTest b = freed.bitmapTest b := by rw [hs]; rfl
      rw [hfreed, hfold.test b hb, hused b hb, hreserve]
      simp only [hmem, hb, and_true, Bool.and_true, ← decide_not, not_le]
    refine ⟨⟨hshape.2 ▸ ht, ?_, ?_, ?_⟩, htest⟩
    · rw [hs]
      exact hfold.counted hcounted
    · intro b hb hk
      rw [htest b hb]
      exact decide_eq_true hk
    · intro b hb c hc hn
      have halign : s.bitmap4k % 4096 = 0 := by
        rw [hshape.1]
        exact pageMask_mod _
      exact bitmapByte_reserved (hshape.2 ▸ ht) halign hb hc hn

theorem pmmInit_shape (mem : Memory) (totalMemory : Nat) {bitmapPa : Nat} (hb : bitmapPa ≠ 0) :
    let s := (start mem).pmmInit true totalMemory bitmapPa
    s.initialized = true ∧ s.totalBlocks = totalMemory / 4096 ∧
      s.bitmap4k = pageAlign bitmapPa := by
  intro s
  have hs : s = _ := if_neg (by simp [start, hb])
  rw [hs]
  exact ⟨rfl, (sameShape_foldl sameShape_release _ _).totalBlocks,
    (sameShape_foldl sameShape_release _ _).bitmap4k⟩

/-! ## Marking -/

/-- The blocks a range of bytes touches. -/
def touched (paddr size : Nat) : Set Nat :=
  {b | ∃ x, paddr ≤ x ∧ x < paddr + size ∧ x / 4096 = b}

theorem pmmMarkUsed_becomes {s : Pmm} (ht : s.totalBlocks < 2 ^ 32) (hi : s.initialized = true)
    {paddr size : Nat} (hp : paddr ≠ 0) (hend : paddr + size + 4095 < 2 ^ 32) :
    ∃ f, Becomes s (s.pmmMarkUsed paddr size) f ∧ (∀ b, s.bitmapTest b = true → f b = true) ∧
      ∀ b < s.totalBlocks, b ∈ touched paddr size → f b = true := by
  unfold pmmMarkUsed
  split
  · rename_i h
    have hsize : size = 0 := by simpa [hi, hp] using h
    refine ⟨_, Becomes.refl s, fun _ => id, ?_⟩
    rintro b - ⟨x, hx, hx', -⟩
    omega
  · refine ⟨_, foldl_markBlock_becomes s ht _ ?_, fun b hb => by simp [hb], ?_⟩
    · intro b hb
      rw [List.mem_range'_1] at hb
      omega
    · rintro b hb ⟨x, hx, hx', rfl⟩
      refine Bool.or_eq_true_iff.mpr (Or.inl (decide_eq_true ?_))
      rw [List.mem_range'_1, Nat.mod_eq_of_lt hend]
      omega

/-- Marking never clears a bit. -/
theorem pmmMarkUsed_grows {s : Pmm} (ht : s.totalBlocks < 2 ^ 32) (paddr size : Nat) :
    ∃ f, Becomes s (s.pmmMarkUsed paddr size) f ∧ ∀ b, s.bitmapTest b = true → f b = true := by
  unfold pmmMarkUsed
  split
  · exact ⟨_, Becomes.refl s, fun _ => id⟩
  · grind [foldl_markBlock_becomes]

theorem pmmMarkUsed_of_not_initialized {s : Pmm} (hi : s.initialized = false)
    (paddr size : Nat) : s.pmmMarkUsed paddr size = s := by
  simp [pmmMarkUsed, hi]

/-! ## Allocation -/

/-- Claiming a run of clear blocks sets their bits and no other: the zeroing of the run spares
the bitmap. -/
theorem claimRun_becomes {s : Pmm} (ht : s.totalBlocks < 2 ^ 20) (hap : s.Apart) {first n : Nat}
    (hend : first + n ≤ s.totalBlocks)
    (hclear : ∀ b, first ≤ b → b < first + n → s.bitmapTest b = false) :
    Becomes s (s.claimRun first n) fun b =>
      decide (first ≤ b ∧ b < first + n) || s.bitmapTest b := by
  have hA : Finset.Ico first (first + n) ⊆ s.clearBlocks := by grind [mem_clearBlocks]
  have hmarked := sameShape_foldl sameShape_bitmapSet s (List.range' first n)
  refine (becomes_of_mark (A := Finset.Ico first (first + n)) ?_ hA ?_ ?_).congr ?_
  · exact ⟨hmarked.bitmap4k, hmarked.totalBlocks, hmarked.initialized⟩
  · intro b hb
    have hspare : ∀ c, first ≤ c → c < first + n → s.bitmapByte b / 4096 ≠ c :=
      fun c h1 h2 => hap b hb c (hA (Finset.mem_Ico.mpr ⟨h1, h2⟩))
    unfold claimRun
    rw [bitmapTest_zero _ (by omega) (by simpa only [bitmapByte, hmarked.bitmap4k] using hspare),
      bitmapTest_congr (s := (List.range' first n).foldl bitmapSet s) (by simp only)
        (by simp only), bitmapTest_foldl_bitmapSet s (by omega)]
    · simp only [List.mem_range'_1, Finset.mem_Ico]
    · intro c hc
      rw [List.mem_range'_1] at hc
      omega
  · intro hs
    have hle : (Finset.Ico first (first + n)).card ≤ s.freeBlocks := by
      rw [hs]
      exact Finset.card_le_card hA
    have htotal := hs.freeBlocks_le
    rw [Nat.card_Ico] at hle ⊢
    simp only [claimRun, zero]
    omega
  · intro b _
    simp only [Finset.mem_Ico]

/-- The bytes that the allocator writes to: those of free blocks and those of the bitmap. -/
def Owns (s : Pmm) (x : Nat) : Prop :=
  x / 4096 < s.totalBlocks ∧ s.bitmapTest (x / 4096) = false ∨
    ∃ b < s.totalBlocks, s.bitmapByte b = x

theorem allocPageLoop_cases (s : Pmm) :
    ∀ left i, i + left = s.totalBlocks →
      s.allocPageLoop left i = (0, s) ∨
        ∃ first, first < s.totalBlocks ∧ s.bitmapTest first = false ∧
          s.allocPageLoop left i = (first * 4096 % 2 ^ 32, s.claimRun first 1)
  | 0, _, _ => Or.inl rfl
  | left + 1, i, hi => by
    unfold allocPageLoop
    split
    · exact allocPageLoop_cases s left (i + 1) (by omega)
    · grind [claimRun, take]

/-- `pmm_alloc_page` fails and changes nothing, or claims one clear block. -/
theorem pmmAllocPage_cases (s : Pmm) :
    s.pmmAllocPage = (0, s) ∨
      ∃ first, first < s.totalBlocks ∧ s.bitmapTest first = false ∧
        s.pmmAllocPage = (first * 4096 % 2 ^ 32, s.claimRun first 1) := by
  unfold pmmAllocPage
  split
  · exact Or.inl rfl
  · exact allocPageLoop_cases s _ _ (by omega)

/-- There are `n` free blocks from `a` on. -/
structure FreeRun (s : Pmm) (n a : Nat) : Prop where
  fits : a + n ≤ s.totalBlocks
  free : ∀ b, a ≤ b → b < a + n → s.bitmapTest b = false

/-- Where the scan of `pmm_alloc_pages` stands before block `i`: the longest run of free blocks that
ends there has length `found` and begins at `first`, and no run before `i` is long enough. -/
structure Scan (s : Pmm) (n i first found : Nat) : Prop where
  short : found < n
  le : found ≤ i
  first : 0 < found → first + found = i
  free : ∀ b, i ≤ b + found → b < i → s.bitmapTest b = false
  before : found < i → s.bitmapTest (i - found - 1) = true
  none : ∀ a, a + n ≤ i → ¬s.FreeRun n a

namespace Scan

variable {s : Pmm} {n i first found : Nat}

variable (h : Scan s n i first found)

include h

/-- A used block ends the run. -/
theorem used (hi : s.bitmapTest i = true) :
    Scan s n (i + 1) first 0 := by
  have hshort := h.short
  refine ⟨by omega, Nat.zero_le _, fun h => absurd h (Nat.lt_irrefl 0), fun b h₁ h₂ => by omega,
    fun _ => hi, fun a ha hrun => ?_⟩
  rcases Nat.lt_or_ge i (a + n) with hin | hout
  · rw [hrun.free i (by omega) hin] at hi
    cases hi
  · exact h.none a hout hrun

/-- Where the run that goes on with block `i` begins. -/
theorem start : (if found = 0 then i else first) + found = i := by
  split
  · omega
  · exact h.first (by omega)

/-- No run that ends right after block `i` begins before the run that the scan follows. -/
theorem none_before {a : Nat} (ha : a + found < i) (hend : a + n = i + 1) :
    ¬s.FreeRun n a := fun hrun => by
  have hshort := h.short
  have hbefore := h.before (by omega)
  rw [hrun.free (i - found - 1) (by omega) (by omega)] at hbefore
  cases hbefore

theorem free_succ (hi : s.bitmapTest i = false) {b : Nat} (h₁ : i ≤ b + found) (h₂ : b < i + 1) :
    s.bitmapTest b = false := by
  rcases Nat.lt_or_ge b i with hlt | hge
  · exact h.free b h₁ hlt
  · obtain rfl : b = i := by omega
    exact hi

/-- A free block goes on with the run. -/
theorem more (hi : s.bitmapTest i = false) (hn : found + 1 ≠ n) :
    Scan s n (i + 1) (if found = 0 then i else first) (found + 1) := by
  have hshort := h.short
  have hstart := h.start
  refine ⟨by omega, by omega, fun _ => by omega, fun b h₁ h₂ => h.free_succ hi (by omega) h₂,
    fun hlt => ?_, fun a ha => ?_⟩
  · rw [Nat.add_sub_add_right]
    exact h.before (by omega)
  · grind [h.none_before, h.none]

/-- The run is long enough, and it is the first one. -/
theorem done (hi : s.bitmapTest i = false) (hn : found + 1 = n) (ht : i < s.totalBlocks) :
    IsLeast {a | s.FreeRun n a} (if found = 0 then i else first) := by
  have hstart := h.start
  refine ⟨⟨by omega, fun b h₁ h₂ => h.free_succ hi (by omega) (by omega)⟩, fun a ha => ?_⟩
  by_contra hlt
  exact h.none a (by omega) ha

end Scan

/-- The scan finds the first run that is long enough, or there is none. -/
theorem allocPagesLoop_least {s : Pmm} {n left i first found : Nat} (hi : i + left = s.totalBlocks)
    (h : Scan s n i first found) :
    s.allocPagesLoop n left i first found = (0, s) ∧ (∀ a, ¬s.FreeRun n a) ∨
      ∃ a, IsLeast {a | s.FreeRun n a} a ∧
        s.allocPagesLoop n left i first found = (a * 4096 % 2 ^ 32, s.claimRun a n) := by
  induction left generalizing i first found with
  | zero => exact Or.inl ⟨rfl, fun a ha => h.none a (Nat.le_trans ha.fits (by omega)) ha⟩
  | succ left ih => grind [h.used, h.done, h.more, allocPagesLoop]

/-- `pmm_alloc_pages` finds the first run that is long enough, or there is none. -/
theorem pmmAllocPages_least {s : Pmm} (hi : s.initialized = true) {n : Nat} (hn : 0 < n) :
    s.pmmAllocPages n = (0, s) ∧ (∀ a, ¬s.FreeRun n a) ∨
      ∃ a, IsLeast {a | s.FreeRun n a} a ∧
        s.pmmAllocPages n = (a * 4096 % 2 ^ 32, s.claimRun a n) := by
  unfold pmmAllocPages
  rw [if_neg (by simp [hi, Nat.ne_of_gt hn])]
  refine allocPagesLoop_least (Nat.zero_add _) ⟨hn, Nat.le_refl _, fun h => ?_, fun b _ h => ?_,
    fun h => ?_, fun a ha => ?_⟩
  · exact absurd h (Nat.lt_irrefl 0)
  · exact absurd h (Nat.not_lt_zero b)
  · exact absurd h (Nat.lt_irrefl 0)
  · omega

/-- `pmm_alloc_pages` fails and changes nothing, or claims a run of clear blocks. -/
theorem pmmAllocPages_cases (s : Pmm) (n : Nat) :
    s.pmmAllocPages n = (0, s) ∨
      ∃ first, 0 < n ∧ first + n ≤ s.totalBlocks ∧
        (∀ b, first ≤ b → b < first + n → s.bitmapTest b = false) ∧
        s.pmmAllocPages n = (first * 4096 % 2 ^ 32, s.claimRun first n) := by
  by_cases hrun : s.initialized = true ∧ 0 < n
  · rcases pmmAllocPages_least hrun.1 hrun.2 with ⟨hfail, -⟩ | ⟨a, ha, heq⟩
    · exact Or.inl hfail
    · exact Or.inr ⟨a, hrun.2, ha.1.fits, ha.1.free, heq⟩
  · refine Or.inl (if_pos ?_)
    rw [not_and_or, Nat.not_lt, Nat.le_zero] at hrun
    simpa using hrun

theorem sameShape_claimRun (s : Pmm) (first n : Nat) : SameShape s (s.claimRun first n) := by
  have h := sameShape_foldl sameShape_bitmapSet s (List.range' first n)
  exact ⟨h.bitmap4k, h.totalBlocks, h.initialized⟩

theorem sameShape_pmmFreePages (s : Pmm) (paddr n : Nat) :
    SameShape s (s.pmmFreePages paddr n) := by
  have hstep (s : Pmm) (b : Nat) : SameShape s (s.freeBlock b) := by
    unfold freeBlock
    split_ifs
    · exact sameShape_release s b
    · exact SameShape.refl s
  unfold pmmFreePages
  split_ifs
  · exact SameShape.refl s
  · exact sameShape_foldl hstep s _

/-- Allocating one page and allocating a run of one page are the same. -/
theorem pmmAllocPage_eq (s : Pmm) : s.pmmAllocPage = s.pmmAllocPages 1 := by
  have hloop (left i first : Nat) :
      s.allocPageLoop left i = s.allocPagesLoop 1 left i first 0 := by
    induction left generalizing i with
    | zero => rfl
    | succ left ih => grind [allocPageLoop, allocPagesLoop, claimRun, take]
  unfold pmmAllocPage pmmAllocPages
  rw [hloop s.totalBlocks 0 0]
  cases s.initialized <;> rfl

theorem claimRun_freeBlocks (s : Pmm) {first n : Nat} (hn : n ≤ 2 ^ 32) :
    ((s.claimRun first n).freeBlocks + n) % 2 ^ 32 = s.freeBlocks % 2 ^ 32 := by
  simp only [claimRun, zero]
  omega

theorem FreeRun.pos {s : Pmm} (hzero : s.bitmapTest 0 = true) {n a : Nat} (hn : 0 < n)
    (h : s.FreeRun n a) : 0 < a := by
  rcases Nat.eq_zero_or_pos a with rfl | hpos
  · rw [h.free 0 (Nat.le_refl 0) (by omega)] at hzero
    cases hzero
  · exact hpos

/-- Allocation is complete first fit: it hands out the first run that is long enough, marks its
blocks and no other, and lowers the count of free blocks by the length of the run; it fails exactly
where there is no such run, and then changes nothing. Both entry points agree on one page. -/
theorem pmmAllocPages_firstFit {s : Pmm} (hi : s.initialized = true)
    (ht : s.totalBlocks < 2 ^ 20) (hzero : s.bitmapTest 0 = true) (hap : s.Apart) {n : Nat}
    (hn : 1 ≤ n) :
    (∀ a, IsLeast {a | s.FreeRun n a} a →
        (s.pmmAllocPages n).1 = 4096 * a ∧
          SameShape s (s.pmmAllocPages n).2 ∧
          (∀ b < s.totalBlocks, (s.pmmAllocPages n).2.bitmapTest b =
            (decide (a ≤ b ∧ b < a + n) || s.bitmapTest b)) ∧
          ((s.pmmAllocPages n).2.freeBlocks + n) % 2 ^ 32 = s.freeBlocks % 2 ^ 32) ∧
      ((s.pmmAllocPages n).1 = 0 ↔ ¬∃ a, s.FreeRun n a) ∧
      ((s.pmmAllocPages n).1 = 0 → (s.pmmAllocPages n).2 = s) ∧
      s.pmmAllocPage = s.pmmAllocPages 1 := by
  rcases pmmAllocPages_least hi hn with ⟨heq, hnone⟩ | ⟨a, ha, heq⟩
  · rw [heq]
    exact ⟨fun a ha => absurd ha.1 (hnone a), ⟨fun _ ⟨a, h⟩ => hnone a h, fun _ => rfl⟩,
      fun _ => rfl, pmmAllocPage_eq s⟩
  · have hpos := FreeRun.pos hzero hn ha.1
    have hfits := ha.1.fits
    have hbecomes := claimRun_becomes ht hap ha.1.fits ha.1.free
    have haddr : a * 4096 % 2 ^ 32 = 4096 * a := by omega
    have hne : 4096 * a ≠ 0 := by omega
    rw [heq, haddr]
    refine ⟨fun a' ha' => ?_, ⟨fun h => absurd h hne, fun h => absurd ⟨a, ha.1⟩ h⟩,
      fun h => absurd h hne, pmmAllocPage_eq s⟩
    obtain rfl := ha'.unique ha
    exact ⟨rfl, sameShape_claimRun s a' n, hbecomes.test, claimRun_freeBlocks s (by omega)⟩

/-- An allocator of eight blocks whose bitmap lies in block 1, with only the given blocks used. -/
def eightBlocks (used : Byte) (free : Nat) : Pmm :=
  ⟨Function.update (fun _ => 0) 4096 used, 4096, 8, free, true⟩

theorem pmmAllocPages_firstFit_eightBlocks :
    (eightBlocks 0x0B 5).bitmapTest 0 = true ∧ (eightBlocks 0x0B 5).Apart ∧
      ((eightBlocks 0x0B 5).pmmAllocPages 2).1 = 4096 * 4 := by
  have hzero : (eightBlocks 0x0B 5).bitmapTest 0 = true := by decide
  have hap : (eightBlocks 0x0B 5).Apart := by
    unfold Apart
    decide
  have hleast : IsLeast {a | (eightBlocks 0x0B 5).FreeRun 2 a} 4 := by
    refine ⟨⟨by decide, fun b h₁ h₂ => ?_⟩, fun a ha => ?_⟩
    · obtain rfl | rfl : b = 4 ∨ b = 5 := by omega
      · decide
      · decide
    · by_contra hlt
      have hfirst := ha.free a (by omega) (by omega)
      have hsecond := ha.free (a + 1) (by omega) (by omega)
      interval_cases a <;> revert hfirst hsecond <;> decide
  exact ⟨hzero, hap, ((pmmAllocPages_firstFit rfl (by decide) hzero hap (by decide)).1 4 hleast).1⟩

/-- Where the bitmap's own block is free, the allocator hands it out, and zeroing it wipes the
bitmap: the block it returns is not marked, and block 0 is no longer. -/
theorem pmmAllocPages_bitmap_free :
    (eightBlocks 0x01 7).initialized = true ∧ (eightBlocks 0x01 7).bitmapTest 0 = true ∧
      IsLeast {a | (eightBlocks 0x01 7).FreeRun 1 a} 1 ∧
      ((eightBlocks 0x01 7).pmmAllocPages 1).1 = 4096 * 1 ∧
      ((eightBlocks 0x01 7).pmmAllocPages 1).2.bitmapTest 1 = false ∧
      ((eightBlocks 0x01 7).pmmAllocPages 1).2.bitmapTest 0 = false := by
  refine ⟨rfl, by decide, ⟨⟨by decide, fun b h₁ h₂ => ?_⟩, fun a ha => ?_⟩, ?_, ?_, ?_⟩
  · obtain rfl : b = 1 := by omega
    decide
  · exact ha.pos (by decide) (by decide)
  all_goals decide

/-! ## Release -/

theorem pmmFreePage_becomes {s : Pmm} (ht : s.totalBlocks < 2 ^ 32) (hi : s.initialized = true)
    (paddr : Nat) :
    Becomes s (s.pmmFreePage paddr) fun b => !decide (paddr / 4096 = b) && s.bitmapTest b := by
  have heq : s.pmmFreePage paddr = s.freeBlock (paddr / 4096) := by grind [pmmFreePage, freeBlock]
  rw [heq]
  exact freeBlock_becomes ht _

theorem pmmFreePages_becomes {s : Pmm} (ht : s.totalBlocks < 2 ^ 32) (hi : s.initialized = true)
    {paddr n : Nat} (hend : paddr / 4096 + n < 2 ^ 32) :
    Becomes s (s.pmmFreePages paddr n) fun b =>
      !decide (paddr / 4096 ≤ b ∧ b < paddr / 4096 + n) && s.bitmapTest b := by
  unfold pmmFreePages
  split
  · rename_i h
    have hn : n = 0 := by simpa [hi] using h
    refine (Becomes.refl s).congr fun b _ => ?_
    have : ¬ (paddr / 4096 ≤ b ∧ b < paddr / 4096 + n) := by omega
    simp [this]
  · grind [foldl_freeBlock_becomes]

theorem pmmFreePages_of_not_initialized {s : Pmm} (hi : s.initialized = false) (paddr n : Nat) :
    s.pmmFreePages paddr n = s := by
  simp [pmmFreePages, hi]

theorem pmmFreePage_of_not_initialized {s : Pmm} (hi : s.initialized = false) (paddr : Nat) :
    s.pmmFreePage paddr = s := by
  simp [pmmFreePage, hi]

/-! ## A running allocator -/

/-- The allocator has started, and the blocks up to the end of the bitmap stay used. -/
structure Ready (s : Pmm) : Prop where
  initialized : s.initialized = true
  sound : s.Sound s.reserved

namespace Ready

variable {s s' : Pmm}

theorem reserved_eq (h : SameShape s s') : s'.reserved = s.reserved := by
  unfold reserved
  rw [h.reserveBlocks]

theorem becomes {f : Nat → Bool} (h : s.Ready) (hf : Becomes s s' f)
    (hkept : ∀ b < s.reserveBlocks, b < s.totalBlocks → f b = true) : s'.Ready := by
  refine ⟨hf.shape.initialized.trans h.initialized, ?_⟩
  rw [reserved_eq hf.shape]
  exact h.sound.becomes hf fun b hb hk => hkept b hk hb

theorem used (h : s.Ready) {b : Nat} (hb : b < s.reserveBlocks) (ht : b < s.totalBlocks) :
    s.bitmapTest b = true :=
  h.sound.used b ht hb

theorem totalBlocks_lt (h : s.Ready) : s.totalBlocks < 2 ^ 20 := h.sound.total_lt

theorem reserveBlocks_pos (h : 0 < s.totalBlocks) : 0 < s.reserveBlocks := by
  unfold reserveBlocks divRoundUp
  omega

/-- Allocation fails and changes nothing, or hands out clear blocks above the bitmap. -/
theorem alloc (h : s.Ready) (n : Nat) :
    s.pmmAllocPages n = (0, s) ∨
      ∃ first s', 0 < n ∧ 0 < first ∧ s.reserveBlocks ≤ first ∧ first + n ≤ s.totalBlocks ∧
        (∀ b, first ≤ b → b < first + n → s.bitmapTest b = false) ∧
        s.pmmAllocPages n = (first * 4096, s') ∧ s'.Ready ∧
        Becomes s s' fun b => decide (first ≤ b ∧ b < first + n) || s.bitmapTest b := by
  rcases s.pmmAllocPages_cases n with heq | ⟨first, hn, hend, hclear, heq⟩
  · exact Or.inl heq
  · have ht := h.totalBlocks_lt
    have hres : s.reserveBlocks ≤ first := by
      by_contra hlt
      have hused := h.used (Nat.lt_of_not_le hlt) (by omega)
      rw [hclear first (Nat.le_refl _) (by omega)] at hused
      exact absurd hused (by decide)
    have hpos := reserveBlocks_pos (s := s) (by omega)
    have hbec := claimRun_becomes ht h.sound.toApart hend hclear
    refine Or.inr ⟨first, s.claimRun first n, hn, by omega, hres, hend, hclear, ?_, ?_, hbec⟩
    · rw [heq, Nat.mod_eq_of_lt (by omega)]
    · refine h.becomes hbec fun b hb hlt => ?_
      rw [h.used hb hlt, Bool.or_true]

/-- Freeing clears the blocks it names, which are above the bitmap. -/
theorem free (h : s.Ready) {paddr n : Nat} (hres : s.reserveBlocks ≤ paddr / 4096)
    (hend : paddr / 4096 + n < 2 ^ 32) :
    (s.pmmFreePages paddr n).Ready ∧
      Becomes s (s.pmmFreePages paddr n) fun b =>
        !decide (paddr / 4096 ≤ b ∧ b < paddr / 4096 + n) && s.bitmapTest b := by
  have ht := h.totalBlocks_lt
  have hbec := pmmFreePages_becomes (by omega) h.initialized hend
  refine ⟨h.becomes hbec fun b hb hlt => ?_, hbec⟩
  rw [h.used hb hlt, Bool.and_true, Bool.not_eq_true', decide_eq_false_iff_not]
  omega

/-- Freeing a run that has just been claimed restores the bits. -/
theorem undo (h : s.Ready) {first n : Nat} (hres : s.reserveBlocks ≤ first)
    (hend : first + n ≤ s.totalBlocks)
    (hclear : ∀ b, first ≤ b → b < first + n → s.bitmapTest b = false)
    (hs : Becomes s s' fun b => decide (first ≤ b ∧ b < first + n) || s.bitmapTest b) :
    Becomes s (s'.pmmFreePages (first * 4096) n) s.bitmapTest := by
  have ht := h.totalBlocks_lt
  have hready : s'.Ready := h.becomes hs fun b hb hlt => by simp [h.used hb hlt]
  have hfree := (hready.free (n := n) (show s'.reserveBlocks ≤ first * 4096 / 4096 by
    rw [hs.shape.reserveBlocks]
    omega) (by omega)).2
  refine (hs.trans hfree).congr fun b hb => ?_
  rw [hs.test b hb, Nat.mul_div_cancel _ (by decide)]
  by_cases hin : first ≤ b ∧ b < first + n
  · simp [hin, hclear b hin.1 hin.2]
  · simp [hin]

/-- Writing to blocks above the bitmap leaves the bits alone. -/
theorem write (h : s.Ready) {mem : Memory}
    (hmem : ∀ x < 2 ^ 32, ¬(s.reserveBlocks ≤ x / 4096 ∧ x / 4096 < s.totalBlocks) →
      mem x = s.mem x) : Becomes s (s.withMem mem) s.bitmapTest := by
  have htest : ∀ b < s.totalBlocks, (s.withMem mem).bitmapTest b = s.bitmapTest b := by
    intro b hb
    change (mem (s.bitmapByte b)).getLsbD _ = (s.mem (s.bitmapByte b)).getLsbD _
    have hbyte : s.bitmapByte b < 2 ^ 32 := Nat.mod_lt _ (by decide)
    rw [hmem _ hbyte]
    rintro ⟨hres, hlt⟩
    exact h.sound.apart b hb _ hlt (fun hk => Nat.not_lt.mpr hres hk) rfl
  refine ⟨⟨rfl, rfl, rfl⟩, htest, fun hc => ?_⟩
  have hclear : (s.withMem mem).clearBlocks = s.clearBlocks := by
    ext b
    rw [mem_clearBlocks, mem_clearBlocks]
    exact and_congr_right fun hb => by rw [htest b hb]
  exact hc.trans (congrArg Finset.card hclear.symm)

end Ready

end Ukernel.Mm.Pmm
