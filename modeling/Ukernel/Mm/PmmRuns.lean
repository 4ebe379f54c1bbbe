import Ukernel.Machine.System
import Ukernel.Mm.PmmOps

/-!
# Runs of the physical memory manager

After `pmm_init` and the boot-time calls of `pmm_mark_used`, the kernel allocates pages and frees
what it was given. A history pairs the allocator with the allocations that are live; over every
history the counter agrees with the bitmap and no block is handed out twice.

## Main definitions

* `Pmm.boot`: the allocator after initialization and marking
* `Pmm.History`, `Pmm.historySystem`: the allocator with its live allocations, and its operations

## Main results

* `Pmm.live_allocations_apart`: live allocations are disjoint from each other, from the bitmap and
  everything below it, and from every marked range
-/

namespace Ukernel.Mm.Pmm

open Machine

/-- `pmm_init` followed by calls of `pmm_mark_used`. -/
def boot (mem : Memory) (lock : Bool) (totalMemory bitmapPa : Nat) (marks : List (Nat × Nat)) :
    Pmm :=
  marks.foldl (fun s m => s.pmmMarkUsed m.1 m.2) ((start mem).pmmInit lock totalMemory bitmapPa)

/-- What a caller holds after a successful allocation: the address and the number of pages. -/
structure Allocation where
  paddr : Nat
  pages : Nat
deriving DecidableEq, Repr

/-- The blocks of an allocation. -/
def Allocation.blocks (a : Allocation) : Finset Nat :=
  Finset.Ico (a.paddr / 4096) (a.paddr / 4096 + a.pages)

/-- The allocator together with the live allocations. -/
structure History where
  pmm : Pmm
  live : List Allocation

/-- What callers do after boot. -/
inductive Op where
  | allocPage
  | allocPages (n : UInt32)
  | freePage (a : Allocation)
  | freePages (a : Allocation)

/-- Record the result of an allocation of `n` pages; address 0 means failure. -/
def History.record (h : History) (r : Nat × Pmm) (n : Nat) : History :=
  ⟨r.2, if r.1 = 0 then h.live else ⟨r.1, n⟩ :: h.live⟩

/-- Allocations are freed whole, by the caller that holds them. -/
def historySystem : System History Op where
  exec h
    | .allocPage => h.record h.pmm.pmmAllocPage 1
    | .allocPages n => h.record (h.pmm.pmmAllocPages n.toNat) n.toNat
    | .freePage a => ⟨h.pmm.pmmFreePage a.paddr, h.live.erase a⟩
    | .freePages a => ⟨h.pmm.pmmFreePages a.paddr a.pages, h.live.erase a⟩
  enabled h
    | .allocPage | .allocPages _ => True
    | .freePage a => a ∈ h.live ∧ a.pages = 1
    | .freePages a => a ∈ h.live

/-- The blocks that must never be handed out. -/
def keptBlocks (s : Pmm) (marks : List (Nat × Nat)) : Set Nat :=
  {b | b ∈ s.reserved ∨ ∃ m ∈ marks, b ∈ touched m.1 m.2}

theorem foldl_pmmMarkUsed_sound {kept : Set Nat} (marks done : List (Nat × Nat)) {s : Pmm}
    (hmarks : ∀ m ∈ marks, m.1 ≠ 0 ∧ m.1 + m.2 + 4095 < 2 ^ 32) (hi : s.initialized = true)
    (hs : s.Sound {b | b ∈ kept ∨ ∃ m ∈ done, b ∈ touched m.1 m.2}) :
    let s' := marks.foldl (fun s m => s.pmmMarkUsed m.1 m.2) s
    SameShape s s' ∧ s'.Sound {b | b ∈ kept ∨ ∃ m ∈ done ++ marks, b ∈ touched m.1 m.2} := by
  induction marks generalizing s done with
  | nil => exact ⟨SameShape.refl s, by simpa using hs⟩
  | cons m marks ih =>
    obtain ⟨hp, hend⟩ := hmarks m List.mem_cons_self
    obtain ⟨f, hf, hmono, htouch⟩ :=
      pmmMarkUsed_becomes (lt_trans hs.total_lt (by norm_num)) hi hp hend
    have hsound := hs.becomes hf fun b hb hk => hmono b (hs.used b hb hk)
    have hmore : (s.pmmMarkUsed m.1 m.2).Sound
        {b | b ∈ kept ∨ ∃ m' ∈ done ++ [m], b ∈ touched m'.1 m'.2} := by
      refine hsound.mono ?_ ?_
      · rintro b (hb | ⟨m', hm', hb⟩)
        · exact Or.inl hb
        · exact Or.inr ⟨m', List.mem_append_left _ hm', hb⟩
      · grind [hsound.used, hf.shape.totalBlocks, hf.test]
    obtain ⟨hshape, hrest⟩ :=
      ih (done ++ [m]) (fun m' hm' => hmarks m' (List.mem_cons_of_mem _ hm'))
      (hf.shape.initialized.trans hi) hmore
    exact ⟨hf.shape.trans hshape, by simpa using hrest⟩

theorem foldl_pmmMarkUsed_of_not_initialized {s : Pmm} (hi : s.initialized = false)
    (marks : List (Nat × Nat)) : marks.foldl (fun s m => s.pmmMarkUsed m.1 m.2) s = s := by
  induction marks with
  | nil => rfl
  | cons m marks ih => rw [List.foldl_cons, pmmMarkUsed_of_not_initialized hi, ih]

/-- Boot is sound for the reserved blocks and every marked range. -/
theorem boot_sound (mem : Memory) (lock : Bool) {totalMemory : Nat} (bitmapPa : Nat)
    {marks : List (Nat × Nat)} (htotal : totalMemory < 2 ^ 32)
    (hmarks : ∀ m ∈ marks, m.1 ≠ 0 ∧ m.1 + m.2 + 4095 < 2 ^ 32) :
    let s := boot mem lock totalMemory bitmapPa marks
    s.Sound (s.keptBlocks marks) := by
  intro s
  obtain ⟨hsound, hbits⟩ := pmmInit_spec mem lock bitmapPa htotal
  by_cases hi : ((start mem).pmmInit lock totalMemory bitmapPa).initialized = true
  · have hstart : ((start mem).pmmInit lock totalMemory bitmapPa).Sound
        {b | b ∈ ((start mem).pmmInit lock totalMemory bitmapPa).reserved ∨
          ∃ m ∈ ([] : List (Nat × Nat)), b ∈ touched m.1 m.2} := by simpa using hsound
    obtain ⟨hshape, hs⟩ := foldl_pmmMarkUsed_sound marks [] hmarks hi hstart
    have hres : s.reserved = ((start mem).pmmInit lock totalMemory bitmapPa).reserved := by
      unfold reserved
      rw [← hshape.reserveBlocks]
      rfl
    unfold keptBlocks
    rw [hres]
    exact hs
  · -- an allocator that was not initialized has no blocks
    have hskip : (start mem).pmmInit lock totalMemory bitmapPa = start mem := by grind [pmmInit]
    have hs : s = start mem := by
      change marks.foldl _ _ = _
      rw [hskip]
      exact foldl_pmmMarkUsed_of_not_initialized rfl marks
    rw [hs]
    rw [hskip] at hsound
    exact ⟨hsound.total_lt, hsound.counted, fun b hb => absurd hb (Nat.not_lt_zero b),
      fun b hb => absurd hb (Nat.not_lt_zero b)⟩

/-! ## The invariant of a history -/

/-- Live allocations are used, disjoint blocks outside the kept ones. -/
structure HistoryInv (booted : Pmm) (kept : Set Nat) (h : History) : Prop where
  shape : SameShape booted h.pmm
  sound : h.pmm.Sound kept
  used : ∀ a ∈ h.live, ∀ b ∈ a.blocks,
    b < h.pmm.totalBlocks ∧ b ∉ kept ∧ h.pmm.bitmapTest b = true
  disjoint : h.live.Pairwise fun a a' => Disjoint a.blocks a'.blocks

section Steps

variable {booted : Pmm} {kept : Set Nat} {h : History}

variable (hinv : HistoryInv booted kept h)

include hinv

/-- Claiming a run of clear blocks and recording it keeps the invariant. -/
theorem HistoryInv.claim {first n : Nat} (hend : first + n ≤ h.pmm.totalBlocks)
    (hclear : ∀ b, first ≤ b → b < first + n → h.pmm.bitmapTest b = false) :
    HistoryInv booted kept (h.record (first * 4096 % 2 ^ 32, h.pmm.claimRun first n) n) := by
  have ht := hinv.sound.total_lt
  have hb := claimRun_becomes ht hinv.sound.toApart hend hclear
  have hsound := hinv.sound.becomes hb fun b hlt hk => by simp [hinv.sound.used b hlt hk]
  have hold : ∀ a ∈ h.live, ∀ b ∈ a.blocks, b < (h.pmm.claimRun first n).totalBlocks ∧
      b ∉ kept ∧ (h.pmm.claimRun first n).bitmapTest b = true := by
    grind [hinv.used, hb.shape.totalBlocks, hb.test]
  by_cases hz : first * 4096 % 2 ^ 32 = 0
  · simp only [History.record, hz, if_true]
    exact ⟨hinv.shape.trans hb.shape, hsound, hold, hinv.disjoint⟩
  · simp only [History.record, hz, if_false]
    have hmem : ∀ b, b ∈ (⟨first * 4096 % 2 ^ 32, n⟩ : Allocation).blocks ↔
        first ≤ b ∧ b < first + n := by
      intro b
      simp only [Allocation.blocks, Finset.mem_Ico]
      omega
    refine ⟨hinv.shape.trans hb.shape, hsound, ?_, List.pairwise_cons.mpr ⟨?_, hinv.disjoint⟩⟩
    · grind [hb.shape.totalBlocks, hinv.sound.not_kept, mem_clearBlocks, hb.test]
    · intro a ha
      refine Finset.disjoint_left.mpr fun b hb' hba => ?_
      have hrun := (hmem b).mp hb'
      have := (hinv.used a ha b hba).2.2
      rw [hclear b hrun.1 hrun.2] at this
      exact absurd this (by decide)

/-- Freeing exactly the blocks of a live allocation keeps the invariant. -/
theorem HistoryInv.free {a : Allocation} (ha : a ∈ h.live) {s' : Pmm}
    (hs' : Becomes h.pmm s' fun b => !decide (b ∈ a.blocks) && h.pmm.bitmapTest b) :
    HistoryInv booted kept ⟨s', h.live.erase a⟩ := by
  refine ⟨hinv.shape.trans hs'.shape, hinv.sound.becomes hs' ?_, ?_,
    hinv.disjoint.sublist List.erase_sublist⟩
  · grind [hinv.used, hinv.sound.used]
  · intro a' ha' b hba
    have hmem := List.mem_of_mem_erase ha'
    obtain ⟨hlt, hk, hu⟩ := hinv.used a' hmem b hba
    refine ⟨hs'.shape.totalBlocks ▸ hlt, hk, ?_⟩
    have hnot : b ∉ a.blocks := by
      have hperm := List.perm_cons_erase ha
      have hpair := (List.Perm.pairwise_iff (fun hxy => hxy.symm) hperm).mp hinv.disjoint
      exact fun hb => Finset.disjoint_left.mp ((List.pairwise_cons.mp hpair).1 a' ha') hb hba
    rw [hs'.test b hlt, hu]
    simp [hnot]

/-- Without blocks nothing can be allocated or freed. -/
theorem HistoryInv.unchanged (live : List Allocation) (hl : live.Sublist h.live) :
    HistoryInv booted kept ⟨h.pmm, live⟩ :=
  ⟨hinv.shape, hinv.sound, fun a ha => hinv.used a (hl.subset ha), hinv.disjoint.sublist hl⟩

theorem HistoryInv.step (op : Op) (hen : historySystem.enabled h op) :
    HistoryInv booted kept (historySystem.exec h op) := by
  have ht : h.pmm.totalBlocks < 2 ^ 32 := lt_trans hinv.sound.total_lt (by norm_num)
  cases op with
  | allocPage =>
    change HistoryInv booted kept (h.record h.pmm.pmmAllocPage 1)
    rcases pmmAllocPage_cases h.pmm with heq | ⟨first, hlt, hclear, heq⟩ <;> rw [heq]
    · exact hinv
    · exact hinv.claim hlt fun b h1 h2 => (show b = first by omega) ▸ hclear
  | allocPages n =>
    change HistoryInv booted kept (h.record (h.pmm.pmmAllocPages n.toNat) n.toNat)
    rcases pmmAllocPages_cases h.pmm n.toNat with heq | ⟨first, -, hend, hclear, heq⟩ <;> rw [heq]
    · exact hinv
    · exact hinv.claim hend hclear
  | freePage a =>
    change HistoryInv booted kept ⟨h.pmm.pmmFreePage a.paddr, h.live.erase a⟩
    obtain ⟨ha, hone⟩ := hen
    by_cases hi : h.pmm.initialized = true
    · grind [hinv.free, pmmFreePage_becomes, Allocation.blocks]
    · rw [pmmFreePage_of_not_initialized (by simpa using hi)]
      exact hinv.unchanged _ List.erase_sublist
  | freePages a =>
    change HistoryInv booted kept ⟨h.pmm.pmmFreePages a.paddr a.pages, h.live.erase a⟩
    by_cases hi : h.pmm.initialized = true
    · by_cases hz : a.pages = 0
      · grind [hinv.unchanged, List.erase_sublist, pmmFreePages]
      · have hlast := (hinv.used a hen (a.paddr / 4096 + a.pages - 1)
          (by simp only [Allocation.blocks, Finset.mem_Ico]; omega)).1
        refine hinv.free hen ((pmmFreePages_becomes ht hi ?_).congr fun b _ => ?_)
        · omega
        · simp only [Allocation.blocks, Finset.mem_Ico]
    · rw [pmmFreePages_of_not_initialized (by simpa using hi)]
      exact hinv.unchanged _ List.erase_sublist

end Steps

/-- No page is handed out twice: after boot, over every history in which allocations are freed
whole, the counter agrees with the bitmap, and the live allocations are pairwise disjoint, lie
below `total_blocks`, and avoid both the blocks up to the end of the bitmap and every marked
range. -/
theorem live_allocations_apart (mem : Memory) (lock : Bool) (totalMemory bitmapPa : UInt32)
    (marks : List (Nat × Nat)) (hmarks : ∀ m ∈ marks, m.1 ≠ 0 ∧ m.1 + m.2 + 4095 < 2 ^ 32)
    (ops : List Op) (booted : Pmm)
    (hboot : booted = boot mem lock totalMemory.toNat bitmapPa.toNat marks)
    (hops : historySystem.Legal ⟨booted, []⟩ ops) :
    let h := historySystem.run ⟨booted, []⟩ ops
    h.pmm.freeBlocks = h.pmm.clearBlocks.card ∧
      h.live.Pairwise (fun a a' => Disjoint a.blocks a'.blocks) ∧
      ∀ a ∈ h.live, ∀ b ∈ a.blocks, b < h.pmm.totalBlocks ∧ h.pmm.reserveBlocks ≤ b ∧
        ∀ m ∈ marks, b ∉ touched m.1 m.2 := by
  intro h
  have hsound := boot_sound mem lock bitmapPa.toNat totalMemory.toNat_lt hmarks
  rw [← hboot] at hsound
  have hstart : HistoryInv booted (booted.keptBlocks marks) ⟨booted, []⟩ :=
    ⟨SameShape.refl _, hsound, fun a ha => absurd ha List.not_mem_nil, List.Pairwise.nil⟩
  have hinv : HistoryInv booted (booted.keptBlocks marks) h :=
    System.run_invariant (fun _ op hs hen => hs.step op hen) hstart hops
  refine ⟨hinv.sound.counted, hinv.disjoint, fun a ha b hb => ?_⟩
  obtain ⟨hlt, hk, -⟩ := hinv.used a ha b hb
  refine ⟨hlt, ?_, fun m hm hb => hk (Or.inr ⟨m, hm, hb⟩)⟩
  rw [hinv.shape.reserveBlocks]
  exact Nat.le_of_not_lt fun hlt => hk (Or.inl hlt)

/-- On 64 MB with the bitmap at 24 MB and a module marked at 32 MB. -/
theorem live_allocations_apart_sixtyFourMb :
    let booted := boot (fun _ => 0) true (0x4000000 : UInt32).toNat (0x1800000 : UInt32).toNat
      [(0x2000000, 0x3000)]
    let ops := [Op.allocPages 2, Op.allocPage, Op.allocPages 5]
    let h := historySystem.run ⟨booted, []⟩ ops
    historySystem.Legal ⟨booted, []⟩ ops ∧ h.pmm.freeBlocks = h.pmm.clearBlocks.card := by
  have hlegal : historySystem.Legal
      ⟨boot (fun _ => 0) true (0x4000000 : UInt32).toNat (0x1800000 : UInt32).toNat
        [(0x2000000, 0x3000)], []⟩
      [Op.allocPages 2, Op.allocPage, Op.allocPages 5] := ⟨trivial, trivial, trivial, trivial⟩
  exact ⟨hlegal, (live_allocations_apart (fun _ => 0) true 0x4000000 0x1800000
    [(0x2000000, 0x3000)] (by decide) _ _ rfl hlegal).1⟩

end Ukernel.Mm.Pmm
