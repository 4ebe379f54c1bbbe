import Ukernel.Arch.PagingOps

/-!
# The supply of page tables

A directory entry gets a table from the pool when the first of its pages is mapped, and the pool has
a fixed number of slots. Whether a range can be mapped, and how far the mapping comes, is therefore
decided before the first page: by the directory entries of the range that have no table, and by the
free slots.

## Main definitions

* `freeSlots`, `tablesMissing`, `Supplied`: the pool has slots for the tables of a range

## Main results

* `archMap4kb_pool`: what mapping a page takes from the pool
* `mapPages_ok_iff`: a range can be mapped just if the pool can supply it
* `mapPages_stops`: a mapping that fails has come as far as the pool could supply it
-/

namespace Ukernel.Arch

open Kernel Lib

variable {L : Layout} {pg pg' : Paging} {dirs : Set Nat}

/-- The pool hands out nothing only if no slot is free. -/
theorem archPagingPoolAlloc_lacks (hlock : pg.poolLock = true)
    (h : archPagingPoolAlloc L pg = (0, pg)) : firstFree pg.poolUsed pagingPoolSlots 0 = none := by
  cases hf : firstFree pg.poolUsed pagingPoolSlots 0 with
  | none => rfl
  | some i => grind [L.pdes_below, archPagingPoolAlloc]

/-- A page whose directory entry has a table takes nothing from the pool; another one takes the
first free slot, and cannot be mapped if there is none. -/
theorem archMap4kb_pool {cr3 : Nat} (va pa flags : Nat) (hlock : pg.poolLock = true)
    (hcr3 : cr3 ≠ 0) :
    let res := archMap4kb L pg cr3 va pa flags
    (pg.table (cr3 / 4096) (pdIndex va)).IsTable ∧ res.1 = 0 ∧ res.2.poolUsed = pg.poolUsed ∨
      ¬(pg.table (cr3 / 4096) (pdIndex va)).IsTable ∧
        (firstFree pg.poolUsed pagingPoolSlots 0 = none ∧ res.1 ≠ 0 ∨
          ∃ i, firstFree pg.poolUsed pagingPoolSlots 0 = some i ∧ res.1 = 0 ∧
            res.2.poolUsed = Function.update pg.poolUsed i true) := by
  intro res
  have hlacks := archPagingPoolAlloc_lacks (L := L) hlock
  have hnz (i : Nat) : L.poolFrame i * 4096 ≠ 0 :=
    Nat.mul_ne_zero (Nat.ne_of_gt (poolFrame_pos L i)) (by decide)
  simp only [res, archMap4kb, splitForMap, tableForMap, split4mbPde, if_neg hcr3]
  cases hp : (pg.table (cr3 / 4096) (pdIndex va)).present with
  | true =>
    cases hs : (pg.table (cr3 / 4096) (pdIndex va)).pageSize with
    | true =>
      have hnt : ¬(pg.table (cr3 / 4096) (pdIndex va)).IsTable := fun ht => by
        rw [ht.2] at hs
        cases hs
      refine Or.inr ⟨hnt, ?_⟩
      rcases archPagingPoolAlloc_cases (L := L) hlock with heq | ⟨i, -, -, hf, heq⟩
      · refine Or.inl ⟨hlacks heq, ?_⟩
        simp [heq, eNomem_ne_zero]
      · refine Or.inr ⟨i, hf, ?_⟩
        simp only [heq, hnz, write_table_self, Bool.and_self, Bool.not_true, Bool.or_self,
          if_true, if_false, splitPde, ne_eq, not_true, Bool.false_eq_true]
        exact ⟨trivial, rfl⟩
    | false =>
      refine Or.inl ⟨⟨hp, hs⟩, ?_⟩
      simp only [hp, Bool.and_false, if_true, if_false, ne_eq, not_true, Bool.false_eq_true]
      exact ⟨trivial, rfl⟩
  | false =>
    have hnt : ¬(pg.table (cr3 / 4096) (pdIndex va)).IsTable := fun ht => by
      rw [ht.1] at hp
      cases hp
    refine Or.inr ⟨hnt, ?_⟩
    rcases archPagingPoolAlloc_cases (L := L) hlock with heq | ⟨i, -, -, hf, heq⟩
    · refine Or.inl ⟨hlacks heq, ?_⟩
      simp [heq, hp, eNomem_ne_zero]
    · refine Or.inr ⟨i, hf, ?_⟩
      simp only [heq, hp, hnz, Bool.false_and, if_false, ne_eq, not_true, Bool.false_eq_true]
      exact ⟨trivial, rfl⟩

/-! ## How far a mapping comes -/

/-- The free slots of the pool. -/
def freeSlots (pg : Paging) : Finset Nat :=
  (Finset.range pagingPoolSlots).filter fun i => pg.poolUsed i = false

/-- The entries of the directory `d` for the `n` pages from `p` on that point to no table. -/
def tablesMissing (pg : Paging) (d p n : Nat) : Finset Nat :=
  ((Finset.range n).image fun i => (p + i) / 1024).filter fun idx => ¬(pg.table d idx).IsTable

/-- The pool has slots for the tables that the `n` pages from `p` on need. -/
def Supplied (pg : Paging) (d p n : Nat) : Prop :=
  (tablesMissing pg d p n).card ≤ (freeSlots pg).card

theorem mem_tablesMissing {d p n idx : Nat} :
    idx ∈ tablesMissing pg d p n ↔
      (∃ i < n, (p + i) / 1024 = idx) ∧ ¬(pg.table d idx).IsTable := by
  simp [tablesMissing]

theorem Supplied.mono {d p m n : Nat} (h : Supplied pg d p n) (hmn : m ≤ n) :
    Supplied pg d p m := by
  refine Nat.le_trans (Finset.card_le_card fun idx hidx => ?_) h
  obtain ⟨⟨i, hi, heq⟩, hnt⟩ := mem_tablesMissing.mp hidx
  exact mem_tablesMissing.mpr ⟨⟨i, by omega, heq⟩, hnt⟩

/-- The mapping has come to page `i` of the range: the pages before it have tables, and each table
that was missing has taken a slot. -/
structure Spent (pg₀ : Paging) (d p i : Nat) (pg : Paging) : Prop where
  tables : ∀ idx, (pg.table d idx).IsTable ↔
    (pg₀.table d idx).IsTable ∨ ∃ j < i, (p + j) / 1024 = idx
  slots : (freeSlots pg).card + (tablesMissing pg₀ d p i).card = (freeSlots pg₀).card

namespace Spent

variable {pg₀ : Paging} {d p i : Nat}

theorem refl (pg : Paging) (d p : Nat) : Spent pg d p 0 pg :=
  ⟨fun _ => by simp, by simp [tablesMissing]⟩

theorem supplied (h : Spent pg₀ d p i pg) : Supplied pg₀ d p i := by
  have := h.slots
  unfold Supplied
  omega

/-- A page that finds a table needs none. -/
theorem missing_of_isTable (h : Spent pg₀ d p i pg) (ht : (pg.table d ((p + i) / 1024)).IsTable) :
    tablesMissing pg₀ d p (i + 1) = tablesMissing pg₀ d p i := by
  ext idx
  rw [mem_tablesMissing, mem_tablesMissing]
  refine and_congr_left fun hnt => ⟨?_, fun ⟨j, hj, heq⟩ => ⟨j, by omega, heq⟩⟩
  rintro ⟨j, hj, rfl⟩
  rcases Nat.lt_succ_iff_lt_or_eq.mp hj with hlt | rfl
  · exact ⟨j, hlt, rfl⟩
  · exact ((h.tables _).mp ht).resolve_left hnt

/-- A page that finds no table needs one that no page before it has needed. -/
theorem missing_of_not_isTable (h : Spent pg₀ d p i pg)
    (hnt : ¬(pg.table d ((p + i) / 1024)).IsTable) :
    (tablesMissing pg₀ d p (i + 1)).card = (tablesMissing pg₀ d p i).card + 1 := by
  have hnew := (not_congr (h.tables _)).mp hnt
  rw [not_or] at hnew
  have heq : tablesMissing pg₀ d p (i + 1) =
      insert ((p + i) / 1024) (tablesMissing pg₀ d p i) := by
    ext idx
    rw [Finset.mem_insert, mem_tablesMissing, mem_tablesMissing]
    constructor
    · rintro ⟨⟨j, hj, rfl⟩, hidx⟩
      rcases Nat.lt_succ_iff_lt_or_eq.mp hj with hlt | rfl
      · exact Or.inr ⟨⟨j, hlt, rfl⟩, hidx⟩
      · exact Or.inl rfl
    · rintro (rfl | ⟨⟨j, hj, heq⟩, hidx⟩)
      · exact ⟨⟨i, Nat.lt_succ_self i, rfl⟩, hnew.1⟩
      · exact ⟨⟨j, by omega, heq⟩, hidx⟩
  rw [heq, Finset.card_insert_of_notMem fun hmem => hnew.2 (mem_tablesMissing.mp hmem).1]

theorem freeSlots_update {k : Nat} (hk : firstFree pg.poolUsed pagingPoolSlots 0 = some k)
    (hu : pg'.poolUsed = Function.update pg.poolUsed k true) :
    (freeSlots pg').card + 1 = (freeSlots pg).card := by
  obtain ⟨-, hlt, hfree⟩ := firstFree_some hk
  have hmem : k ∈ freeSlots pg := Finset.mem_filter.mpr ⟨Finset.mem_range.mpr (by omega), hfree⟩
  have heq : freeSlots pg' = (freeSlots pg).erase k := by
    ext j
    simp only [freeSlots, hu, Finset.mem_erase, Finset.mem_filter]
    by_cases hj : j = k
    · simp [hj]
    · simp [hj]
  rw [heq, Finset.card_erase_add_one hmem]

theorem freeSlots_of_none (h : firstFree pg.poolUsed pagingPoolSlots 0 = none) :
    freeSlots pg = ∅ := by
  refine Finset.filter_eq_empty_iff.mpr fun i hi hfree => ?_
  have hlt := Finset.mem_range.mp hi
  exact firstFree_ne_none (Nat.zero_le i) (by omega) hfree h

/-- The tables when the mapping of page `i` has succeeded. -/
theorem tables_succ (h : Spent pg₀ d p i pg) {pa flags : Nat} (hd : d ∈ dirs)
    (hmap : Mapped L dirs d (p + i) pa flags pg pg') (idx : Nat) :
    (pg'.table d idx).IsTable ↔
      (pg₀.table d idx).IsTable ∨ ∃ j < i + 1, (p + j) / 1024 = idx := by
  by_cases hidx : idx = (p + i) / 1024
  · subst hidx
    exact iff_of_true hmap.isTable (Or.inr ⟨i, Nat.lt_succ_self i, rfl⟩)
  · rw [hmap.entry d hd idx fun hc => hidx hc.2, h.tables]
    refine or_congr_right ⟨fun ⟨j, hj, heq⟩ => ⟨j, by omega, heq⟩, fun ⟨j, hj, heq⟩ => ?_⟩
    refine ⟨j, ?_, heq⟩
    by_contra hge
    obtain rfl : j = i := by omega
    exact hidx heq.symm

end Spent

section Loop

variable {d p n pa flags : Nat} (hd : d ∈ dirs) (hcr3 : d ≠ 0)
  (hk : d = L.master → dirs = {L.master}) (hend : p + n ≤ 2 ^ 20)
include hd hcr3 hk hend

/-- The loop comes to its end if the pool has tables for all pages, and otherwise stops at the first
page that it has no table for. -/
theorem mapLoop_supply {pg₀ : Paging} (left i : Nat) (hn : i + left = n) (h : pg.Wf L dirs)
    (hspent : Spent pg₀ d p i pg) {stop : Option Nat}
    (hrun : mapLoop L (d * 4096) (p * 4096) pa flags left i pg = (stop, pg')) :
    (stop = none → Supplied pg₀ d p n) ∧
      ∀ k, stop = some k → Supplied pg₀ d p k ∧ ¬Supplied pg₀ d p (k + 1) := by
  induction left generalizing i pg with
  | zero =>
    obtain rfl : i = n := by omega
    cases hrun
    exact ⟨fun _ => hspent.supplied, fun k hk => absurd hk.symm (Option.some_ne_none k)⟩
  | succ left ih =>
    rw [mapLoop, page_add (by omega)] at hrun
    have hpool := archMap4kb_pool (L := L) ((p + i) * 4096) ((pa + i * 4096) % 2 ^ 32) flags
      h.poolLock (Nat.mul_ne_zero hcr3 (by decide : 4096 ≠ 0))
    rw [Nat.mul_div_cancel _ (by decide), pdIndex_page (by omega)] at hpool
    have hslots := hspent.slots
    rcases archMap4kb_cases ((pa + i * 4096) % 2 ^ 32) flags h hd
      (show p + i < 2 ^ 20 by omega) hcr3 hk with heq | ⟨pg₁, heq, hmap⟩
    · grind [eNomem_ne_zero, Spent.freeSlots_of_none, hspent.missing_of_not_isTable, Supplied]
    · rw [heq] at hrun hpool
      dsimp only at hrun hpool
      refine ih (i + 1) (by omega) hmap.wf ⟨hspent.tables_succ hd hmap, ?_⟩ hrun
      rcases hpool with ⟨ht, -, hused⟩ | ⟨hnt, ⟨-, hret⟩ | ⟨j, hj, -, hused⟩⟩
      · have hfree : freeSlots pg₁ = freeSlots pg := by
          unfold freeSlots
          rw [hused]
        rw [hfree, hspent.missing_of_isTable ht, hslots]
      · exact absurd rfl hret
      · have hupdate := Spent.freeSlots_update hj hused
        rw [hspent.missing_of_not_isTable hnt]
        omega

/-- A mapping that fails has mapped the pages that the pool has tables for, and no others, and has
unmapped them again. -/
theorem mapPages_stops (h : pg.Wf L dirs)
    (hfail : mapPages L pg (d * 4096) (p * 4096) pa n flags = (false, pg')) :
    ∃ k < n, (∀ m, m ≤ k ↔ Supplied pg d p m) ∧ ∃ pg₁,
      MappedRange L dirs d p k pa flags pg pg₁ ∧ Unmapped L dirs d p k pg₁ pg' := by
  unfold mapPages at hfail
  rcases mapLoop_cases hd hcr3 hk n 0 (Nat.zero_add n) hend (MappedRange.refl h d p pa flags) with
    ⟨pg₁, heq, -⟩ | ⟨k, pg₁, heq, hlt, hmap⟩
  · rw [heq] at hfail
    cases hfail
  · obtain ⟨hsup, hnot⟩ := (mapLoop_supply hd hcr3 hk hend n 0 (Nat.zero_add n) h
      (Spent.refl pg d p) heq).2 k rfl
    rw [heq] at hfail
    cases hfail
    refine ⟨k, hlt, fun m => ⟨hsup.mono, fun hm => ?_⟩, pg₁, hmap,
      unmapPages_unmapped hmap.wf hd hcr3 hk k (by omega) hmap.tables⟩
    by_contra hgt
    exact hnot (hm.mono (by omega))

/-- A range can be mapped just if the pool has tables for it. -/
theorem mapPages_ok_iff (pa flags : Nat) (h : pg.Wf L dirs) :
    (mapPages L pg (d * 4096) (p * 4096) pa n flags).1 = true ↔ Supplied pg d p n := by
  rcases hmap : mapPages L pg (d * 4096) (p * 4096) pa n flags with ⟨ok, pg'⟩
  cases ok with
  | false => grind [mapPages_stops]
  | true =>
    refine iff_of_true rfl ?_
    unfold mapPages at hmap
    rcases hrun : mapLoop L (d * 4096) (p * 4096) pa flags n 0 pg with ⟨_ | k, pg₁⟩
    · exact (mapLoop_supply hd hcr3 hk hend n 0 (Nat.zero_add n) h (Spent.refl pg d p) hrun).1 rfl
    · rw [hrun] at hmap
      cases hmap

end Loop

end Ukernel.Arch
